import Eleu.Store.Basic

/-! # Classes and instances

    A method is looked up along the chain of superclasses. Taking a method from an instance binds
    `this` in a new environment around the method's own. -/

namespace Eleu

/-- What a name denotes in an instance: a value, or a method that is yet to be bound to it. -/
inductive Member where
  | value (v : Value)
  | method (method : Closure) (this : InstanceRef)

namespace Store

/-- The class at `r`. -/
def classAt (s : Store) (r : ClassRef) : ClassObject := s.classes[r]?.getD { name := "" }

/-- The instance at `r`. -/
def instanceAt (s : Store) (r : InstanceRef) : Instance :=
  s.instances[r]?.getD { classRef := s.classes.size }

/-- Adds a class without methods. -/
def newClass (s : Store) (name : String) (parent : Option ClassRef) : ClassRef × Store :=
  (s.classes.size, { s with classes := s.classes.push { name := name, parent := parent } })

/-- Adds an instance without fields. -/
def newInstance (s : Store) (r : ClassRef) : InstanceRef × Store :=
  (s.instances.size, { s with instances := s.instances.push { classRef := r } })

/-- Adds or replaces a method of the class at `r`. -/
def setMethod (s : Store) (r : ClassRef) (name : String) (method : Closure) : Store :=
  { s with classes := s.classes.modify r fun c =>
      { c with methods := c.methods.insert name method } }

/-- The method `name` of the first of the `steps` classes along the chain from `r` that has one. -/
def methodWithin (s : Store) (name : String) : (steps : Nat) → ClassRef → Option Closure
  | 0, _ => none
  | steps + 1, r =>
    match (s.classAt r).methods.get? name with
    | some m => some m
    | none =>
      match (s.classAt r).parent with
      | some p => s.methodWithin name steps p
      | none => none

/-- The method `name` of a class, its own or an inherited one. No chain is longer than the number of
    classes. -/
def findMethod? (s : Store) (r : ClassRef) (name : String) : Option Closure :=
  s.methodWithin name s.classes.size r

/-- The number of arguments that a call must supply; natives check their own. -/
def arity? (s : Store) : Callable → Option Nat
  | .native _ => none
  | .closure c => some c.decl.params.length
  | .classRef r => some (((s.findMethod? r "init").map (·.decl.params.length)).getD 0)

/-- The name of a callable. -/
def callableName (s : Store) : Callable → String
  | .native f => f.name
  | .closure c => c.decl.name
  | .classRef r => (s.classAt r).name

/-- A call must supply as many arguments as the callable takes. -/
def checkArity (s : Store) (c : Callable) (found : Nat) : Except Cause Unit :=
  match s.arity? c with
  | some expected =>
    if expected = found then .ok ()
    else .error (.argumentCount (s.callableName c) expected expected found)
  | none => .ok ()

/-- The method bound to an instance: its environment gains a scope in which `this` is the instance. -/
def bind (s : Store) (method : Closure) (this : InstanceRef) : Closure × Store :=
  let (e, s) := s.newEnv (some method.env)
  ({ method with env := e }, s.define e "this" (.object this))

/-- What `name` denotes in an instance. Fields hide methods. -/
def findMember (s : Store) (r : InstanceRef) (name : String) : Except Cause Member :=
  match (s.instanceAt r).fields.get? name with
  | some v => .ok (.value v)
  | none =>
    match s.findMethod? (s.instanceAt r).classRef name with
    | some m => .ok (.method m r)
    | none => .error (.undefinedProperty name)

/-- The value of a member; a method comes bound to its instance. -/
def take (s : Store) : Member → Value × Store
  | .value v => (v, s)
  | .method m this =>
    let (bound, s) := s.bind m this
    (.callable (.closure bound), s)

/-- The value of a member of an instance. -/
def getMember (s : Store) (r : InstanceRef) (name : String) : Except Cause (Value × Store) :=
  (s.findMember r name).map s.take

/-- Gives a field of an instance a value. -/
def setField (s : Store) (r : InstanceRef) (name : String) (v : Value) : Store :=
  { s with instances := s.instances.modify r fun i =>
      { i with fields := i.fields.insert name v } }

/-- What `super.name` denotes, where `super` is bound `distance` scopes out and `this` one scope
    further in. -/
def findSuper (s : Store) (e : EnvRef) (distance : Nat) (name : String) : Except Cause Member := do
  let parent ← s.getAt e "super" distance
  let this ←
    match distance with
    | 0 => .error (.misresolved "this")
    | d + 1 => s.getAt e "this" d
  match parent, this with
  | .callable (.classRef c), .object i =>
    match s.findMethod? c name with
    | some m => .ok (.method m i)
    | none => .error (.undefinedProperty name)
  | _, _ => .error (.misresolved "super")

/-- The method `super.name`, bound to the instance. -/
def superMethod (s : Store) (e : EnvRef) (distance : Nat) (name : String) :
    Except Cause (Value × Store) :=
  (s.findSuper e distance name).map s.take

end Store

end Eleu
