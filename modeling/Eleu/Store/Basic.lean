import Eleu.Fault
import Eleu.Value

/-! # The store

    All that scripts can share and change: environments, lists, classes and instances, each in its
    own array and referred to by position. Nothing is ever removed, and a new environment or class
    refers only to what was there before it. Operations that may fail are computations on the
    store: what was done before a failure stays done. -/

namespace Eleu

/-- The variables of one scope, and the scope around it. -/
structure Env where
  bindings : Table String Value := {}
  parent : Option EnvRef := none

/-- A class with its own methods and its superclass. -/
structure ClassObject where
  name : String
  parent : Option ClassRef := none
  methods : Table String Closure := {}

/-- An instance with its fields. -/
structure Instance where
  classRef : ClassRef
  fields : Table String Value := {}

/-- The shared state of a running script. -/
structure Store where
  envs : Array Env := #[]
  lists : Array (Array Value) := #[]
  classes : Array ClassObject := #[]
  instances : Array Instance := #[]
  /-- The number of natives defined so far. -/
  nativeCount : Nat := 0

/-- Computations on the store, which may fail. The store survives a failure. -/
abbrev StoreM := EStateM Cause Store

namespace Store

/-! ## Environments -/

/-- The environment at `e`. -/
def env (s : Store) (e : EnvRef) : Env := s.envs[e]?.getD {}

/-- Adds an environment without variables. -/
def newEnv (s : Store) (parent : Option EnvRef) : EnvRef × Store :=
  (s.envs.size, { s with envs := s.envs.push { parent := parent } })

/-- Adds an environment inside `depth` others, the outermost of which has no parent. -/
def newEnvs (s : Store) : (depth : Nat) → EnvRef × Store
  | 0 => s.newEnv none
  | depth + 1 =>
    let (e, s) := s.newEnvs depth
    s.newEnv (some e)

/-- The variable `name` of the environment `e` itself. -/
def local? (s : Store) (e : EnvRef) (name : String) : Option Value := (s.env e).bindings.get? name

/-- Whether the environment `e` itself has the variable `name`. -/
def hasLocal (s : Store) (e : EnvRef) (name : String) : Bool := (s.env e).bindings.contains name

/-- Gives `name` a value in the environment `e`, whether or not it had one. -/
def define (s : Store) (e : EnvRef) (name : String) (v : Value) : Store :=
  { s with envs := s.envs.modify e fun env => { env with bindings := env.bindings.insert name v } }

/-- Declares a variable, which the environment must not have. -/
def declare (e : EnvRef) (name : String) (v : Value) : StoreM Unit := do
  if (← get).hasLocal e name then throw (.alreadyDeclared name)
  modify (·.define e name v)

/-- The environment `depth` scopes out from `e`. -/
def ancestor? (s : Store) (e : EnvRef) : (depth : Nat) → Option EnvRef
  | 0 => some e
  | depth + 1 =>
    match (s.env e).parent with
    | some p => s.ancestor? p depth
    | none => none

/-- The variable `name` of the environment `depth` scopes out. -/
def getAt (s : Store) (e : EnvRef) (name : String) (depth : Nat) : Except Cause Value :=
  match s.ancestor? e depth with
  | none => .error (.misresolved name)
  | some a =>
    match s.local? a name with
    | some v => .ok v
    | none => .error (.undefinedVariable name)

/-- Changes the variable `name` of the environment `depth` scopes out, which must have it. -/
def assignAt (e : EnvRef) (name : String) (v : Value) : (depth : Nat) → StoreM Unit
  | 0 => do
    if (← MonadState.get).hasLocal e name then modify (·.define e name v)
    else throw (.undefinedVariable name)
  | depth + 1 => do
    match ((← MonadState.get).env e).parent with
    | some p => assignAt p name v depth
    | none => throw (.misresolved name)

/-- The innermost environment from `e` outwards that has the variable `name`, among the first `steps`
    ones. -/
def binderWithin (s : Store) (name : String) : (steps : Nat) → EnvRef → Option EnvRef
  | 0, _ => none
  | steps + 1, e =>
    if s.hasLocal e name then some e
    else
      match (s.env e).parent with
      | some p => s.binderWithin name steps p
      | none => none

/-- The innermost environment from `e` outwards that has the variable `name`. No chain is longer than
    the number of environments. -/
def binder? (s : Store) (e : EnvRef) (name : String) : Option EnvRef :=
  s.binderWithin name s.envs.size e

/-- The value of `name` as seen from the environment `e`. -/
def get (s : Store) (e : EnvRef) (name : String) : Except Cause Value :=
  match (s.binder? e name).bind (s.local? · name) with
  | some v => .ok v
  | none => .error (.undefinedVariable name)

/-- Changes the variable `name` of the innermost environment from `e` outwards that has it, among the
    first `steps` ones. -/
def assignWithin (name : String) (v : Value) : (steps : Nat) → EnvRef → StoreM Unit
  | 0, _ => throw (.undefinedVariable name)
  | steps + 1, e => do
    if (← MonadState.get).hasLocal e name then modify (·.define e name v)
    else
      match ((← MonadState.get).env e).parent with
      | some p => assignWithin name v steps p
      | none => throw (.undefinedVariable name)

/-- Changes the variable that `name` denotes in the environment `e`. -/
def assign (e : EnvRef) (name : String) (v : Value) : StoreM Unit := do
  assignWithin name v (← MonadState.get).envs.size e

/-- Gives each name its value in the environment `e`, as far as both lists reach. -/
def defineAll (s : Store) (e : EnvRef) : List String → List Value → Store
  | name :: names, v :: vs => (s.define e name v).defineAll e names vs
  | _, _ => s

/-! ## Lists -/

/-- The elements of the list at `r`. -/
def list (s : Store) (r : ListRef) : Array Value := s.lists[r]?.getD #[]

/-- Adds a list. -/
def newList (s : Store) (elements : Array Value) : ListRef × Store :=
  (s.lists.size, { s with lists := s.lists.push elements })

/-- Adds an element at the end of the list at `r`. -/
def pushTo (s : Store) (r : ListRef) (v : Value) : Store :=
  { s with lists := s.lists.modify r (·.push v) }

/-! ## Natives -/

/-- A native function, told apart from all others by its serial number. -/
def newNative (s : Store) (name : String) (params : List String) (op : NativeOp) : Native × Store :=
  let serial := s.nativeCount + 1
  ({ name, params, op, serial }, { s with nativeCount := serial })

/-- Defines a native function in the environment `e` under its own name. -/
def defineNative (s : Store) (e : EnvRef) (name : String) (params : List String) (op : NativeOp) :
    Store :=
  let (native, s) := s.newNative name params op
  s.define e name (.callable (.native native))

end Store

end Eleu
