import Eleu.Library.Natives
import Eleu.Scope

/-! # The state of the tree walker

    The walker runs a program directly over its tree. It keeps the current environment, the
    distances of local references, and the active calls; while a fault is on its way out, it also
    keeps the calls that were active where the fault arose. -/

namespace Eleu

/-- An active call: the name of the function and the place of the call. -/
structure CallSite where
  name : String
  span : Span

/-- The line about a call in the list of active calls. -/
def CallSite.text (c : CallSite) : String := c.name ++ "() called at " ++ c.span.text

/-- The state of the tree walker. -/
structure Walker where
  world : World
  globals : EnvRef
  env : EnvRef
  distances : Distances := {}
  /-- The active calls, the innermost first. -/
  calls : List CallSite := []
  /-- The calls that were active where the pending fault arose. -/
  trace : Option (List CallSite) := none
  /-- The number of statements executed so far. -/
  count : Nat := 0

/-- Why an evaluation gives no value. -/
inductive Interrupt where
  | fault (f : Fault)
  | outOfFuel

/-- How a statement ended. -/
inductive Flow where
  | next
  | return (v : Value)
  | break
  | continue

/-- Whether a body that ends in this way has come to its end or returned. -/
def Flow.completes : Flow → Bool
  | .next | .return _ => true
  | .break | .continue => false

/-- Computations of the walker. The state survives an interrupt. -/
abbrev Walk := EStateM Interrupt Walker

namespace Walker

/-- A walker that has executed nothing. -/
def fresh : Walker :=
  let (e, store) := ({} : Store).newEnv none
  { world := { store := store.installLibrary e }, globals := e, env := e }

/-- Defines a native of the host among the globals. -/
def defineNative (w : Walker) (name : String) (params : List String) : Walker :=
  { w with world :=
      { w.world with store := w.world.store.defineNative w.globals name params .host } }

end Walker

namespace Walk

/-- Ends with a fault that has no place yet. -/
def fail {α : Type} (cause : Cause) : Walk α := throw (.fault { cause })

/-- The value of a computation that may fail. -/
def lift {α : Type} : Except Cause α → Walk α
  | .ok a => return a
  | .error cause => fail cause

/-- The store. -/
def store : Walk Store := return (← get).world.store

/-- Does something to the store that may fail. -/
def onStore {α : Type} (act : StoreM α) : Walk α := fun w =>
  match act w.world.store with
  | .ok a s => .ok a { w with world := { w.world with store := s } }
  | .error cause s => .error (.fault { cause }) { w with world := { w.world with store := s } }

/-- Changes the store, and gives what the change yields. -/
def update {α : Type} (f : Store → α × Store) : Walk α := modifyGet fun w =>
  let (a, s) := f w.world.store
  (a, { w with world := { w.world with store := s } })

/-- Changes the store. -/
def modifyStore (f : Store → Store) : Walk Unit := update fun s => ((), f s)

/-- Gives a variable of the environment `e` a value. -/
def define (e : EnvRef) (name : String) (v : Value) : Walk Unit := modifyStore (·.define e name v)

/-- Gives a fault that comes out of `act` the place `span`, unless it has one. -/
def located {α : Type} (span : Span) (act : Walk α) : Walk α := fun w =>
  match act w with
  | .error (.fault f) w => .error (.fault (f.locate span)) w
  | r => r

/-- Runs `act` in the environment `e`; afterwards the current environment is the one from before,
    however `act` ends. -/
def inEnv {α : Type} (e : EnvRef) (act : Walk α) : Walk α := fun w =>
  match act { w with env := e } with
  | .ok a v => .ok a { v with env := w.env }
  | .error i v => .error i { v with env := w.env }

/-- Runs `act` as the body of a call, which is pushed before and popped afterwards. A fault that
    comes out of it and has left no trace yet leaves the active calls as its trace. -/
def inCall {α : Type} (call : CallSite) (act : Walk α) : Walk α := fun w =>
  match act { w with calls := call :: w.calls } with
  | .ok a v => .ok a { v with calls := v.calls.tail }
  | .error (.fault f) v =>
    .error (.fault f) { v with calls := v.calls.tail, trace := v.trace.or (some v.calls) }
  | .error .outOfFuel v => .error .outOfFuel { v with calls := v.calls.tail }

/-- Runs `act`; a fault that comes out of it is caught, and its trace is forgotten. -/
def attempt {α : Type} (act : Walk α) : Walk (Except Fault α) := fun w =>
  match act w with
  | .ok a w => .ok (.ok a) w
  | .error (.fault f) w => .ok (.error f) { w with trace := none }
  | .error .outOfFuel w => .error .outOfFuel w

/-- The value of a variable: of a local one by its distance, else of the global one. -/
def lookup (ident : Ident) : Walk Value := do
  let w ← get
  match w.distances.get? ident.id with
  | some d => lift (w.world.store.getAt w.env ident.name d)
  | none => lift (w.world.store.get w.globals ident.name)

/-- Changes a variable. -/
def assign (ident : Ident) (v : Value) : Walk Unit := do
  let w ← get
  match w.distances.get? ident.id with
  | some d => onStore (Store.assignAt w.env ident.name v d)
  | none => onStore (Store.assign w.globals ident.name v)

/-- The method `super.name`. -/
def superMethod (ident : Ident) (name : String) : Walk Value := do
  let w ← get
  match w.distances.get? ident.id with
  | none => fail (.misresolved "super")
  | some d =>
    let method ← lift (w.world.store.findSuper w.env d name)
    update (·.take method)

/-- A member of a value, which must be an instance. -/
def member (v : Value) (name : String) : Walk Value := do
  match v with
  | .object r =>
    let found ← lift ((← store).findMember r name)
    update (·.take found)
  | _ => fail (.notInstance ((← store).repr v))

/-- The instance that a value is. -/
def asInstance (v : Value) : Walk InstanceRef := do
  match v with
  | .object r => return r
  | _ => fail (.notInstance ((← store).repr v))

/-- Calls a native. -/
def native (o : Options) (f : Native) (args : List Value) : Walk Value := fun w =>
  match NativeM.call o f args w.world with
  | .ok v world => .ok v { w with world := world }
  | .error f world => .error (.fault f) { w with world := world }

/-- A new environment inside `parent`. -/
def newEnv (parent : EnvRef) : Walk EnvRef := update (·.newEnv (some parent))

/-- The environment of a call, in which the parameters have their values. -/
def callEnv (c : Closure) (args : List Value) : Walk EnvRef := do
  let e ← newEnv c.env
  modifyStore (·.defineAll e c.decl.params args)
  return e

/-- The truth value of a condition that stands at `span`. -/
def condition (v : Value) (span : Span) : Walk Bool := do
  located span (lift ((← store).truth v))

/-- Asks the host whether to stop; if so, the item at `span` is where the run ends. -/
def poll (o : Options) (span : Span) : Walk Unit := do
  let w ← get
  let (stop, world) := w.world.poll o
  set { w with world := world }
  if stop then throw (.fault { cause := .cancelled, span := some span })

/-- Counts a statement. -/
def tally : Walk Unit := modify fun w => { w with count := w.count + 1 }

end Walk

end Eleu
