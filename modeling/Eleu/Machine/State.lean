import Eleu.Code.Emit
import Eleu.Library.Natives

/-! # The state of the stack machine

    The machine executes chunks one instruction at a time. It keeps a stack of values, a frame for
    the program and for every active call, the environments to return to, and a handler for every
    statement that awaits a fault. All stacks have their top at the front. -/

namespace Eleu

/-- The program or an active call. -/
structure Frame where
  chunk : Chunk
  /-- The offset of the next instruction. -/
  ip : Nat
  name : String
  /-- The place of the call; the program has none. -/
  span : Option Span
  /-- The height of the value stack below what the frame puts on it. -/
  base : Nat

/-- The line about a frame in the list of active calls. -/
def Frame.text (f : Frame) : String :=
  f.name ++ "() called at " ++ (f.span.map Span.text).getD ""

/-- A statement that awaits a fault, and the state to go back to when it comes. -/
structure Handler where
  message : Option String
  span : Option Span
  catchAt : Nat
  frames : Nat
  envs : Nat
  env : EnvRef
  stack : Nat

/-- The state of the stack machine. -/
structure Machine where
  world : World
  globals : EnvRef
  env : EnvRef
  /-- The environments of the callers. -/
  envs : List EnvRef := []
  stack : List Value := []
  frames : List Frame := []
  handlers : List Handler := []
  distances : Distances := {}
  /-- The chunks of the functions called so far, by the id of the declaration. -/
  chunks : Table Nat Chunk := {}
  /-- The number of instructions executed so far. -/
  count : Nat := 0
  /-- Whether a fault ended the program. -/
  failed : Bool := false

/-- A stack cut down to `height` elements. -/
def cutTo {α : Type} (height : Nat) (stack : List α) : List α :=
  stack.drop (stack.length - height)

/-- Computations of the machine. The state survives a fault. -/
abbrev Exec := EStateM Fault Machine

namespace Machine

/-- A machine that has executed nothing. -/
def fresh : Machine :=
  let (e, store) := ({} : Store).newEnv none
  { world := { store := store.installLibrary e }, globals := e, env := e }

/-- Defines a native of the host among the globals. -/
def defineNative (m : Machine) (name : String) (params : List String) : Machine :=
  { m with world :=
      { m.world with store := m.world.store.defineNative m.globals name params .host } }

/-- Makes `target` the offset of the next instruction. -/
def jump (m : Machine) (target : Nat) : Machine :=
  match m.frames with
  | [] => m
  | f :: fs => { m with frames := { f with ip := target } :: fs }

end Machine

namespace Exec

/-- Ends with a fault that has no place yet. -/
def fail {α : Type} (cause : Cause) : Exec α := throw { cause }

/-- The value of a computation that may fail. -/
def lift {α : Type} : Except Cause α → Exec α
  | .ok a => return a
  | .error cause => fail cause

/-- The store. -/
def store : Exec Store := return (← get).world.store

/-- Does something to the store that may fail. -/
def onStore {α : Type} (act : StoreM α) : Exec α := fun m =>
  match act m.world.store with
  | .ok a s => .ok a { m with world := { m.world with store := s } }
  | .error cause s => .error { cause } { m with world := { m.world with store := s } }

/-- Changes the store, and gives what the change yields. -/
def update {α : Type} (f : Store → α × Store) : Exec α := modifyGet fun m =>
  let (a, s) := f m.world.store
  (a, { m with world := { m.world with store := s } })

/-- Changes the store. -/
def modifyStore (f : Store → Store) : Exec Unit := update fun s => ((), f s)

/-- Gives a variable of the environment `e` a value. -/
def define (e : EnvRef) (name : String) (v : Value) : Exec Unit := modifyStore (·.define e name v)

/-- A new environment inside `parent`. -/
def newEnv (parent : EnvRef) : Exec EnvRef := update (·.newEnv (some parent))

/-- Pushes a value. -/
def push (v : Value) : Exec Unit := modify fun m => { m with stack := v :: m.stack }

/-- Pops a value for the instruction `op`. -/
def pop (op : Op) : Exec Value := do
  let m ← get
  match m.stack with
  | [] => fail (.emptyStack op.text)
  | v :: vs =>
    set { m with stack := vs }
    return v

/-- The value on top of the stack, for the instruction `op`. -/
def peek (op : Op) : Exec Value := do
  match (← get).stack with
  | [] => fail (.emptyStack op.text)
  | v :: _ => return v

/-- Pops `count` values for the instruction `op`; the result starts with the one pushed first. -/
def popMany (op : Op) (count : Nat) : Exec (List Value) := do
  let m ← get
  if m.stack.length < count then fail (.emptyStack op.text)
  set { m with stack := m.stack.drop count }
  return (m.stack.take count).reverse

/-- Goes on at `target`. -/
def jump (target : Nat) : Exec Unit := modify fun m => m.jump target

end Exec

end Eleu
