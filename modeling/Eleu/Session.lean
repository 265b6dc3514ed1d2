import Eleu.Machine.Step
import Eleu.Walker.Eval

/-! # Sessions

    A session is one executor that serves the requests of a host one after the other. Globals,
    the table of distances, compiled functions and all counters carry over from one source text
    to the next. Every text is numbered, so that the declarations of two texts are never the same
    one, whatever their ids.

    `Session.serve` answers one request and `Session.serveAll` a list of them. -/

namespace Eleu

/-- One of the two ways to run a program. -/
inductive Executor where
  | walker (w : Walker)
  | machine (m : Machine)

namespace Executor

/-- The world that the executor acts on. -/
def world : Executor → World
  | .walker w => w.world
  | .machine m => m.world

/-- The executor in another world. -/
def inWorld (world : World) : Executor → Executor
  | .walker w => .walker { w with world := world }
  | .machine m => .machine { m with world := world }

/-- How many statements or instructions were executed so far. -/
def count : Executor → Nat
  | .walker w => w.count
  | .machine m => m.count

/-- Defines a native of the host among the globals. -/
def defineNative (name : String) (params : List String) : Executor → Executor
  | .walker w => .walker (w.defineNative name params)
  | .machine m => .machine (m.defineNative name params)

/-- Resolves and runs a program. -/
def run (o : Options) (fuel : Nat) (program : List Item) : Executor → Option Verdict × Executor
  | .walker w =>
    let (verdict, w) := w.run o fuel program
    (verdict, .walker w)
  | .machine m =>
    let (verdict, m) := m.run o fuel program
    (verdict, .machine m)

end Executor

/-- An executor and the number of source texts it was given. -/
structure Session where
  executor : Executor
  units : Nat := 0

/-- What a host can ask of a session. All but the first two need the stack machine. -/
inductive Request where
  | define (name : String) (params : List String)
  | run (file source : String)
  | start (file source : String)
  | step
  | stepWhile (proceed : Nat → Machine → Bool)
  | interpret

/-- The answer to a request. -/
inductive Reply where
  | defined
  | verdict (v : Verdict)
  | outOfFuel
  | unsupported
deriving DecidableEq

/-- The reply to a request that runs code. -/
def Reply.ofVerdict? : Option Verdict → Reply
  | some v => .verdict v
  | none => .outOfFuel

namespace Session

/-- A session of the tree walker. -/
def ofWalker : Session := { executor := .walker .fresh }

/-- A session of the stack machine. -/
def ofMachine : Session := { executor := .machine .fresh }

/-- Reads a source text and goes on with its items. A text that is not well formed is reported, and
    the executor is left alone. -/
def withText (o : Options) (file source : String)
    (act : List Item → Executor → Reply × Executor) (s : Session) : Reply × Session :=
  match s.executor.world.parse o s.units file source with
  | (none, world) =>
    (.verdict .compileError, { executor := s.executor.inWorld world, units := s.units + 1 })
  | (some items, world) =>
    let (reply, executor) := act items (s.executor.inWorld world)
    (reply, { executor, units := s.units + 1 })

/-- Asks something of the stack machine. -/
def onMachine (act : Machine → Option Verdict × Machine) : Executor → Reply × Executor
  | .walker w => (.unsupported, .walker w)
  | .machine m =>
    let (verdict, m) := act m
    (.ofVerdict? verdict, .machine m)

/-- Runs the items of a source text. -/
def runItems (o : Options) (fuel : Nat) (items : List Item) (x : Executor) : Reply × Executor :=
  let (verdict, x) := x.run o fuel items
  (.ofVerdict? verdict, x)

/-- Makes the stack machine ready for the items of a source text. -/
def startItems (items : List Item) : Executor → Reply × Executor :=
  onMachine fun m =>
    let (verdict, m) := m.start items
    (some verdict, m)

/-- Whether a request can be met. -/
def supports (r : Request) : Executor → Bool
  | .machine _ => true
  | .walker _ =>
    match r with
    | .define _ _ | .run _ _ => true
    | _ => false

/-- Answers a request that the executor supports. -/
def answer (o : Options) (fuel : Nat) (r : Request) (s : Session) : Reply × Session :=
  let asked (act : Machine → Option Verdict × Machine) : Reply × Session :=
    let (reply, executor) := onMachine act s.executor
    (reply, { s with executor })
  match r with
  | .define name params =>
    (.defined, { s with executor := s.executor.defineNative name params })
  | .run file source => s.withText o file source (runItems o fuel)
  | .start file source => s.withText o file source startItems
  | .step => asked fun m =>
    let (verdict, m) := m.step o
    (some verdict, m)
  | .stepWhile proceed => asked (·.stepWhile o proceed fuel 0)
  | .interpret => asked (·.interpret o fuel)

/-- Answers a request. One that cannot be met changes nothing. -/
def serve (o : Options) (fuel : Nat) (r : Request) (s : Session) : Reply × Session :=
  if supports r s.executor then s.answer o fuel r else (.unsupported, s)

/-- Answers requests one after the other. -/
def serveAll (o : Options) (fuel : Nat) : List Request → Session → List Reply × Session
  | [], s => ([], s)
  | r :: rs, s =>
    let (reply, s) := s.serve o fuel r
    let (replies, s) := s.serveAll o fuel rs
    (reply :: replies, s)

end Session

end Eleu
