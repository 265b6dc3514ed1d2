import Eleu.Store.Declare
import Eleu.Tree.ParseItem

/-! # The world around a script

    What a run writes, and what it asks of the program that hosts it. A run has four journals:
    output, errors, the dump of executed instructions, and the state changes that natives report.
    The host may stop a run, and the clock and random numbers are supplied by it: each is given
    as a function of how often it was asked before, so that a run is determined by its inputs. -/

namespace Eleu

/-- The lines written so far. -/
structure Journal where
  out : Array String := #[]
  err : Array String := #[]
  dump : Array String := #[]
  changes : Array String := #[]

/-- The store, the journals, and how often the host was asked. -/
structure World where
  store : Store := {}
  journal : Journal := {}
  polls : Nat := 0
  clockReadings : Nat := 0
  randomDraws : Nat := 0

/-- Computations of natives, which may change the world and end with a fault. The natives of the host
    may give a fault any kind, wording and place. -/
abbrev NativeM := EStateM Fault World

/-- A fixed sequence of numbers from zero up to but not including one. -/
def defaultRandom (n : Nat) : Float :=
  Float.ofNat ((n * 6364136223846793005 + 1442695040888963407) % Nat.pow 2 32) / 4294967296.0

/-- Settings of a run. -/
structure Options where
  recovery : Recovery := .resume
  /-- The most calls that may be active at once. -/
  maxCallDepth : Nat := 200
  /-- Whether the active calls are listed below a runtime error. -/
  dumpStack : Bool := true
  /-- Whether executed instructions are dumped. -/
  dump : Bool := false
  /-- Whether the host listens to state changes. -/
  listen : Bool := false
  /-- Whether to stop, asked for the `n`-th time. -/
  cancel : Option (Nat → Bool) := none
  /-- The time in seconds, asked for the `n`-th time. -/
  clock : Nat → Float := fun n => 1700000000.0 + Float.ofNat n
  /-- A random number from zero up to but not including one, asked for the `n`-th time. -/
  random : Nat → Float := defaultRandom
  /-- What the natives of the host do. -/
  host : (name : String) → List Value → NativeM Value := fun _ _ => pure .nil

/-- How a run, or one step of it, ended. -/
inductive Verdict where
  | ok | compileError | runtimeError
  /-- There are further instructions to execute. -/
  | nextStep
deriving DecidableEq

namespace World

/-- Writes a line of output. -/
def print (w : World) (line : String) : World :=
  { w with journal := { w.journal with out := w.journal.out.push line } }

/-- Writes a line to the error journal. -/
def complain (w : World) (line : String) : World :=
  { w with journal := { w.journal with err := w.journal.err.push line } }

/-- Writes a line to the dump, if one is wanted. -/
def writeDump (w : World) (o : Options) (line : String) : World :=
  if o.dump then { w with journal := { w.journal with dump := w.journal.dump.push line } } else w

/-- Reports a state change, if the host listens. -/
def notify (w : World) (o : Options) (what : String) : World :=
  if o.listen then { w with journal := { w.journal with changes := w.journal.changes.push what } }
  else w

/-- Asks the host whether to stop. -/
def poll (w : World) (o : Options) : Bool × World :=
  match o.cancel with
  | none => (false, w)
  | some stop => (stop w.polls, { w with polls := w.polls + 1 })

/-- Writes several lines to the error journal. -/
def complainAll (w : World) : List String → World
  | [] => w
  | line :: lines => (w.complain line).complainAll lines

/-- Reports the fault that ended a run, with the calls that were active, the innermost first. -/
def reportFault (w : World) (o : Options) (f : Fault) (calls : List String) : World :=
  let w := w.complain f.text
  if o.dumpStack && !calls.isEmpty then
    (w.complain "Call stack:").complainAll (calls.map ("    at " ++ ·))
  else w

/-- The items of a source text. Syntax errors are reported, and there are no items then. -/
def parse (w : World) (o : Options) (unit : Nat) (file source : String) :
    Option (List Item) × World :=
  match parseText o.recovery unit file source with
  | .ok items => (some items, w)
  | .error errors => (none, w.complainAll (errors.map Diagnostic.text))

end World

end Eleu
