import Eleu.Session

/-! # The command line

    `eleu [--int | --vm] [--dump FILE] [--first-error] FILE` runs the script in `FILE`. The stack
    machine is used unless the tree walker is asked for. Reading the arguments is pure; `main`
    only reads the script, and writes what the run has left in its journals. -/

namespace Eleu

/-- What the arguments ask for. -/
structure Invocation where
  file : Option String := none
  useWalker : Bool := false
  useMachine : Bool := false
  dumpTo : Option String := none
  firstError : Bool := false

namespace Invocation

/-- How the program is to be called. -/
def usage : String := "Usage: eleu [--int | --vm] [--dump FILE] [--first-error] FILE"

/-- Takes the arguments one after the other. -/
def read (i : Invocation) : List String → Except String Invocation
  | [] => .ok i
  | "--int" :: rest => { i with useWalker := true }.read rest
  | "--vm" :: rest => { i with useMachine := true }.read rest
  | "--first-error" :: rest => { i with firstError := true }.read rest
  | "--dump" :: path :: rest => { i with dumpTo := some path }.read rest
  | arg :: rest =>
    if arg.startsWith "-" || i.file.isSome then .error ("error: unexpected argument '" ++ arg ++ "'")
    else { i with file := some arg }.read rest

/-- The settings of the run. -/
def options (i : Invocation) (now : Float) (seed : Nat) : Options :=
  { recovery := if i.firstError then .stop else .resume
    dump := i.dumpTo.isSome
    clock := fun _ => now
    random := fun n => defaultRandom (seed + n) }

/-- The session that runs the script. -/
def session (i : Invocation) : Session := if i.useWalker then .ofWalker else .ofMachine

/-- The file to run. The two executors exclude each other. -/
def check (i : Invocation) : Except String String :=
  if i.useWalker && i.useMachine then
    .error "error: the argument '--int' cannot be used with '--vm'"
  else
    match i.file with
    | some file => .ok file
    | none => .error "error: the script is missing"

end Invocation

/-- The name of a reply in the closing line. -/
def Reply.text : Reply → String
  | .verdict .ok => "Ok"
  | .verdict .compileError => "CompileError"
  | .verdict .runtimeError => "RuntimeError"
  | .verdict .nextStep => "NextStep"
  | .outOfFuel => "OutOfFuel"
  | .defined => "Defined"
  | .unsupported => "Unsupported"

/-- More steps than any run takes. -/
def ampleFuel : Nat := Nat.pow 2 62

/-- The text of a list of lines. -/
def linesOf (lines : Array String) : String := lines.foldl (fun t line => t ++ line ++ "\n") ""

/-- Runs a script and writes what it has left in its journals. -/
def runScript (i : Invocation) (file source : String) : IO UInt32 := do
  let start ← IO.monoMsNow
  let seed ← IO.rand 0 4294967295
  let o := i.options (Float.ofNat start / 1000.0) seed
  let (reply, s) := i.session.serve o ampleFuel (.run file source)
  let journal := s.executor.world.journal
  IO.print (linesOf journal.out)
  IO.eprint (linesOf journal.err)
  match i.dumpTo with
  | some path => IO.FS.writeFile path (linesOf journal.dump)
  | none => pure ()
  let stop ← IO.monoMsNow
  IO.eprintln ("Finished in " ++ toString (stop - start) ++ "ms: " ++ reply.text)
  return if reply = .verdict .ok then 0 else 1

/-- Creates the file for the dump, if one is wanted, before the script runs. -/
def Invocation.openDump (i : Invocation) : IO Unit :=
  match i.dumpTo with
  | some path => IO.FS.writeFile path ""
  | none => pure ()

/-- Reports what went wrong and gives the exit code. -/
def giveUp (message : String) (code : UInt32) : IO UInt32 := do
  IO.eprintln message
  return code

/-- Runs the script in `file`. -/
def runFile (i : Invocation) (file : String) : IO UInt32 := do
  match ← (IO.FS.readFile file).toBaseIO with
  | .error e => giveUp ("Failed to read " ++ file ++ ": " ++ toString e) 1
  | .ok source =>
    match ← i.openDump.toBaseIO with
    | .error e => giveUp ("Failed to create " ++ i.dumpTo.getD "" ++ ": " ++ toString e) 1
    | .ok () => runScript i file source

end Eleu

open Eleu in
/-- Runs the script that the arguments name. -/
def main (args : List String) : IO UInt32 := do
  match ({} : Invocation).read args >>= fun i => i.check.map fun file => (i, file) with
  | .error message => giveUp (message ++ "\n\n" ++ Invocation.usage) 2
  | .ok (i, file) => runFile i file
