import Eleu.World

/-! # Arguments of natives

    Natives check their own arguments: first how many there are, then each in turn. The wording of
    an error names the native and what was found in place of the argument. -/

namespace Eleu

/-- A native was called with something it cannot use. -/
def invalidArgument (name detail : String) : Cause :=
  .invalidArgument ("in '" ++ name ++ "': " ++ detail)

/-- Between `low` and `high` arguments are expected. -/
def checkCount (name : String) (args : List Value) (low high : Nat) : Except Cause Unit :=
  if args.length < low ∨ high < args.length then
    .error (.argumentCount name low high args.length)
  else .ok ()

namespace Value

/-- The number that a value is. -/
def number? : Value → Option Number
  | .number n => some n
  | _ => none

/-- The string that a value is. -/
def string? : Value → Option String
  | .string t => some t
  | _ => none

/-- The list that a value is. -/
def list? : Value → Option ListRef
  | .list r => some r
  | _ => none

end Value

namespace Store

/-- The end of a message about an argument. -/
def foundText (s : Store) : Option Value → String
  | some v => ", found " ++ s.repr v
  | none => ""

/-- The error for the argument at `i`, which should be `what`. -/
def wrongArgument (s : Store) (name : String) (args : List Value) (i : Nat) (what : String) : Cause :=
  invalidArgument name
    ("argument " ++ toString (i + 1) ++ " must be " ++ what ++ s.foundText args[i]?)

/-- The argument at `i`, which must be `what`, that is, something that `read` accepts. -/
def argument {α : Type} (s : Store) (read : Value → Option α) (what name : String)
    (args : List Value) (i : Nat) : Except Cause α :=
  match args[i]?.bind read with
  | some a => .ok a
  | none => .error (s.wrongArgument name args i what)

/-- The argument at `i`, which must be a number. -/
def numberArgument (s : Store) : String → List Value → Nat → Except Cause Number :=
  s.argument Value.number? "a number"

/-- The argument at `i`, which must be an integer. -/
def intArgument (s : Store) : String → List Value → Nat → Except Cause Int :=
  s.argument (fun v => v.number?.bind Number.toInt?) "an integer"

/-- The error for an index out of range. -/
def outOfRange (name : String) (index : String) : Cause :=
  invalidArgument name ("index " ++ index ++ " is out of range")

/-- The argument at `i`, which must be an integer from zero to `limit`. -/
def indexArgument (s : Store) (name : String) (args : List Value) (i limit : Nat) :
    Except Cause Nat := do
  match ← s.intArgument name args i with
  | .ofNat k => if k ≤ limit then .ok k else .error (outOfRange name (toString k))
  | .negSucc k => .error (outOfRange name (toString (Int.negSucc k)))

/-- The argument at `i`, which must be a string. -/
def stringArgument (s : Store) : String → List Value → Nat → Except Cause String :=
  s.argument Value.string? "a string"

/-- The argument at `i`, which must be a list. -/
def listArgument (s : Store) : String → List Value → Nat → Except Cause ListRef :=
  s.argument Value.list? "a list"

end Store

end Eleu
