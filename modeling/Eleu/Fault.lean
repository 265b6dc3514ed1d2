import Eleu.Span

/-! # Faults

    What can go wrong once a text is well formed: the static errors that scope resolution finds,
    the errors of a running program, and failed assertions. Values that an error mentions are kept
    as they were written when it arose. -/

namespace Eleu

/-- When a fault is found. -/
inductive FaultKind where
  | resolve | runtime | assertion
deriving DecidableEq

/-- Why a program is refused or stops. -/
inductive Cause where
  -- scope resolution
  | ownInitialiser (name : String)
  | redeclared (name : String)
  | returnOutsideFunction
  | returnFromInitialiser
  | thisOutsideClass
  | superOutsideClass
  | superWithoutParent
  | selfInheritance (name : String)
  | loopControlOutsideLoop (keyword : String)
  -- operations on values
  | booleanExpected (found : String)
  | numberExpected (found : String)
  | addendsExpected (left right : String)
  | incomparable
  | notDefined (operation : String)
  | tooLarge (operation : String)
  | notCallable (found : String)
  /-- A call with `found` arguments of what takes from `low` to `high`. -/
  | argumentCount (name : String) (low high found : Nat)
  | tooManyCalls
  | notInstance (found : String)
  | undefinedProperty (name : String)
  | superclassNotClass (found : String)
  | superclassChanged (name : String)
  | repeatCount (found : String)
  | invalidArgument (detail : String)
  | cancelled
  -- assertions
  | assertionFailed (message : Option String)
  | errorExpected
  | otherError (message : String)
  -- variables
  | undefinedVariable (name : String)
  | misresolved (name : String)
  | alreadyDeclared (name : String)
  /-- An error of a native of the host, in its own words. -/
  | reported (kind : FaultKind) (text : String)
  -- machine states that no generated code reaches
  | emptyStack (instruction : String)
  | noFrame (instruction : String)
  | noParentScope (instruction : String)
deriving DecidableEq

namespace Cause

/-- When the cause is found. -/
def kind : Cause → FaultKind
  | .ownInitialiser _ | .redeclared _ | .returnOutsideFunction | .returnFromInitialiser
  | .thisOutsideClass | .superOutsideClass | .superWithoutParent | .selfInheritance _
  | .loopControlOutsideLoop _ => .resolve
  | .assertionFailed _ | .errorExpected | .otherError _ => .assertion
  | .reported kind _ => kind
  | _ => .runtime

/-- A name in quotes. -/
def quoted (name : String) : String := "'" ++ name ++ "'"

/-- How many arguments are expected. -/
def countText (low high : Nat) : String :=
  if low = high then toString low else toString low ++ " to " ++ toString high

/-- The wording of a cause. -/
def message : Cause → String
  | .ownInitialiser name =>
    "cannot read a local variable in its own initialiser (" ++ quoted name ++ ")"
  | .redeclared name =>
    "a variable with this name already exists in this scope (" ++ quoted name ++ ")"
  | .returnOutsideFunction => "cannot return from top-level code"
  | .returnFromInitialiser => "cannot return a value from an initialiser"
  | .thisOutsideClass => "cannot use 'this' outside of a class"
  | .superOutsideClass => "cannot use 'super' outside of a class"
  | .superWithoutParent => "cannot use 'super' in a class with no superclass"
  | .selfInheritance name => "a class cannot inherit from itself (" ++ quoted name ++ ")"
  | .loopControlOutsideLoop keyword => "only allowed inside a loop (" ++ quoted keyword ++ ")"
  | .booleanExpected found => "a boolean value is expected, found " ++ found
  | .numberExpected found => "expected numeric operand, found " ++ found
  | .addendsExpected left right =>
    "expected two numbers, or a string and a number or string, found " ++ left ++ " + " ++ right
  | .incomparable => "different data types cannot be compared"
  | .notDefined operation => "result is not defined for " ++ operation
  | .tooLarge operation => "result is too large for " ++ operation
  | .notCallable found => "can only call functions and classes, found " ++ found
  | .argumentCount name low high found =>
    "wrong number of arguments for " ++ quoted name ++ ": expected " ++ countText low high
      ++ ", found " ++ toString found
  | .tooManyCalls => "too many nested calls"
  | .notInstance found => "only instances have properties, found " ++ found
  | .undefinedProperty name => "undefined property " ++ quoted name
  | .superclassNotClass found => "superclass must be a class, found " ++ found
  | .superclassChanged name => "a reopened class must keep its superclass " ++ quoted name
  | .repeatCount found => "repeat expects a natural number, found " ++ found
  | .invalidArgument detail =>
    if detail.isEmpty then "invalid argument" else "invalid argument " ++ detail
  | .cancelled => "execution cancelled"
  | .assertionFailed none => "assertion failed"
  | .assertionFailed (some m) => "assertion failed (" ++ quoted m ++ ")"
  | .errorExpected => "a runtime error was expected"
  | .otherError m => "a different runtime error was expected, found " ++ quoted m
  | .undefinedVariable name => "undefined variable " ++ quoted name
  | .misresolved name => "misresolved variable " ++ quoted name
  | .alreadyDeclared name => "variable is already declared in this scope " ++ quoted name
  | .reported _ text => text
  | .emptyStack instruction => "stack is empty for operation " ++ instruction
  | .noFrame instruction => "no active call frame for operation " ++ instruction
  | .noParentScope instruction => "cannot leave the global scope in operation " ++ instruction

end Cause

/-- A cause and, once it is known, the place where it arose. -/
structure Fault where
  cause : Cause
  span : Option Span := none
deriving DecidableEq

namespace Fault

/-- Places the fault at `span`, if that is known, unless it has a place already: the innermost place
    wins. -/
def locate (f : Fault) (span : Option Span) : Fault := { f with span := f.span.or span }

/-- The wording without the place. -/
def message (f : Fault) : String := f.cause.message

/-- The line that reports the fault. -/
def text (f : Fault) : String :=
  match f.span with
  | some s => s.text ++ ": " ++ f.message
  | none => f.message

end Fault

end Eleu
