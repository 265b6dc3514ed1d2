import Eleu.Library.Argument
import Eleu.Number.Read
import Eleu.Operator
import Eleu.Text.Case

/-! # The native library

    The functions that every script finds among its globals. Most only look at their arguments and
    at what these refer to in the store; a few read or change the world. -/

namespace Eleu

namespace MathFunction

/-- The name of the function. -/
def name : MathFunction → String
  | .sqrt => "sqrt"
  | .abs => "abs"
  | .acos => "acos"
  | .asin => "asin"
  | .ceil => "ceil"
  | .cos => "cos"
  | .floor => "floor"
  | .log10 => "log10"
  | .sin => "sin"

/-- The function itself. -/
def apply : MathFunction → Float → Float
  | .sqrt => Float.sqrt
  | .abs => Float.abs
  | .acos => Float.acos
  | .asin => Float.asin
  | .ceil => Float.ceil
  | .cos => Float.cos
  | .floor => Float.floor
  | .log10 => Float.log10
  | .sin => Float.sin

end MathFunction

/-- The names, parameters and meanings of the natives, in the order in which they are defined. -/
def natives : List (String × List String × NativeOp) := [
  ("print", ["value"], .print),
  ("clock", [], .clock),
  ("random", [], .random),
  ("typeof", ["value"], .typeOf),
  ("toString", ["value"], .toString),
  ("sqrt", ["x"], .math .sqrt),
  ("abs", ["x"], .math .abs),
  ("acos", ["x"], .math .acos),
  ("asin", ["x"], .math .asin),
  ("ceil", ["x"], .math .ceil),
  ("cos", ["x"], .math .cos),
  ("floor", ["x"], .math .floor),
  ("log10", ["x"], .math .log10),
  ("sin", ["x"], .math .sin),
  ("pow", ["base", "exp"], .pow),
  ("toFixed", ["value", "digits"], .toFixed),
  ("parseInt", ["text"], .parseInt),
  ("parseFloat", ["text"], .parseFloat),
  ("parseNum", ["text"], .parseNum),
  ("len", ["value"], .length),
  ("charAt", ["text", "index"], .charAt),
  ("substr", ["text", "start", "length"], .substring),
  ("indexOf", ["text", "search", "from"], .indexOf),
  ("lastIndexOf", ["text", "search", "from"], .lastIndexOf),
  ("toLowerCase", ["text"], .toLowerCase),
  ("toUpperCase", ["text"], .toUpperCase),
  ("push", ["list", "value"], .push),
  ("at", ["list", "index"], .elementAt)]

/-- The ratio of a circle's circumference to its diameter. -/
def pi : Number := ⟨3.141592653589793, by decide⟩

namespace Store

/-- Defines the natives and the constants in the environment `e`. -/
def installLibrary (s : Store) (e : EnvRef) : Store :=
  (natives.foldl (fun s (name, params, op) => s.defineNative e name params op) s).define e "PI"
    (.number pi)

/-! ## Natives that only look at their arguments -/

/-- A function of one number. -/
def mathNative (s : Store) (f : MathFunction) (args : List Value) : Except Cause Value := do
  checkCount f.name args 1 1
  let x := (← s.numberArgument f.name args 0).val
  checkedNumber (f.apply x) fun _ => "'" ++ f.name ++ "(" ++ floatText x ++ ")'"

/-- A power of a number. -/
def powNative (s : Store) (args : List Value) : Except Cause Value := do
  checkCount "pow" args 2 2
  let base := (← s.numberArgument "pow" args 0).val
  let exponent := (← s.numberArgument "pow" args 1).val
  checkedNumber (Float.pow base exponent) fun _ =>
    "'pow(" ++ floatText base ++ ", " ++ floatText exponent ++ ")'"

/-- A number with a fixed number of places. -/
def toFixedNative (s : Store) (args : List Value) : Except Cause Value := do
  checkCount "toFixed" args 2 2
  let x := (← s.numberArgument "toFixed" args 0).val
  match ← s.intArgument "toFixed" args 1 with
  | .ofNat places =>
    if places ≤ 20 then .ok (.string (fixedText x places))
    else .error (invalidArgument "toFixed" "digits must be between 0 and 20")
  | .negSucc _ => .error (invalidArgument "toFixed" "digits must be between 0 and 20")

/-- The number that a string denotes, with blanks around it. -/
def readNumber (name text : String) : Except Cause Number :=
  match (readFloat? (Text.trim text.toList)).bind Number.ofFloat? with
  | some n => .ok n
  | none => .error (invalidArgument name ("'" ++ text ++ "' is not a number"))

/-- Reads a number. -/
def parseNative (s : Store) (name : String) (args : List Value) : Except Cause Value := do
  checkCount name args 1 1
  let n ← readNumber name (← s.stringArgument name args 0)
  .ok (.number n)

/-- Reads a whole number. -/
def parseIntNative (s : Store) (args : List Value) : Except Cause Value := do
  checkCount "parseInt" args 1 1
  let n ← readNumber "parseInt" (← s.stringArgument "parseInt" args 0)
  if n.toInt?.isNone then .error (invalidArgument "parseInt" "not an integer")
  else .ok (.number n)

/-- The length of a string or a list. -/
def lengthNative (s : Store) (args : List Value) : Except Cause Value := do
  checkCount "len" args 1 1
  match args.headD .nil with
  | .string t => .ok (.number (.ofNat t.length))
  | .list r => .ok (.number (.ofNat (s.list r).size))
  | v => .error (invalidArgument "len" ("expected string or list, found " ++ s.repr v))

/-- One character of a string. -/
def charAtNative (s : Store) (args : List Value) : Except Cause Value := do
  checkCount "charAt" args 2 2
  let cs := (← s.stringArgument "charAt" args 0).toList
  let i ← s.indexArgument "charAt" args 1 cs.length
  match cs[i]? with
  | some c => .ok (.string (String.ofList [c]))
  | none => .error (outOfRange "charAt" (toString i))

/-- A part of a string, to its end if no length is given. -/
def substringNative (s : Store) (args : List Value) : Except Cause Value := do
  checkCount "substr" args 2 3
  let cs := (← s.stringArgument "substr" args 0).toList
  let start ← s.indexArgument "substr" args 1 cs.length
  let length ←
    if 2 < args.length then s.indexArgument "substr" args 2 cs.length
    else .ok (cs.length - start)
  if cs.length < start + length then .error (invalidArgument "substr" "range exceeds the string")
  else .ok (.string (String.ofList ((cs.drop start).take length)))

/-- A position, or minus one where there is none. -/
def position : Option Nat → Value
  | some i => .number (.ofNat i)
  | none => .number .negOne

/-- The first position of a string in another. -/
def indexOfNative (s : Store) (args : List Value) : Except Cause Value := do
  checkCount "indexOf" args 2 3
  let cs := (← s.stringArgument "indexOf" args 0).toList
  let pattern := (← s.stringArgument "indexOf" args 1).toList
  let start ← if 2 < args.length then s.indexArgument "indexOf" args 2 cs.length else .ok 0
  .ok (position (Text.firstIndex? cs pattern start))

/-- The last position of a string in another. -/
def lastIndexOfNative (s : Store) (args : List Value) : Except Cause Value := do
  checkCount "lastIndexOf" args 2 3
  let cs := (← s.stringArgument "lastIndexOf" args 0).toList
  let pattern := (← s.stringArgument "lastIndexOf" args 1).toList
  let start ←
    if 2 < args.length then s.indexArgument "lastIndexOf" args 2 cs.length else .ok cs.length
  .ok (position (Text.lastIndex? cs pattern start))

/-- A string with all its letters in another case. -/
def caseNative (s : Store) (name : String) (f : List Char → List Char) (args : List Value) :
    Except Cause Value := do
  checkCount name args 1 1
  let t ← s.stringArgument name args 0
  .ok (.string (String.ofList (f t.toList)))

/-- One element of a list. -/
def elementAtNative (s : Store) (args : List Value) : Except Cause Value := do
  checkCount "at" args 2 2
  let r ← s.listArgument "at" args 0
  let i ← s.indexArgument "at" args 1 (s.list r).size
  match (s.list r)[i]? with
  | some v => .ok v
  | none => .error (outOfRange "at" (toString i))

end Store

/-! ## Calling a native -/

namespace NativeM

/-- Ends with a fault that has no place yet. -/
def fail {α : Type} (cause : Cause) : NativeM α := throw { cause }

/-- The value of a computation that only looks at the store. -/
def look (f : Store → Except Cause Value) : NativeM Value := do
  match f (← get).store with
  | .ok v => return v
  | .error cause => fail cause

/-- Checks the number of arguments. -/
def count (name : String) (args : List Value) (n : Nat) : NativeM Unit := do
  match checkCount name args n n with
  | .ok () => return ()
  | .error cause => fail cause

/-- Prints a value. -/
def print (args : List Value) : NativeM Value := do
  count "print" args 1
  modify fun w => w.print (w.store.text (args.headD .nil))
  return .nil

/-- The time. -/
def clock (o : Options) (args : List Value) : NativeM Value := do
  count "clock" args 0
  let w ← get
  set { w with clockReadings := w.clockReadings + 1 }
  return .number ((Number.ofFloat? (o.clock w.clockReadings)).getD .zero)

/-- A random number. -/
def random (o : Options) (args : List Value) : NativeM Value := do
  count "random" args 0
  let w ← get
  set { w with randomDraws := w.randomDraws + 1 }
  return .number ((Number.ofFloat? (o.random w.randomDraws)).getD .zero)

/-- Adds an element to a list. -/
def push (args : List Value) : NativeM Value := do
  count "push" args 2
  let w ← get
  match w.store.listArgument "push" args 0 with
  | .error cause => fail cause
  | .ok r =>
    set { w with store := w.store.pushTo r (args.getLastD .nil) }
    return .nil

/-- Makes a list. -/
def makeList (args : List Value) : NativeM Value := do
  let w ← get
  let (r, store) := w.store.newList args.toArray
  set { w with store := store }
  return .list r

/-- Calls a native function. -/
def call (o : Options) (f : Native) (args : List Value) : NativeM Value :=
  match f.op with
  | .print => print args
  | .clock => clock o args
  | .random => random o args
  | .typeOf => do
    count "typeof" args 1
    look fun s => .ok (.string (s.typeName (args.headD .nil)))
  | .toString => do
    count "toString" args 1
    look fun s => .ok (.string (s.text (args.headD .nil)))
  | .math m => look (·.mathNative m args)
  | .pow => look (·.powNative args)
  | .toFixed => look (·.toFixedNative args)
  | .parseInt => look (·.parseIntNative args)
  | .parseFloat => look (·.parseNative "parseFloat" args)
  | .parseNum => look (·.parseNative "parseNum" args)
  | .length => look (·.lengthNative args)
  | .charAt => look (·.charAtNative args)
  | .substring => look (·.substringNative args)
  | .indexOf => look (·.indexOfNative args)
  | .lastIndexOf => look (·.lastIndexOfNative args)
  | .toLowerCase => look (·.caseNative "toLowerCase" Text.toLower args)
  | .toUpperCase => look (·.caseNative "toUpperCase" Text.toUpper args)
  | .push => push args
  | .elementAt => look (·.elementAtNative args)
  | .makeList => makeList args
  | .host => o.host f.name args

end NativeM

end Eleu
