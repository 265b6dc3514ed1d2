import Eleu.Store.Display

/-! # Operators

    What the operators of the language do with values. Conditions must be truth values, arithmetic
    needs numbers, and a result that is no finite number is an error that shows the operation. -/

namespace Eleu

/-- The value of an arithmetic result, which must be a finite number. `operation` is shown if it is
    not. -/
def checkedNumber (x : Float) (operation : Unit → String) : Except Cause Value :=
  if x.isNaN then .error (.notDefined (operation ()))
  else
    match Number.ofFloat? x with
    | some n => .ok (.number n)
    | none => .error (.tooLarge (operation ()))

/-- The value of a literal. -/
def Value.ofLiteral : Literal → Except Cause Value
  | .nil => .ok .nil
  | .bool b => .ok (.bool b)
  | .string s => .ok (.string s)
  | .number x =>
    match Number.ofFloat? x with
    | some n => .ok (.number n)
    | none => .error (.tooLarge (floatText x))

namespace Store

/-- The truth value of a condition. -/
def truth (s : Store) : Value → Except Cause Bool
  | .bool b => .ok b
  | v => .error (.booleanExpected (s.repr v))

/-- Prefix operators. -/
def unary (s : Store) : UnaryOp → Value → Except Cause Value
  | .not, v => do
    let b ← s.truth v
    .ok (.bool !b)
  | .negate, .number n => checkedNumber (-n.val) fun _ => "-" ++ n.text
  | .negate, v => .error (.numberExpected (s.repr v))

/-- Logical operators. Both operands are evaluated, and both must be truth values. -/
def logical (s : Store) (op : LogicalOp) (left right : Value) : Except Cause Value := do
  let l ← s.truth left
  let r ← s.truth right
  .ok (.bool (match op with
    | .and => l && r
    | .or => l || r))

/-- The order of two numbers or of two strings. -/
def compare : Value → Value → Except Cause Ordering
  | .number m, .number n =>
    if m.val < n.val then .ok .lt
    else if m.val == n.val then .ok .eq
    else .ok .gt
  | .string a, .string b => .ok (if a < b then .lt else if a = b then .eq else .gt)
  | _, _ => .error .incomparable

/-- Addition of numbers, and concatenation where a string takes part. -/
def add (s : Store) : Value → Value → Except Cause Value
  | .number m, .number n =>
    checkedNumber (m.val + n.val) fun _ => "'" ++ m.text ++ " + " ++ n.text ++ "'"
  | .string a, .string b => .ok (.string (a ++ b))
  | .string a, .number n => .ok (.string (a ++ n.text))
  | .number m, .string b => .ok (.string (m.text ++ b))
  | l, r => .error (.addendsExpected (s.repr l) (s.repr r))

/-- The operands of an arithmetic operator, which must be numbers. -/
def operands (s : Store) : Value → Value → Except Cause (Number × Number)
  | .number m, .number n => .ok (m, n)
  | .number _, r => .error (.numberExpected (s.repr r))
  | l, _ => .error (.numberExpected (s.repr l))

/-- An arithmetic operator whose text is `op`, on two numbers. -/
def arithmetic (s : Store) (op : String) (f : Float → Float → Float) (left right : Value) :
    Except Cause Value := do
  let (m, n) ← s.operands left right
  checkedNumber (f m.val n.val) fun _ => "'" ++ m.text ++ " " ++ op ++ " " ++ n.text ++ "'"

/-- Division and remainder. Division by zero is not defined, rather than infinite. -/
def division (s : Store) (op : String) (f : Float → Float → Float) (left right : Value) :
    Except Cause Value := do
  let (m, n) ← s.operands left right
  let operation := fun _ : Unit => "'" ++ m.text ++ " " ++ op ++ " " ++ n.text ++ "'"
  if n.val == 0.0 then .error (.notDefined (operation ()))
  else checkedNumber (f m.val n.val) operation

/-- Operators on two values. -/
def binary (s : Store) (op : BinaryOp) (left right : Value) : Except Cause Value :=
  match op with
  | .equal => .ok (.bool (left.same right))
  | .notEqual => .ok (.bool !(left.same right))
  | .greater => (compare left right).map fun o => .bool (o == .gt)
  | .greaterEqual => (compare left right).map fun o => .bool (o != .lt)
  | .less => (compare left right).map fun o => .bool (o == .lt)
  | .lessEqual => (compare left right).map fun o => .bool (o != .gt)
  | .plus => s.add left right
  | .minus => s.arithmetic "-" (· - ·) left right
  | .multiply => s.arithmetic "*" (· * ·) left right
  | .divide => s.division "/" (· / ·) left right
  | .modulo => s.division "%" remainder left right

/-- The number of rounds of a `repeat`. -/
def rounds (s : Store) (v : Value) : Except Cause Nat :=
  let count : Option Nat :=
    match v with
    | .number n => n.toCount?
    | _ => none
  match count with
  | some k => .ok k
  | none => .error (.repeatCount (s.repr v))

end Store

end Eleu
