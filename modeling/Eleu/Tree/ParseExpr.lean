import Eleu.Tree.Cursor
import Eleu.Number.Read

/-! # Parsing expressions

    The grammar of expressions, from the loosest to the tightest: assignment, which groups to the
    right; six levels of operators that group to the left; prefix operators; chains of calls and
    field accesses; and primary expressions. -/

namespace Eleu

/-- Levels of operators that group to the left, the loosest first. -/
inductive Level where
  | or | and | equality | comparison | term | factor
deriving DecidableEq

/-- An operator between two operands. -/
inductive Joiner where
  | binary (op : BinaryOp)
  | logical (op : LogicalOp)

/-- The expression that an operator makes of its operands. -/
def Joiner.join (left : Expr) (j : Joiner) (right : Expr) : Expr :=
  let span := left.span.union right.span
  match j with
  | .binary op => .binary left op right span
  | .logical op => .logical left op right span

namespace Level

/-- The next tighter level. -/
def tighter? : Level → Option Level
  | .or => some .and
  | .and => some .equality
  | .equality => some .comparison
  | .comparison => some .term
  | .term => some .factor
  | .factor => none

/-- The operator of this level that a token stands for. -/
def joiner? (l : Level) (k : TokenKind) : Option Joiner :=
  match l, k with
  | .or, .keyword .or => some (.logical .or)
  | .and, .keyword .and => some (.logical .and)
  | .equality, .symbol .equalEqual => some (.binary .equal)
  | .equality, .symbol .bangEqual => some (.binary .notEqual)
  | .comparison, .symbol .greater => some (.binary .greater)
  | .comparison, .symbol .greaterEqual => some (.binary .greaterEqual)
  | .comparison, .symbol .less => some (.binary .less)
  | .comparison, .symbol .lessEqual => some (.binary .lessEqual)
  | .term, .symbol .plus => some (.binary .plus)
  | .term, .symbol .minus => some (.binary .minus)
  | .factor, .symbol .slash => some (.binary .divide)
  | .factor, .symbol .star => some (.binary .multiply)
  | .factor, .symbol .percent => some (.binary .modulo)
  | _, _ => none

end Level

/-- The most arguments a call may have, and the most parameters a function may have. -/
def maxArguments : Nat := 255

namespace Parser

/-- The expression that assigns `value` to `target`, if that may be assigned to. -/
def assignTo (target value : Expr) : Parser Expr :=
  let span := target.span.union value.span
  match target with
  | .name ident _ => return .assign ident value span
  | .getField object field _ => return .setField object field value span
  | _ => reject target.span .invalidTarget

/-- The literal of a number token. -/
def numberLiteral (t : Token) : Parser Literal :=
  match readFloat? t.lexeme.toList with
  | some x => if x.isFinite then return .number x else reject t.span .numberOutOfRange
  | none => reject t.span .numberOutOfRange

/-- The expression of a literal, whose token is taken. -/
def literalAt (t : Token) (value : Literal) : Parser Expr := do
  let _ ← advance
  return .literal value t.span

/-- The rest of `super.method`, after the keyword. -/
def superRest (start : Span) : Parser Expr := do
  let _ ← expect (.symbol .dot) .dotExpected
  let method ← expect .name .nameExpected
  let ident ← freshIdent "super"
  return .super ident method.lexeme (← spanFrom start)

mutual

/-- An expression of any kind. -/
def expression : (rounds : Nat) → Parser Expr
  | 0 => throw .outOfRounds
  | n + 1 => do
    let target ← operators n .or
    if ← accept (.symbol .equal) then assignTo target (← expression n)
    else return target

/-- Operands joined by operators of level `l`. -/
def operators : (rounds : Nat) → Level → Parser Expr
  | 0, _ => throw .outOfRounds
  | n + 1, l => do
    let left ← operand n l
    moreOperands n l left

/-- Further operands of level `l` after `left`. -/
def moreOperands : (rounds : Nat) → Level → Expr → Parser Expr
  | 0, _, _ => throw .outOfRounds
  | n + 1, l, left => do
    match l.joiner? (← peek).kind with
    | none => return left
    | some joiner =>
      let _ ← advance
      let right ← operand n l
      moreOperands n l (joiner.join left right)

/-- One operand of level `l`. -/
def operand : (rounds : Nat) → Level → Parser Expr
  | 0, _ => throw .outOfRounds
  | n + 1, l =>
    match l.tighter? with
    | some tighter => operators n tighter
    | none => unary n

/-- An expression with its prefix operators. -/
def unary : (rounds : Nat) → Parser Expr
  | 0 => throw .outOfRounds
  | n + 1 => do
    match UnaryOp.ofKind? (← peek).kind with
    | some op =>
      let start := (← advance).span
      let inner ← unary n
      return .unary op inner (start.union inner.span)
    | none =>
      let e ← primary n
      chain n e

/-- Calls and field accesses after `e`. -/
def chain : (rounds : Nat) → Expr → Parser Expr
  | 0, _ => throw .outOfRounds
  | n + 1, e => do
    match (← peek).kind with
    | .symbol .leftParen =>
      let _ ← advance
      let args ← if ← check (.symbol .rightParen) then pure [] else arguments n 0
      let _ ← expect (.symbol .rightParen) .closingParenExpected
      chain n (.call e args (← spanFrom e.span))
    | .symbol .dot =>
      let _ ← advance
      let field ← expect .name .nameExpected
      chain n (.getField e field.lexeme (← spanFrom e.span))
    | _ => return e

/-- The arguments of a call after the first `count`. -/
def arguments : (rounds count : Nat) → Parser (List Expr)
  | 0, _ => throw .outOfRounds
  | n + 1, count => do
    if maxArguments ≤ count then reject (← peek).span .tooManyArguments
    let e ← expression n
    if ← accept (.symbol .comma) then return e :: (← arguments n (count + 1))
    else return [e]

/-- The elements of a list. -/
def elements : (rounds : Nat) → Parser (List Expr)
  | 0 => throw .outOfRounds
  | n + 1 => do
    let e ← expression n
    if ← accept (.symbol .comma) then return e :: (← elements n)
    else return [e]

/-- A literal, a name, or an expression in brackets. -/
def primary : (rounds : Nat) → Parser Expr
  | 0 => throw .outOfRounds
  | n + 1 => do
    let t ← peek
    match t.kind with
    | .keyword .true => literalAt t (.bool true)
    | .keyword .false => literalAt t (.bool false)
    | .keyword .nil => literalAt t .nil
    | .string => literalAt t (.string t.lexeme)
    | .number => literalAt t (← numberLiteral t)
    | .name =>
      let ident ← freshIdent t.lexeme
      let _ ← advance
      return .name ident t.span
    | .keyword .this =>
      let ident ← freshIdent "this"
      let _ ← advance
      return .this ident t.span
    | .keyword .super => superRest (← advance).span
    | .symbol .leftParen =>
      let start := (← advance).span
      let inner ← expression n
      let _ ← expect (.symbol .rightParen) .closingParenExpected
      return .group inner (← spanFrom start)
    | .symbol .leftBracket =>
      let start := (← advance).span
      let items ← if ← check (.symbol .rightBracket) then pure [] else elements n
      let _ ← expect (.symbol .rightBracket) .closingBracketExpected
      return .list items (← spanFrom start)
    | .keyword .else => reject t.span .elseWithoutIf
    | _ => reject t.span .expressionExpected

end

end Parser

end Eleu
