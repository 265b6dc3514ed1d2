import Eleu.Proofs.Outcome
import Eleu.Tree.ParseExpr
import Mathlib.Data.List.Forall2

/-! # The grammar of expressions

    A tree is canonical when every operand binds at least as tightly as its position asks for, so
    that it can be written down without further brackets. Its glyphs are what the tokens of that
    text show, in order: the kind where the kind decides the text, and otherwise the name, the
    string or the number that the tree holds. One number can be written in many ways, which is why
    the text of a tree is a relation (`Expr.Renders`).

    A parser of lists, and what the parsers of single tokens come to, are written down here as well. -/

namespace Eleu

/-! ## Operators and their levels -/

/-- How tightly the operators of a level bind. Assignments bind by 0, prefix operators by 7, calls and
    field accesses by 8, and what stands on its own by 9. -/
def Level.tightness : Level → Nat
  | .or => 1
  | .and => 2
  | .equality => 3
  | .comparison => 4
  | .term => 5
  | .factor => 6

/-- The level of an operator on two values. -/
def BinaryOp.level : BinaryOp → Level
  | .equal | .notEqual => .equality
  | .greater | .greaterEqual | .less | .lessEqual => .comparison
  | .plus | .minus => .term
  | .divide | .multiply | .modulo => .factor

/-- The level of an operator on two truth values. -/
def LogicalOp.level : LogicalOp → Level
  | .or => .or
  | .and => .and

/-- The kind of token that stands for a prefix operator. -/
def UnaryOp.kind : UnaryOp → TokenKind
  | .not => .symbol .bang
  | .negate => .symbol .minus

/-- The kind of token that stands for an operator on two values. -/
def BinaryOp.kind : BinaryOp → TokenKind
  | .divide => .symbol .slash
  | .multiply => .symbol .star
  | .modulo => .symbol .percent
  | .plus => .symbol .plus
  | .minus => .symbol .minus
  | .greater => .symbol .greater
  | .greaterEqual => .symbol .greaterEqual
  | .less => .symbol .less
  | .lessEqual => .symbol .lessEqual
  | .notEqual => .symbol .bangEqual
  | .equal => .symbol .equalEqual

/-- The kind of token that stands for an operator on two truth values. -/
def LogicalOp.kind : LogicalOp → TokenKind
  | .and => .keyword .and
  | .or => .keyword .or

namespace Joiner

def level : Joiner → Level
  | .binary op => op.level
  | .logical op => op.level

def kind : Joiner → TokenKind
  | .binary op => op.kind
  | .logical op => op.kind

theorem joiner?_kind (j : Joiner) : j.level.joiner? j.kind = some j := by
  cases j with
  | binary op => cases op <;> rfl
  | logical op => cases op <;> rfl

theorem closes_kind (j : Joiner) : j.kind.closes = false := by
  cases j with
  | binary op => cases op <;> rfl
  | logical op => cases op <;> rfl

/-- A kind of token stands for at most one operator. -/
theorem eq_of_kind {i j : Joiner} (h : i.kind = j.kind) : i = j := by
  cases i with
  | binary op =>
    cases j with
    | binary op' => cases op <;> cases op' <;> first | rfl | exact nomatch h
    | logical op' => cases op <;> cases op' <;> exact nomatch h
  | logical op =>
    cases j with
    | binary op' => cases op <;> cases op' <;> exact nomatch h
    | logical op' => cases op <;> cases op' <;> first | rfl | exact nomatch h

end Joiner

namespace Level

theorem eq_of_joiner? {l : Level} {k : TokenKind} {j : Joiner} (h : l.joiner? k = some j) :
    k = j.kind ∧ l = j.level := by
  unfold joiner? at h
  split at h <;> cases h <;> exact ⟨rfl, rfl⟩

theorem tightness_tighter {l k : Level} (h : l.tighter? = some k) : k.tightness = l.tightness + 1 := by
  cases l <;> cases h <;> rfl

theorem tightness_factor {l : Level} (h : l.tighter? = none) : l.tightness = 6 := by
  cases l <;> cases h
  rfl

end Level

theorem UnaryOp.eq_of_ofKind? {k : TokenKind} {op : UnaryOp} (h : UnaryOp.ofKind? k = some op) :
    k = op.kind := by
  unfold UnaryOp.ofKind? at h
  split at h <;> cases h <;> rfl

/-! ## Canonical trees -/

/-- What a token shows. -/
inductive Glyph where
  /-- A kind that decides the text. -/
  | fixed (kind : TokenKind)
  /-- A kind with a text of its own. -/
  | text (kind : TokenKind) (lexeme : String)
  /-- A number, however it is written. -/
  | number (x : Float)

/-- The token shows the glyph. -/
def Token.Shows (t : Token) : Glyph → Prop
  | .fixed kind => t.kind = kind
  | .text kind lexeme => t.kind = kind ∧ t.lexeme = lexeme
  | .number x => t.kind = .number ∧ readFloat? t.lexeme.toList = some x

/-- The kind of the tokens that show the glyph. -/
def Glyph.kind : Glyph → TokenKind
  | .fixed kind | .text kind _ => kind
  | .number _ => .number

theorem Token.Shows.kind_eq {t : Token} {g : Glyph} (h : t.Shows g) : t.kind = g.kind := by
  cases g with
  | fixed kind => exact h
  | text kind lexeme => exact h.1
  | number x => exact h.1

/-- What the token of a literal shows. -/
def Literal.glyph : Literal → Glyph
  | .number x => .number x
  | .string s => .text .string s
  | .bool true => .fixed (.keyword .true)
  | .bool false => .fixed (.keyword .false)
  | .nil => .fixed (.keyword .nil)

/-- The number of a literal is finite. -/
def Literal.Representable : Literal → Prop
  | .number x => x.isFinite = true
  | _ => True

namespace Expr

mutual

/-- What the tokens of an expression show. -/
def glyphs : Expr → List Glyph
  | .literal value _ => [value.glyph]
  | .list elements _ =>
    .fixed (.symbol .leftBracket) :: (separated elements ++ [.fixed (.symbol .rightBracket)])
  | .name ident _ => [.text .name ident.name]
  | .assign target value _ => .text .name target.name :: .fixed (.symbol .equal) :: value.glyphs
  | .unary op operand _ => .fixed op.kind :: operand.glyphs
  | .binary left op right _ => left.glyphs ++ .fixed op.kind :: right.glyphs
  | .logical left op right _ => left.glyphs ++ .fixed op.kind :: right.glyphs
  | .group inner _ => .fixed (.symbol .leftParen) :: (inner.glyphs ++ [.fixed (.symbol .rightParen)])
  | .call callee args _ =>
    callee.glyphs
      ++ .fixed (.symbol .leftParen) :: (separated args ++ [.fixed (.symbol .rightParen)])
  | .getField object field _ => object.glyphs ++ [.fixed (.symbol .dot), .text .name field]
  | .setField object field value _ =>
    (object.glyphs ++ [.fixed (.symbol .dot), .text .name field])
      ++ .fixed (.symbol .equal) :: value.glyphs
  | .this _ _ => [.fixed (.keyword .this)]
  | .super _ method _ => [.fixed (.keyword .super), .fixed (.symbol .dot), .text .name method]

/-- What the tokens of expressions show that commas separate. -/
def separated : List Expr → List Glyph
  | [] => []
  | e :: es => e.glyphs ++ continued es

/-- What the tokens of further expressions show, each after its comma. -/
def continued : List Expr → List Glyph
  | [] => []
  | e :: es => .fixed (.symbol .comma) :: (e.glyphs ++ continued es)

end

/-- How tightly an expression binds. -/
def tightness : Expr → Nat
  | .assign _ _ _ | .setField _ _ _ _ => 0
  | .binary _ op _ _ => op.level.tightness
  | .logical _ op _ _ => op.level.tightness
  | .unary _ _ _ => 7
  | .call _ _ _ | .getField _ _ _ => 8
  | .literal _ _ | .list _ _ | .name _ _ | .group _ _ | .this _ _ | .super _ _ _ => 9

mutual

/-- Every operand binds at least as tightly as its position asks for. -/
def Canonical : Expr → Prop
  | .literal value _ => value.Representable
  | .list elements _ => AllCanonical elements
  | .name _ _ => True
  | .assign _ value _ => value.Canonical
  | .unary _ operand _ => operand.Canonical ∧ 7 ≤ operand.tightness
  | .binary left op right _ =>
    (left.Canonical ∧ op.level.tightness ≤ left.tightness)
      ∧ right.Canonical ∧ op.level.tightness < right.tightness
  | .logical left op right _ =>
    (left.Canonical ∧ op.level.tightness ≤ left.tightness)
      ∧ right.Canonical ∧ op.level.tightness < right.tightness
  | .group inner _ => inner.Canonical
  | .call callee args _ =>
    (callee.Canonical ∧ 8 ≤ callee.tightness) ∧ AllCanonical args ∧ args.length ≤ maxArguments
  | .getField object _ _ => object.Canonical ∧ 8 ≤ object.tightness
  | .setField object _ value _ => (object.Canonical ∧ 8 ≤ object.tightness) ∧ value.Canonical
  | .this ident _ => ident.name = "this"
  | .super ident _ _ => ident.name = "super"

/-- All expressions are canonical. -/
def AllCanonical : List Expr → Prop
  | [] => True
  | e :: es => e.Canonical ∧ AllCanonical es

end

/-- The tokens are those of the expression. -/
def Renders (e : Expr) (ts : List Token) : Prop := List.Forall₂ Token.Shows ts e.glyphs

end Expr

/-! ## Taking tokens -/

/-- There is a closing token ahead, so that the cursor stands on a token. -/
def Cursor.Closed (c : Cursor) : Prop := ∃ t ∈ c.rest, t.kind.closes = true

namespace Cursor

variable {c : Cursor}

theorem Closed.exists_cons (h : c.Closed) : ∃ rest, c.rest = c.current :: rest := by
  obtain ⟨t, ht, -⟩ := h
  cases hr : c.rest with
  | nil =>
    rw [hr] at ht
    exact nomatch ht
  | cons u rest => exact ⟨rest, by rw [current, hr]; rfl⟩

/-- A token that does not close the list is passed. -/
theorem Closed.next (h : c.Closed) (hk : c.current.kind.closes = false) :
    c.next.Closed ∧ c.rest = c.current :: c.next.rest := by
  obtain ⟨rest, hr⟩ := h.exists_cons
  have hnext : c.next = { c with previous := c.current, rest := c.rest.tail } := by
    rw [Cursor.next, atEnd, hk]
    rfl
  obtain ⟨t, ht, hclose⟩ := h
  rw [hnext, hr]
  rw [hr] at ht
  refine ⟨⟨t, ?_, hclose⟩, rfl⟩
  rcases List.mem_cons.1 ht with rfl | ht
  · exact absurd hclose (by rw [hk]; exact Bool.false_ne_true)
  · simpa [hr] using ht

end Cursor

/-- The lexical error that stands at the cursor. -/
def Cursor.obstacle? (c : Cursor) : Option Diagnostic :=
  match c.current.kind with
  | .invalid e => some ⟨c.current.span, .lexical e⟩
  | _ => none

namespace Parser

/-- Whatever a parser rejects, a lexical error at the cursor comes first. -/
theorem reject_apply {α : Type} (span : Span) (cause : SyntaxError) (c : Cursor) :
    (reject span cause : Parser α) c = .error (.error (c.obstacle?.getD ⟨span, cause⟩)) c := by
  unfold reject Cursor.obstacle?
  rw [Outcome.bind_apply]
  dsimp only [peek]
  show (match c.current.kind with
    | .invalid e => throw (.error ⟨c.current.span, .lexical e⟩)
    | _ => throw (.error ⟨span, cause⟩) : Parser α) c = _
  cases c.current.kind <;> rfl

theorem accept_apply (k : TokenKind) (c : Cursor) :
    accept k c =
      if (c.current.kind == k && !c.atEnd) = true then .ok true c.next else .ok false c := by
  show (if (c.current.kind == k && !c.atEnd) = true then _ else _ : Parser Bool) c = _
  split <;> rfl

theorem expect_apply (k : TokenKind) (cause : SyntaxError) (c : Cursor) :
    expect k cause c =
      if (c.current.kind == k) = true then .ok c.current c.next
      else reject c.previous.span cause c := by
  show (if (c.current.kind == k) = true then advance else _ : Parser Token) c = _
  split <;> rfl

/-- One expression of a list, and those that `more` reads after a comma. -/
def listed (n : Nat) (more : Parser (List Expr)) : Parser (List Expr) := do
  let e ← expression n
  if ← accept (.symbol .comma) then return e :: (← more) else return [e]

theorem elements_succ (n : Nat) : elements (n + 1) = listed n (elements n) := by
  rw [elements, listed]

theorem arguments_succ {n count : Nat} (h : count < maxArguments) :
    arguments (n + 1) count = listed n (arguments n (count + 1)) := by
  rw [arguments, listed, if_neg (Nat.not_le_of_lt h)]

end Parser

end Eleu
