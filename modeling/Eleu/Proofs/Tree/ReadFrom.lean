import Eleu.Proofs.Tree.Grammar
import Eleu.Tree.ParseItem

/-! # The tokens of a tree

    `Item.ReadFrom` says which tokens an item was read from, and the same of each of its parts: the
    tokens from the index `i` up to the index `j`, which is the first one that no longer belongs to
    it, are the text of the item, and the parts of the item share them out among themselves. So the
    relation is the grammar of items, written down by the index. It has the conditions that the
    parser checks on the way, such as that a body is no declaration.

    What the spans of the nodes have to do with their tokens is left open. A `Gauge` is any answer
    that holds of single tokens and passes from two neighbours to their union. -/

namespace Eleu

/-! ## Kinds of items -/

/-- Declarations of variables, functions and classes. -/
def Item.isDeclaration : Item → Bool
  | .var _ _ _ | .function _ _ | .class _ _ _ _ => true
  | _ => false

/-- The statement that is written as a semicolon alone. -/
def Item.isEmpty : Item → Bool
  | .expr (.literal .nil _) _ => true
  | _ => false

/-- Whether an `else` right after the statement would belong to an `if` at its end. -/
def Item.isOpen : Item → Bool
  | .ifThen _ _ _ => true
  | .ifElse _ _ e _ => e.isOpen
  | .while _ body _ _ => body.isOpen
  | .repeat _ body _ => body.isOpen
  | _ => false

/-- A statement that may be the body of a loop or the first branch of an `if`. -/
def Item.IsBody (i : Item) : Prop := i.isDeclaration = false ∧ i.isEmpty = false

/-! ## Tokens and spans -/

/-- The token `i` shows the glyph. -/
def ShownAt (tokens : List Token) (i : Nat) (g : Glyph) : Prop := ∃ t, tokens[i]? = some t ∧ t.Shows g

/-- What is to hold of the span of a node that was read from the tokens from `i` up to `j`. -/
structure Gauge (tokens : List Token) where
  fits : (i j : Nat) → Span → Prop
  token : ∀ {i : Nat} {t : Token}, tokens[i]? = some t → fits i (i + 1) t.span
  union : ∀ {i k l j : Nat} {a b : Span}, fits i k a → k ≤ l → fits l j b → fits i j (a.union b)

/-- Nothing is asked of spans. -/
def Gauge.any (tokens : List Token) : Gauge tokens where
  fits _ _ _ := True
  token _ := trivial
  union _ _ _ := trivial

section

variable {tokens : List Token} (G : Gauge tokens)

/-! ## Expressions -/

mutual

/-- The expression was read from the tokens from `i` up to `j`. -/
def Expr.ReadFrom : Expr → (i j : Nat) → Prop
  | .literal value span, i, j =>
    G.fits i j span ∧ j = i + 1 ∧ ShownAt tokens i value.glyph ∧ value.Representable
  | .list elements span, i, j =>
    G.fits i j span ∧ ∃ m, j = m + 1 ∧ ShownAt tokens i (.fixed (.symbol .leftBracket))
      ∧ exprsReadFrom elements (i + 1) m ∧ ShownAt tokens m (.fixed (.symbol .rightBracket))
  | .name ident span, i, j =>
    G.fits i j span ∧ j = i + 1 ∧ ShownAt tokens i (.text .name ident.name)
  | .assign target value span, i, j =>
    G.fits i j span ∧ ShownAt tokens i (.text .name target.name)
      ∧ ShownAt tokens (i + 1) (.fixed (.symbol .equal)) ∧ value.ReadFrom (i + 2) j
  | .unary op operand span, i, j =>
    G.fits i j span ∧ ShownAt tokens i (.fixed op.kind) ∧ operand.ReadFrom (i + 1) j
  | .binary left op right span, i, j =>
    G.fits i j span ∧ ∃ m, left.ReadFrom i m ∧ ShownAt tokens m (.fixed op.kind)
      ∧ right.ReadFrom (m + 1) j
  | .logical left op right span, i, j =>
    G.fits i j span ∧ ∃ m, left.ReadFrom i m ∧ ShownAt tokens m (.fixed op.kind)
      ∧ right.ReadFrom (m + 1) j
  | .group inner span, i, j =>
    G.fits i j span ∧ ∃ m, j = m + 1 ∧ ShownAt tokens i (.fixed (.symbol .leftParen))
      ∧ inner.ReadFrom (i + 1) m ∧ ShownAt tokens m (.fixed (.symbol .rightParen))
  | .call callee args span, i, j =>
    G.fits i j span ∧ args.length ≤ maxArguments ∧ ∃ m k, j = k + 1 ∧ callee.ReadFrom i m
      ∧ ShownAt tokens m (.fixed (.symbol .leftParen)) ∧ exprsReadFrom args (m + 1) k
      ∧ ShownAt tokens k (.fixed (.symbol .rightParen))
  | .getField object field span, i, j =>
    G.fits i j span ∧ ∃ m, j = m + 2 ∧ object.ReadFrom i m
      ∧ ShownAt tokens m (.fixed (.symbol .dot)) ∧ ShownAt tokens (m + 1) (.text .name field)
  | .setField object field value span, i, j =>
    G.fits i j span ∧ ∃ m, object.ReadFrom i m ∧ ShownAt tokens m (.fixed (.symbol .dot))
      ∧ ShownAt tokens (m + 1) (.text .name field)
      ∧ ShownAt tokens (m + 2) (.fixed (.symbol .equal)) ∧ value.ReadFrom (m + 3) j
  | .this ident span, i, j =>
    G.fits i j span ∧ j = i + 1 ∧ ShownAt tokens i (.fixed (.keyword .this)) ∧ ident.name = "this"
  | .super ident method span, i, j =>
    G.fits i j span ∧ j = i + 3 ∧ ShownAt tokens i (.fixed (.keyword .super))
      ∧ ShownAt tokens (i + 1) (.fixed (.symbol .dot)) ∧ ShownAt tokens (i + 2) (.text .name method)
      ∧ ident.name = "super"

/-- Expressions that commas separate. -/
def exprsReadFrom : List Expr → (i j : Nat) → Prop
  | [], i, j => i = j
  | e :: es, i, j => ∃ m, e.ReadFrom i m ∧ furtherReadFrom es m j

/-- Further expressions, each after its comma. -/
def furtherReadFrom : List Expr → (i j : Nat) → Prop
  | [], i, j => i = j
  | e :: es, i, j =>
    ShownAt tokens i (.fixed (.symbol .comma)) ∧ ∃ m, e.ReadFrom (i + 1) m ∧ furtherReadFrom es m j

end

/-- An expression that may be missing. -/
def optionReadFrom : Option Expr → (i j : Nat) → Prop
  | none, i, j => i = j
  | some e, i, j => e.ReadFrom G i j

/-! ## Parts of items -/

/-- A condition or count in parentheses. -/
def ParenthesisedFrom (e : Expr) (i j : Nat) : Prop :=
  ∃ m, j = m + 1 ∧ ShownAt tokens i (.fixed (.symbol .leftParen)) ∧ e.ReadFrom G (i + 1) m
    ∧ ShownAt tokens m (.fixed (.symbol .rightParen))

/-- The value that a variable starts with, after its equals sign. -/
def valueReadFrom : Option Expr → (i j : Nat) → Prop
  | none, i, j => i = j
  | some e, i, j => ShownAt tokens i (.fixed (.symbol .equal)) ∧ e.ReadFrom G (i + 1) j

/-- The declaration of a variable. -/
def VarReadFrom (name : String) (init : Option Expr) (span : Span) (i j : Nat) : Prop :=
  G.fits i j span ∧ ∃ m, j = m + 1 ∧ ShownAt tokens i (.fixed (.keyword .var))
    ∧ ShownAt tokens (i + 1) (.text .name name) ∧ valueReadFrom G init (i + 2) m
    ∧ ShownAt tokens m (.fixed (.symbol .semicolon))

/-- The initialiser of a `for`, with its semicolon. -/
def Item.InitialiserFrom : Item → (i j : Nat) → Prop
  | .var name init span, i, j => VarReadFrom G name init span i j
  | .expr e span, i, j =>
    G.fits i j span ∧ ∃ m, j = m + 1 ∧ e.ReadFrom G i m
      ∧ ShownAt tokens m (.fixed (.symbol .semicolon))
  | _, _, _ => False

/-- The head of a `while`, which has no increment. -/
def WhileHeadFrom (c : Expr) (increment : Option Expr) (i j : Nat) : Prop :=
  increment = none ∧ ShownAt tokens i (.fixed (.keyword .while)) ∧ ParenthesisedFrom G c (i + 1) j

/-- The head of a `for` at the token `k`, from its condition on. A condition that is left out is true,
    at the place of the keyword. -/
def ForHeadFrom (c : Expr) (increment : Option Expr) (k i j : Nat) : Prop :=
  ∃ a b, j = b + 1
    ∧ (c.ReadFrom G i a ∨ i = a ∧ ∃ span, c = .literal (.bool true) span ∧ G.fits k (k + 1) span)
    ∧ ShownAt tokens a (.fixed (.symbol .semicolon)) ∧ optionReadFrom G increment (a + 1) b
    ∧ ShownAt tokens b (.fixed (.symbol .rightParen))

variable (tokens) in
/-- The message of an assertion and its semicolon. -/
def messageReadFrom : Option String → (i j : Nat) → Prop
  | none, i, j => j = i + 1 ∧ ShownAt tokens i (.fixed (.symbol .semicolon))
  | some s, i, j =>
    j = i + 2 ∧ ShownAt tokens i (.text .string s)
      ∧ ShownAt tokens (i + 1) (.fixed (.symbol .semicolon))

variable (tokens) in
/-- Further parameters, each after its comma. -/
def furtherParamsFrom : List String → (i j : Nat) → Prop
  | [], i, j => i = j
  | p :: ps, i, j =>
    ShownAt tokens i (.fixed (.symbol .comma)) ∧ ShownAt tokens (i + 1) (.text .name p)
      ∧ furtherParamsFrom ps (i + 2) j

variable (tokens) in
/-- Parameters that commas separate. -/
def paramsReadFrom : List String → (i j : Nat) → Prop
  | [], i, j => i = j
  | p :: ps, i, j => ShownAt tokens i (.text .name p) ∧ furtherParamsFrom tokens ps (i + 1) j

variable (tokens) in
/-- The superclass in the head of a class. -/
def parentReadFrom : Option Ident → (i j : Nat) → Prop
  | none, i, j => i = j
  | some p, i, j =>
    j = i + 2 ∧ ShownAt tokens i (.fixed (.symbol .less))
      ∧ ShownAt tokens (i + 1) (.text .name p.name)

/-! ## Items -/

mutual

/-- The item was read from the tokens from `i` up to `j`. -/
def Item.ReadFrom : Item → (i j : Nat) → Prop
  | .expr e span, i, j =>
    G.fits i j span ∧ ∃ m, j = m + 1 ∧ ShownAt tokens m (.fixed (.symbol .semicolon))
      ∧ (Parser.standsAlone e = true ∧ e.ReadFrom G i m ∨ i = m ∧ e = .literal .nil span)
  | .var name init span, i, j => VarReadFrom G name init span i j
  | .block items span, i, j =>
    -- A block in braces, or the one that a `for` with an initialiser stands for.
    G.fits i j span ∧ ((∃ m, j = m + 1 ∧ ShownAt tokens i (.fixed (.symbol .leftBrace))
        ∧ itemsReadFrom items (i + 1) m ∧ ShownAt tokens m (.fixed (.symbol .rightBrace)))
      ∨ ShownAt tokens i (.fixed (.keyword .for))
        ∧ ShownAt tokens (i + 1) (.fixed (.symbol .leftParen)) ∧ forReadFrom items span i (i + 2) j)
  | .ifThen c t span, i, j =>
    G.fits i j span ∧ ∃ m, ShownAt tokens i (.fixed (.keyword .if))
      ∧ ParenthesisedFrom G c (i + 1) m ∧ t.IsBody ∧ t.ReadFrom m j
  | .ifElse c t e span, i, j =>
    G.fits i j span ∧ ∃ m k, ShownAt tokens i (.fixed (.keyword .if))
      ∧ ParenthesisedFrom G c (i + 1) m ∧ (t.IsBody ∧ t.isOpen = false ∧ t.ReadFrom m k)
      ∧ ShownAt tokens k (.fixed (.keyword .else)) ∧ e.isDeclaration = false
      ∧ e.ReadFrom (k + 1) j
  | .while c body increment span, i, j =>
    G.fits i j span ∧ ∃ m, (WhileHeadFrom G c increment i m
        ∨ ShownAt tokens i (.fixed (.keyword .for))
          ∧ ShownAt tokens (i + 1) (.fixed (.symbol .leftParen))
          ∧ ShownAt tokens (i + 2) (.fixed (.symbol .semicolon))
          ∧ ForHeadFrom G c increment i (i + 3) m)
      ∧ body.IsBody ∧ body.ReadFrom m j
  | .repeat count body span, i, j =>
    G.fits i j span ∧ ∃ m, ShownAt tokens i (.fixed (.keyword .repeat))
      ∧ ParenthesisedFrom G count (i + 1) m ∧ body.IsBody ∧ body.ReadFrom m j
  | .return value span, i, j =>
    G.fits i j span ∧ ∃ m, j = m + 1 ∧ ShownAt tokens i (.fixed (.keyword .return))
      ∧ optionReadFrom G value (i + 1) m ∧ ShownAt tokens m (.fixed (.symbol .semicolon))
  | .break span, i, j =>
    G.fits i j span ∧ j = i + 2 ∧ ShownAt tokens i (.fixed (.keyword .break))
      ∧ ShownAt tokens (i + 1) (.fixed (.symbol .semicolon))
  | .continue span, i, j =>
    G.fits i j span ∧ j = i + 2 ∧ ShownAt tokens i (.fixed (.keyword .continue))
      ∧ ShownAt tokens (i + 1) (.fixed (.symbol .semicolon))
  | .assert c message span, i, j =>
    G.fits i j span ∧ ∃ m, ShownAt tokens i (.fixed (.keyword .assert)) ∧ c.ReadFrom G (i + 1) m
      ∧ messageReadFrom tokens message m j
  | .assertFails e message span, i, j =>
    G.fits i j span ∧ ∃ m, ShownAt tokens i (.fixed (.keyword .assert))
      ∧ ShownAt tokens (i + 1) (.fixed (.keyword .break)) ∧ e.ReadFrom G (i + 2) m
      ∧ messageReadFrom tokens message m j
  | .function decl span, i, j =>
    G.fits i j span ∧ ShownAt tokens i (.fixed (.keyword .fun)) ∧ decl.kind = .function
      ∧ decl.ReadFrom i (i + 1) j
  | .class name parent methods span, i, j =>
    G.fits i j span ∧ ∃ m k, j = k + 1 ∧ ShownAt tokens i (.fixed (.keyword .class))
      ∧ ShownAt tokens (i + 1) (.text .name name) ∧ parentReadFrom tokens parent (i + 2) m
      ∧ ShownAt tokens m (.fixed (.symbol .leftBrace)) ∧ methodsReadFrom methods (m + 1) k
      ∧ ShownAt tokens k (.fixed (.symbol .rightBrace))

/-- Items one after the other. -/
def itemsReadFrom : List Item → (i j : Nat) → Prop
  | [], i, j => i = j
  | x :: xs, i, j => ∃ m, x.ReadFrom i m ∧ itemsReadFrom xs m j

/-- The two items of a `for` at the token `k`, from its initialiser at `i` on. -/
def forReadFrom : List Item → Span → (k i j : Nat) → Prop
  | [init, loop], span, k, i, j =>
    ∃ m, init.InitialiserFrom G i m ∧ loop.span = span ∧ loop.LoopFrom k m j
  | _, _, _, _, _ => False

/-- The loop of a `for` at the token `k`, from its condition at `i` on. Its place is that of the whole
    statement. -/
def Item.LoopFrom : Item → (k i j : Nat) → Prop
  | .while c body increment span, k, i, j =>
    G.fits k j span ∧ ∃ m, ForHeadFrom G c increment k i m ∧ body.IsBody ∧ body.ReadFrom m j
  | _, _, _, _ => False

/-- The function was read from the tokens from `i`, its name, up to `j`; its place begins at `o`. -/
def FunctionDecl.ReadFrom : FunctionDecl → (o i j : Nat) → Prop
  | ⟨_, _, _, name, params, body, span⟩, o, i, j =>
    G.fits o j span ∧ params.length ≤ maxArguments ∧ ∃ m k, j = k + 1
      ∧ ShownAt tokens i (.text .name name) ∧ ShownAt tokens (i + 1) (.fixed (.symbol .leftParen))
      ∧ paramsReadFrom tokens params (i + 2) m ∧ ShownAt tokens m (.fixed (.symbol .rightParen))
      ∧ ShownAt tokens (m + 1) (.fixed (.symbol .leftBrace)) ∧ itemsReadFrom body (m + 2) k
      ∧ ShownAt tokens k (.fixed (.symbol .rightBrace))

/-- Methods one after the other. -/
def methodsReadFrom : List FunctionDecl → (i j : Nat) → Prop
  | [], i, j => i = j
  | d :: ds, i, j => ∃ m, (d.kind = .method ∧ d.ReadFrom i i m) ∧ methodsReadFrom ds m j

end

end

/-! ## Places -/

variable {tokens : List Token} {G : Gauge tokens} {i j : Nat}

theorem Expr.ReadFrom.fits {e : Expr} (h : e.ReadFrom G i j) : G.fits i j e.span := by
  cases e <;> exact h.1

theorem Item.ReadFrom.fits {x : Item} (h : x.ReadFrom G i j) : G.fits i j x.span := by
  cases x <;> exact h.1

theorem FunctionDecl.ReadFrom.fits {o : Nat} {d : FunctionDecl} (h : d.ReadFrom G o i j) :
    G.fits o j d.span := by
  cases d
  exact h.1

/-- What is read after a comma goes on with the list. -/
theorem furtherReadFrom_of_comma {es : List Expr} (hne : es ≠ [])
    (hcomma : ShownAt tokens i (.fixed (.symbol .comma))) (h : exprsReadFrom G es (i + 1) j) :
    furtherReadFrom G es i j := by
  cases es with
  | nil => exact absurd rfl hne
  | cons e es => exact ⟨hcomma, h⟩

theorem furtherParamsFrom_of_comma {ps : List String} (hne : ps ≠ [])
    (hcomma : ShownAt tokens i (.fixed (.symbol .comma))) (h : paramsReadFrom tokens ps (i + 1) j) :
    furtherParamsFrom tokens ps i j := by
  cases ps with
  | nil => exact absurd rfl hne
  | cons p ps => exact ⟨hcomma, h⟩

end Eleu
