import Eleu.Proofs.Tree.Grammar
import Eleu.Tree.ParseItem

/-! # What holds of every rule of the grammar

    The rules of the grammar are put together from a few parsers: those that look at the cursor, take
    a token, hand out an id, reject what they see, or run out of rounds. A relation between the
    parsers of two runs in which these stand, and in which two parsers one after the other stand if
    both do, is a `Parser.Law`. All rules that know nothing of recovery stand in it, and if recovery
    keeps it, those for items as well (`Parser.Law.items`, `Parser.Law.program`). A property of the
    parsers of one run is the special case where the second run is not looked at.

    The runs may differ in the places of the tokens. Items, expressions and tokens can be freed of
    them: every span is replaced by the empty one (`placeless`), and nothing else is changed, ids
    included. No rule ever looks at a place, so the results of the second run are those of the first,
    with their places or without (`keeping`). -/

namespace Eleu

/-! ## Forgetting places -/

/-- A token without its place. -/
def Token.placeless (t : Token) : Token := { t with span := .empty }

@[simp] theorem Token.kind_placeless (t : Token) : t.placeless.kind = t.kind := rfl

@[simp] theorem Token.lexeme_placeless (t : Token) : t.placeless.lexeme = t.lexeme := rfl

@[simp] theorem Token.span_placeless (t : Token) : t.placeless.span = .empty := rfl

/-- A syntax error without its place. -/
def Diagnostic.placeless (d : Diagnostic) : Diagnostic := { d with span := .empty }

mutual

/-- An expression without places. -/
def Expr.placeless : Expr → Expr
  | .literal value _ => .literal value .empty
  | .list elements _ => .list (exprsPlaceless elements) .empty
  | .name ident _ => .name ident .empty
  | .assign target value _ => .assign target value.placeless .empty
  | .unary op operand _ => .unary op operand.placeless .empty
  | .binary left op right _ => .binary left.placeless op right.placeless .empty
  | .logical left op right _ => .logical left.placeless op right.placeless .empty
  | .group inner _ => .group inner.placeless .empty
  | .call callee args _ => .call callee.placeless (exprsPlaceless args) .empty
  | .getField object field _ => .getField object.placeless field .empty
  | .setField object field value _ => .setField object.placeless field value.placeless .empty
  | .this ident _ => .this ident .empty
  | .super ident method _ => .super ident method .empty

/-- Expressions without places. -/
def exprsPlaceless : List Expr → List Expr
  | [] => []
  | e :: es => e.placeless :: exprsPlaceless es

end

mutual

/-- An item without places. -/
def Item.placeless : Item → Item
  | .expr e _ => .expr e.placeless .empty
  | .var name init _ => .var name (init.map Expr.placeless) .empty
  | .block items _ => .block (itemsPlaceless items) .empty
  | .ifThen c t _ => .ifThen c.placeless t.placeless .empty
  | .ifElse c t e _ => .ifElse c.placeless t.placeless e.placeless .empty
  | .while c body increment _ =>
    .while c.placeless body.placeless (increment.map Expr.placeless) .empty
  | .repeat count body _ => .repeat count.placeless body.placeless .empty
  | .return value _ => .return (value.map Expr.placeless) .empty
  | .break _ => .break .empty
  | .continue _ => .continue .empty
  | .assert c message _ => .assert c.placeless message .empty
  | .assertFails e message _ => .assertFails e.placeless message .empty
  | .function decl _ => .function decl.placeless .empty
  | .class name parent methods _ => .class name parent (methodsPlaceless methods) .empty

/-- Items without places. -/
def itemsPlaceless : List Item → List Item
  | [] => []
  | i :: is => i.placeless :: itemsPlaceless is

/-- A declaration without places. Its ids stay. -/
def FunctionDecl.placeless : FunctionDecl → FunctionDecl
  | ⟨unit, id, kind, name, params, body, _⟩ =>
    ⟨unit, id, kind, name, params, itemsPlaceless body, .empty⟩

/-- Methods without places. -/
def methodsPlaceless : List FunctionDecl → List FunctionDecl
  | [] => []
  | m :: ms => m.placeless :: methodsPlaceless ms

end

@[simp] theorem Expr.span_placeless (e : Expr) : e.placeless.span = .empty := by
  cases e <;> rfl

/-! ## Keeping places or not -/

/-- `a`, as it is if places are kept, or else without its places, which `f` takes away. -/
def keeping {α : Type} (places : Bool) (f : α → α) (a : α) : α := bif places then a else f a

def Span.keeping (places : Bool) (span : Span) : Span := bif places then span else .empty

def Token.keeping (places : Bool) (t : Token) : Token := { t with span := t.span.keeping places }

variable {places : Bool}

/-- Where places are kept, `f` changes nothing. -/
class Faithful (places : Bool) {α : Type} (f : α → α) : Prop where
  eq_self : places = true → ∀ a, f a = a

instance {α : Type} : Faithful places (id : α → α) := ⟨fun _ _ => rfl⟩

instance {α : Type} (f : α → α) : Faithful places (keeping places f) := ⟨by rintro rfl a; rfl⟩

instance : Faithful places (Span.keeping places) := ⟨by rintro rfl a; rfl⟩

instance : Faithful places (Token.keeping places) := ⟨by rintro rfl a; rfl⟩

theorem Expr.span_keeping (e : Expr) :
    (keeping places Expr.placeless e).span = e.span.keeping places := by
  cases places with
  | true => rfl
  | false => exact e.span_placeless

theorem FunctionDecl.span_keeping (d : FunctionDecl) :
    (keeping places FunctionDecl.placeless d).span = d.span.keeping places := by
  cases d
  cases places <;> rfl

theorem Joiner.join_keeping (j : Joiner) (left right : Expr) :
    j.join (keeping places Expr.placeless left) (keeping places Expr.placeless right)
      = keeping places Expr.placeless (j.join left right) := by
  unfold Joiner.join
  rw [Expr.span_keeping, Expr.span_keeping]
  cases places <;> cases j <;> rfl

theorem Parser.standsAlone_keeping (e : Expr) :
    standsAlone (keeping places Expr.placeless e) = standsAlone e := by
  cases places with
  | true => rfl
  | false => cases e <;> rfl

/-- An item that may have been skipped, in front of others. -/
theorem toList_append_keeping (first : Option Item) (items : List Item) :
    (keeping places (Option.map Item.placeless) first).toList ++ keeping places itemsPlaceless items
      = keeping places itemsPlaceless (first.toList ++ items) := by
  cases places with
  | true => rfl
  | false => cases first <;> rfl

/-- The parts of the head of a `for` without places. -/
def forHeadPlaceless : Option Item × Expr × Option Expr → Option Item × Expr × Option Expr
  | (init, condition, increment) =>
    (init.map Item.placeless, condition.placeless, increment.map Expr.placeless)

/-! ## Laws -/

theorem Cursor.reported_next (c : Cursor) : c.next.reported = c.reported := by
  unfold Cursor.next
  split <;> rfl

theorem Cursor.reported_recover (c : Cursor) : c.recover.reported = c.reported := c.reported_next

namespace Parser

variable {J : {α : Type} → (α → α) → Parser α → Parser α → Prop}

/-- A relation in which all parts of the grammar stand. `J f p q` relates the results `a` of `p` to the
    results `f a` of `q`. No rule rejects anything with a lexical error of its own. -/
structure Law (places : Bool) (J : {α : Type} → (α → α) → Parser α → Parser α → Prop) : Prop where
  pure {α : Type} {f : α → α} [Faithful places f] {a b : α} :
    b = f a → J f (pure a : Parser α) (pure b)
  bind {α β : Type} {f : α → α} {g : β → β} [Faithful places f] {p q : Parser α}
    {h k : α → Parser β} : J f p q → (∀ a, J g (h a) (k (f a))) → J g (p >>= h) (q >>= k)
  spent {α : Type} {f : α → α} : J f (throw .outOfRounds : Parser α) (throw .outOfRounds)
  peek : J (Token.keeping places) peek peek
  previous : J (Token.keeping places) previous previous
  atEnd : J id atEnd atEnd
  advance : J (Token.keeping places) advance advance
  freshId : J id freshId freshId
  reject {α : Type} {f : α → α} (span : Span) {cause : SyntaxError} (h : ∀ e, cause ≠ .lexical e) :
    J f (reject span cause : Parser α) (reject (span.keeping places) cause)

namespace Law

variable {α β : Type} {f : α → α} {g : β → β} {p p' q q' : Parser α} (L : Law places J)
include L

theorem map [Faithful places f] [Faithful places g] {h k : α → β} (hp : J f p p') (hk : ∀ a, k (f a) = g (h a)) :
    J g (h <$> p) (k <$> p') := by
  rw [map_eq_pure_bind, map_eq_pure_bind]
  exact L.bind hp fun a => L.pure (hk a)

omit L in
theorem ite {c : Prop} [Decidable c] (hp : J f p p') (hq : J f q q') :
    J f (if c then p else q) (if c then p' else q') := by
  split
  · exact hp
  · exact hq

/-- What follows on a choice is the same for both. -/
theorem choice [Faithful places f] {c : Prop} [Decidable c] {h k : α → Parser β} (hp : J f p p')
    (hq : J f q q') (hk : ∀ a, J g (h a) (k (f a))) :
    J g (if c then p >>= h else q >>= h) (if c then p' >>= k else q' >>= k) :=
  ite (L.bind hp hk) (L.bind hq hk)

omit L in
/-- A check in front of `p`. -/
theorem guarded {c : Prop} [Decidable c] (hp : J f p p') (hq : J f p p' → J f q q') :
    J f (if c then q else p) (if c then q' else p') := ite (hq hp) hp

theorem check (k : TokenKind) : J id (check k) (check k) := L.bind L.peek fun _ => L.pure rfl

theorem accept (k : TokenKind) : J id (accept k) (accept k) :=
  L.bind (L.check k) fun _ => L.bind L.atEnd fun _ =>
    ite (L.bind L.advance fun _ => L.pure rfl) (L.pure rfl)

theorem expect (k : TokenKind) {cause : SyntaxError} (h : ∀ e, cause ≠ .lexical e) :
    J (Token.keeping places) (expect k cause) (expect k cause) :=
  L.bind (L.check k) fun _ => ite L.advance (L.bind L.previous fun _ => L.reject _ h)

theorem freshIdent (name : String) : J id (freshIdent name) (freshIdent name) :=
  L.bind L.freshId fun _ => L.pure rfl

/-- Parsers often end with the span of what they have read. -/
theorem spanned {h k : Span → Parser α} (start : Span)
    (hk : ∀ span, J f (h span) (k (span.keeping places))) :
    J f (spanFrom start >>= h) (spanFrom (start.keeping places) >>= k) :=
  L.bind (L.bind L.previous fun _ => L.pure (by cases places <;> rfl)) hk

/-! ## Expressions -/

theorem assignTo (target value : Expr) :
    J (keeping places Expr.placeless) (assignTo target value)
      (assignTo (keeping places Expr.placeless target) (keeping places Expr.placeless value)) := by
  unfold Parser.assignTo
  rw [Expr.span_keeping, Expr.span_keeping]
  cases target with
  | name | getField => cases places <;> exact L.pure rfl
  | literal | list | assign | unary | binary | logical | group | call | setField | this | super =>
    cases places <;> exact L.reject _ nofun

theorem numberLiteral (t : Token) : J id (numberLiteral t) (numberLiteral (t.keeping places)) := by
  unfold Parser.numberLiteral
  dsimp only [Token.keeping]
  split
  · exact ite (L.pure rfl) (L.reject _ nofun)
  · exact L.reject _ nofun

theorem literalAt (t : Token) (value : Literal) :
    J (keeping places Expr.placeless) (literalAt t value) (literalAt (t.keeping places) value) :=
  L.bind L.advance fun _ => L.pure (by cases places <;> rfl)

theorem superRest (start : Span) :
    J (keeping places Expr.placeless) (superRest start) (superRest (start.keeping places)) :=
  L.bind (L.expect _ nofun) fun _ => L.bind (L.expect _ nofun) fun _ =>
    L.bind (L.freshIdent _) fun _ => L.spanned _ fun _ => L.pure (by cases places <;> rfl)

omit L in
/-- What all parsers of expressions do with `n` rounds. -/
structure Exprs (places : Bool) (J : {α : Type} → (α → α) → Parser α → Parser α → Prop) (n : Nat) :
    Prop where
  expression : J (keeping places Expr.placeless) (expression n) (expression n)
  operators : ∀ l, J (keeping places Expr.placeless) (operators n l) (operators n l)
  moreOperands : ∀ l {left left'}, left' = keeping places Expr.placeless left →
    J (keeping places Expr.placeless) (moreOperands n l left) (moreOperands n l left')
  operand : ∀ l, J (keeping places Expr.placeless) (operand n l) (operand n l)
  unary : J (keeping places Expr.placeless) (unary n) (unary n)
  chain : ∀ {e e'}, e' = keeping places Expr.placeless e →
    J (keeping places Expr.placeless) (chain n e) (chain n e')
  arguments : ∀ count, J (keeping places exprsPlaceless) (arguments n count) (arguments n count)
  elements : J (keeping places exprsPlaceless) (elements n) (elements n)
  primary : J (keeping places Expr.placeless) (primary n) (primary n)

variable {n : Nat}

theorem chain_succ (ih : Exprs places J n) (e : Expr) : J (keeping places Expr.placeless)
    (chain (n + 1) e) (chain (n + 1) (keeping places Expr.placeless e)) := by
  rw [Parser.chain, Parser.chain, Expr.span_keeping]
  refine L.bind L.peek fun t => ?_
  dsimp only [Token.keeping]
  split
  · refine L.bind L.advance fun _ => L.bind (L.check _) fun b => ?_
    refine L.choice (f := keeping places exprsPlaceless) (L.pure ?_) (ih.arguments 0) fun args => ?_
    · cases places <;> rfl
    · exact L.bind (L.expect _ nofun) fun _ => L.spanned _ fun _ => ih.chain (by cases places <;> rfl)
  · exact L.bind L.advance fun _ => L.bind (L.expect _ nofun) fun _ => L.spanned _ fun _ =>
      ih.chain (by cases places <;> rfl)
  · exact L.pure rfl

theorem primary_succ (ih : Exprs places J n) :
    J (keeping places Expr.placeless) (primary (n + 1)) (primary (n + 1)) := by
  rw [Parser.primary]
  refine L.bind L.peek fun t => ?_
  dsimp only [Token.keeping]
  split
  · exact L.literalAt t _
  · exact L.literalAt t _
  · exact L.literalAt t _
  · exact L.literalAt t _
  · exact L.bind (L.numberLiteral t) fun _ => L.literalAt t _
  · exact L.bind (L.freshIdent _) fun _ => L.bind L.advance fun _ => L.pure (by cases places <;> rfl)
  · exact L.bind (L.freshIdent _) fun _ => L.bind L.advance fun _ => L.pure (by cases places <;> rfl)
  · exact L.bind L.advance fun _ => L.superRest _
  · exact L.bind L.advance fun _ => L.bind ih.expression fun _ => L.bind (L.expect _ nofun) fun _ =>
      L.spanned _ fun _ => L.pure (by cases places <;> rfl)
  · refine L.bind L.advance fun _ => L.bind (L.check _) fun b => ?_
    refine L.choice (f := keeping places exprsPlaceless) (L.pure ?_) ih.elements fun items => ?_
    · cases places <;> rfl
    · exact L.bind (L.expect _ nofun) fun _ => L.spanned _ fun _ => L.pure (by cases places <;> rfl)
  · exact L.reject _ nofun
  · exact L.reject _ nofun

/-- All parsers of expressions stand in the relation. -/
theorem exprs (n : Nat) : Exprs places J n := by
  induction n with
  | zero =>
    constructor
    all_goals
      intros
      exact L.spent
  | succ n ih =>
    refine ⟨?_, ?_, ?_, ?_, ?_, fun h => h ▸ L.chain_succ ih _, ?_, ?_, L.primary_succ ih⟩
    · rw [Parser.expression]
      exact L.bind (ih.operators .or) fun target => L.bind (L.accept _) fun _ =>
        ite (L.bind ih.expression fun value => L.assignTo target value) (L.pure rfl)
    · intro l
      rw [Parser.operators]
      exact L.bind (ih.operand l) fun left => ih.moreOperands l rfl
    · rintro l left _ rfl
      rw [Parser.moreOperands, Parser.moreOperands]
      refine L.bind L.peek fun t => ?_
      dsimp only [Token.keeping]
      split
      · exact L.pure rfl
      · exact L.bind L.advance fun _ => L.bind (ih.operand l) fun right =>
          ih.moreOperands l (Joiner.join_keeping _ left right)
    · intro l
      rw [Parser.operand]
      split
      · exact ih.operators _
      · exact ih.unary
    · rw [Parser.unary]
      refine L.bind L.peek fun t => ?_
      dsimp only [Token.keeping]
      split
      · refine L.bind L.advance fun _ => L.bind ih.unary fun _ => L.pure ?_
        rw [Expr.span_keeping]
        cases places <;> rfl
      · exact L.bind ih.primary fun e => ih.chain rfl
    · intro count
      rw [Parser.arguments]
      refine guarded ?_ fun hrest => L.bind L.peek fun _ =>
        L.bind (f := id) (L.reject _ (by rintro _ ⟨⟩)) fun _ => hrest
      exact L.bind ih.expression fun _ => L.bind (L.accept _) fun _ =>
        ite (L.bind (ih.arguments _) fun _ => L.pure (by cases places <;> rfl))
          (L.pure (by cases places <;> rfl))
    · rw [Parser.elements]
      exact L.bind ih.expression fun _ => L.bind (L.accept _) fun _ =>
        ite (L.bind ih.elements fun _ => L.pure (by cases places <;> rfl))
          (L.pure (by cases places <;> rfl))

/-! ## Parts of items -/

theorem semicolon : J id semicolon semicolon := L.bind (L.expect _ nofun) fun _ => L.pure rfl

theorem parenthesised (n : Nat) :
    J (keeping places Expr.placeless) (parenthesised n) (parenthesised n) :=
  L.bind (L.expect _ nofun) fun _ => L.bind (L.exprs n).expression fun _ =>
    L.bind (L.expect _ nofun) fun _ => L.pure rfl

/-- An expression where there may also be none. -/
theorem someExpression (n : Nat) : J (keeping places (Option.map Expr.placeless))
    (some <$> expression n) (some <$> expression n) :=
  L.map (L.exprs n).expression fun _ => by cases places <;> rfl

theorem noExpression : J (keeping places (Option.map Expr.placeless)) (Pure.pure none)
    (Pure.pure none) := L.pure (by cases places <;> rfl)

theorem checkBody (afterParen : Bool) : J id (checkBody afterParen) (checkBody afterParen) := by
  refine L.bind L.peek fun t => ?_
  dsimp only [Token.keeping]
  split
  · exact ite (L.reject _ nofun) (L.pure rfl)
  · exact L.reject _ nofun
  · exact L.reject _ nofun
  · exact L.reject _ nofun
  · exact L.pure rfl

theorem varDeclaration (n : Nat) :
    J (keeping places Item.placeless) (varDeclaration n) (varDeclaration n) := by
  refine L.bind L.advance fun t => L.bind L.peek fun t' => ?_
  refine guarded ?_ fun hrest => L.bind (f := id) (L.reject _ nofun) fun _ => hrest
  refine L.bind (L.expect _ nofun) fun _ => L.bind (L.accept _) fun _ =>
    L.choice (L.someExpression n) L.noExpression fun _ => L.bind L.semicolon fun _ => ?_
  exact L.spanned _ fun _ => L.pure (by cases places <;> rfl)

theorem assertion (n : Nat) : J (keeping places Item.placeless) (assertion n) (assertion n) := by
  refine L.bind L.advance fun _ => L.bind (L.accept _) fun fails => L.bind (L.exprs n).expression fun _ =>
    L.bind L.peek fun _ => L.bind (L.accept _) fun _ => L.bind L.semicolon fun _ =>
      L.spanned _ fun _ => L.pure ?_
  cases places <;> cases fails <;> rfl

theorem returnStatement (n : Nat) :
    J (keeping places Item.placeless) (returnStatement n) (returnStatement n) :=
  L.bind L.advance fun _ => L.bind (L.check _) fun _ =>
    L.choice L.noExpression (L.someExpression n) fun _ => L.bind L.semicolon fun _ =>
      L.spanned _ fun _ => L.pure (by cases places <;> rfl)

theorem expressionStatement (n : Nat) (restricted : Bool) : J (keeping places Item.placeless)
    (expressionStatement n restricted) (expressionStatement n restricted) := by
  refine L.bind L.peek fun _ => L.bind (L.accept _) fun b => ?_
  refine ite (L.pure (by cases places <;> rfl)) (L.bind (L.exprs n).expression fun e => ?_)
  rw [standsAlone_keeping, Expr.span_keeping]
  refine guarded ?_ fun hrest => L.bind (f := id) (L.reject _ nofun) fun _ => hrest
  exact L.bind L.semicolon fun _ => L.spanned _ fun _ => L.pure (by cases places <;> rfl)

theorem forInitialiser (n : Nat) :
    J (keeping places (Option.map Item.placeless)) (forInitialiser n) (forInitialiser n) := by
  refine L.bind L.peek fun t => ?_
  dsimp only [Token.keeping]
  split
  · exact L.bind L.advance fun _ => L.pure (by cases places <;> rfl)
  · exact L.map (L.varDeclaration n) fun _ => by cases places <;> rfl
  · exact L.map (L.expressionStatement n false) fun _ => by cases places <;> rfl

theorem forHead (n : Nat) (start : Span) : J (keeping places forHeadPlaceless) (forHead n start)
    (forHead n (start.keeping places)) := by
  refine L.bind (L.expect _ nofun) fun _ => L.bind (L.forInitialiser n) fun _ =>
    L.bind (L.check _) fun _ => ?_
  refine L.choice (f := keeping places Expr.placeless) (L.pure (by cases places <;> rfl))
    (L.exprs n).expression fun _ => L.bind L.semicolon fun _ => L.bind (L.check _) fun _ => ?_
  exact L.choice L.noExpression (L.someExpression n) fun _ => L.bind (L.expect _ nofun) fun _ =>
    L.pure (by cases places <;> rfl)

theorem parameters (n count : Nat) : J id (parameters n count) (parameters n count) := by
  induction n generalizing count with
  | zero => exact L.spent
  | succ n ih =>
    rw [Parser.parameters]
    refine guarded ?_ fun hrest => L.bind L.peek fun _ =>
      L.bind (f := id) (L.reject _ nofun) fun _ => hrest
    exact L.bind (L.expect _ nofun) fun _ => L.bind (L.accept _) fun _ =>
      ite (L.bind (ih _) fun _ => L.pure rfl) (L.pure rfl)

theorem superclass : J id superclass superclass :=
  L.bind (L.accept _) fun _ => ite
    (L.bind (L.expect _ nofun) fun parent => L.map (L.freshIdent parent.lexeme) fun _ => rfl)
    (L.pure rfl)

/-! ## Items -/

omit L in
/-- What all parsers of items do with `n` rounds, in runs that deal with errors as `r` and `r'` say. -/
structure Items (places : Bool) (J : {α : Type} → (α → α) → Parser α → Parser α → Prop)
    (r r' : Recovery) (unit n : Nat) : Prop where
  declaration : J (keeping places (Option.map Item.placeless)) (declaration r unit n)
    (declaration r' unit n)
  item : J (keeping places Item.placeless) (item r unit n) (item r' unit n)
  statement : J (keeping places Item.placeless) (statement r unit n) (statement r' unit n)
  bodyStatement : ∀ afterParen, J (keeping places Item.placeless) (bodyStatement r unit n afterParen)
    (bodyStatement r' unit n afterParen)
  blockItems : J (keeping places itemsPlaceless) (blockItems r unit n) (blockItems r' unit n)
  function : ∀ kind start, J (keeping places FunctionDecl.placeless) (function r unit n kind start)
    (function r' unit n kind (start.keeping places))
  classDeclaration : J (keeping places Item.placeless) (classDeclaration r unit n)
    (classDeclaration r' unit n)
  methods : J (keeping places methodsPlaceless) (methods r unit n) (methods r' unit n)

variable {r r' : Recovery} {unit : Nat}

theorem item_succ (ih : Items places J r r' unit n) :
    J (keeping places Item.placeless) (item r unit (n + 1)) (item r' unit (n + 1)) := by
  rw [Parser.item, Parser.item]
  refine L.bind L.peek fun t => ?_
  dsimp only [Token.keeping]
  split
  · refine L.bind L.advance fun _ => L.bind (ih.function _ _) fun _ => L.pure ?_
    rw [FunctionDecl.span_keeping]
    cases places <;> rfl
  · exact ih.classDeclaration
  · exact L.varDeclaration n
  · exact ih.statement

theorem statement_succ (ih : Items places J r r' unit n) :
    J (keeping places Item.placeless) (statement r unit (n + 1)) (statement r' unit (n + 1)) := by
  rw [Parser.statement, Parser.statement]
  refine L.bind L.peek fun t => ?_
  dsimp only [Token.keeping]
  split
  · exact L.assertion n
  · exact L.bind L.advance fun _ => L.bind ih.blockItems fun _ => L.spanned _ fun _ =>
      L.pure (by cases places <;> rfl)
  · refine L.bind L.advance fun _ => L.bind (L.forHead n _) fun head =>
      L.bind (ih.bodyStatement true) fun _ => L.spanned _ fun _ => L.pure ?_
    obtain ⟨_ | _, _, _⟩ := head <;> cases places <;> rfl
  · refine L.bind L.advance fun _ => L.bind (L.parenthesised n) fun _ =>
      L.bind (ih.bodyStatement true) fun _ => L.bind (L.accept _) fun b => ?_
    exact ite (L.bind (ih.bodyStatement false) fun _ => L.spanned _ fun _ =>
      L.pure (by cases places <;> rfl)) (L.spanned _ fun _ => L.pure (by cases places <;> rfl))
  · exact L.returnStatement n
  · exact L.bind L.advance fun _ => L.bind (L.parenthesised n) fun _ =>
      L.bind (ih.bodyStatement true) fun _ => L.spanned _ fun _ => L.pure (by cases places <;> rfl)
  · exact L.bind L.advance fun _ => L.bind (L.parenthesised n) fun _ =>
      L.bind (ih.bodyStatement true) fun _ => L.spanned _ fun _ => L.pure (by cases places <;> rfl)
  · exact L.bind L.advance fun _ => L.bind L.semicolon fun _ => L.spanned _ fun _ =>
      L.pure (by cases places <;> rfl)
  · exact L.bind L.advance fun _ => L.bind L.semicolon fun _ => L.spanned _ fun _ =>
      L.pure (by cases places <;> rfl)
  · exact L.expressionStatement n true

theorem function_succ (ih : Items places J r r' unit n) (kind : FunctionKind) (start : Span) :
    J (keeping places FunctionDecl.placeless) (function r unit (n + 1) kind start)
      (function r' unit (n + 1) kind (start.keeping places)) := by
  rw [Parser.function, Parser.function]
  refine L.bind (L.expect _ nofun) fun name => L.bind (L.expect _ nofun) fun _ =>
    L.bind (L.check _) fun b => ?_
  refine L.choice (f := id) (L.pure rfl) (L.parameters n 0) fun params => ?_
  exact L.bind (L.expect _ nofun) fun _ => L.bind (L.expect _ nofun) fun _ =>
    L.bind ih.blockItems fun _ => L.bind L.freshId fun _ => L.spanned _ fun _ =>
      L.pure (by cases places <;> rfl)

variable (hr : ∀ {p q : Parser Item}, J (keeping places Item.placeless) p q →
  J (keeping places (Option.map Item.placeless)) (recovering r p) (recovering r' q))
include hr

/-- If recovery keeps the law, it holds of all parsers of items. -/
theorem items (unit n : Nat) : Items places J r r' unit n := by
  induction n with
  | zero =>
    constructor
    all_goals
      intros
      exact L.spent
  | succ n ih =>
    refine ⟨hr ih.item, L.item_succ ih, L.statement_succ ih, ?_, ?_, L.function_succ ih, ?_, ?_⟩
    · intro afterParen
      rw [Parser.bodyStatement, Parser.bodyStatement]
      exact L.bind (L.checkBody afterParen) fun _ => ih.statement
    · rw [Parser.blockItems, Parser.blockItems]
      refine L.bind (L.check _) fun _ => L.bind L.atEnd fun _ => ite ?_ ?_
      · exact L.bind (L.expect _ nofun) fun _ => L.pure (by cases places <;> rfl)
      · exact L.bind ih.declaration fun first => L.bind ih.blockItems fun items =>
          L.pure (toList_append_keeping first items)
    · rw [Parser.classDeclaration, Parser.classDeclaration]
      exact L.bind L.advance fun _ => L.bind (L.expect _ nofun) fun _ => L.bind L.superclass fun _ =>
        L.bind (L.expect _ nofun) fun _ => L.bind ih.methods fun _ =>
          L.bind (L.expect _ nofun) fun _ => L.spanned _ fun _ => L.pure (by cases places <;> rfl)
    · rw [Parser.methods, Parser.methods]
      refine L.bind (L.check _) fun _ => L.bind L.atEnd fun _ => ite ?_ ?_
      · exact L.pure (by cases places <;> rfl)
      · exact L.bind L.peek fun _ => L.bind (ih.function _ _) fun _ => L.bind ih.methods fun _ =>
          L.pure (by cases places <;> rfl)

/-- So does the parser of a program. -/
theorem program (unit n : Nat) :
    J (keeping places itemsPlaceless) (program r unit n) (program r' unit n) := by
  induction n with
  | zero => exact L.spent
  | succ n ih =>
    rw [Parser.program, Parser.program]
    refine L.bind L.atEnd fun b => ite (L.pure (by cases places <;> rfl)) ?_
    exact L.bind (L.items hr unit n).declaration fun first => L.bind ih fun items =>
      L.pure (toList_append_keeping first items)

end Law

end Parser

end Eleu
