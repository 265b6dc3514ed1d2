import Eleu.Proofs.Store.Growth
import Eleu.Scope

/-! # Static scopes

    A place in a program stands inside scopes, each opened by a block, a call, a class with a
    superclass or the instance that a method is bound to. A `Context` lists them, the innermost
    first, with the names that are declared in each up to that place. The outermost scope is not
    tracked, so that the context of a statement of the program itself is empty.

    `Item.Follows` judges a tree at its context by a set of `Rules`: what a reference with its
    distance may look like there, and which declarations may stand where. It also holds what the
    grammar and the resolver ask of every tree: branches and bodies of loops are no declarations,
    `break` and `continue` stand in loops, `return` stands in functions, and no name is reserved. -/

namespace Eleu

variable {Γ Γ' : Context}

/-- What opens a scope. A block and a class are told by their place in the text, a function by its
    id. -/
inductive Site where
  | block (span : Span)
  | function (id : Nat)
  | super (span : Span)
  | this

/-- A scope as seen from a place inside it, with the names declared before that place. -/
structure StaticScope where
  site : Site
  names : List String := []

/-- The scopes around a place, the innermost first. -/
abbrev Context := List StaticScope

namespace Context

/-- Adds a name to the innermost scope. -/
def declare (name : String) : Context → Context
  | [] => []
  | scope :: outer => { scope with names := name :: scope.names } :: outer

/-- How many scopes out `name` is declared. -/
def distance? (name : String) : Context → Option Nat
  | [] => none
  | scope :: outer => if name ∈ scope.names then some 0 else (distance? name outer).map (· + 1)

/-- The context of the methods of a class that stands at `span`. -/
def ofMethods (subclass : Bool) (span : Span) (Γ : Context) : Context :=
  let outer := if subclass then { site := .super span, names := ["super"] } :: Γ else Γ
  { site := .this, names := ["this"] } :: outer

/-- The innermost scope is not that of a `super`, so that class statements may stand in it. -/
def Plain (Γ : Context) : Prop := ∀ scope ∈ Γ.head?, ∀ span, scope.site ≠ .super span

theorem plain_declare {name : String} : (Γ.declare name).Plain ↔ Γ.Plain := by
  cases Γ with
  | nil => exact .rfl
  | cons scope outer => simp [Plain, declare]

@[simp] theorem length_declare (name : String) (Γ : Context) : (Γ.declare name).length = Γ.length := by
  cases Γ <;> rfl

/-- How many blocks of its own function, or of the program, a place stands in. -/
def blocks : Context → Nat
  | [] => 0
  | scope :: outer =>
    match scope.site with
    | .block _ => blocks outer + 1
    | _ => 0

theorem blocks_le_length (Γ : Context) : Γ.blocks ≤ Γ.length := by
  induction Γ with
  | nil => exact Nat.le_refl _
  | cons scope outer ih =>
    unfold blocks
    split
    · exact Nat.succ_le_succ ih
    · exact Nat.zero_le _

@[simp] theorem blocks_declare (name : String) (Γ : Context) : (Γ.declare name).blocks = Γ.blocks := by
  cases Γ <;> rfl

@[simp] theorem tail_declare (name : String) (Γ : Context) : (Γ.declare name).tail = Γ.tail := by
  cases Γ <;> rfl

end Context

/-- The scope of the parameters and the body of a function. -/
def FunctionDecl.scope (decl : FunctionDecl) : StaticScope :=
  { site := .function decl.id, names := decl.params }

/-- What a declaration is resolved as. -/
def FunctionDecl.role (decl : FunctionDecl) : FunctionRole :=
  match decl.kind with
  | .function => .function
  | .method => Resolve.methodRole decl

/-- The name that an item declares. -/
def Item.declared? : Item → Option String
  | .var name _ _ => some name
  | .function decl _ => some decl.name
  | .class name _ _ _ => some name
  | _ => none

/-- The context after an item. -/
def Item.after (i : Item) (Γ : Context) : Context :=
  match i.declared? with
  | some name => Γ.declare name
  | none => Γ

theorem Item.after_eq (i : Item) (Γ : Context) : i.after Γ = i.declared?.elim Γ Γ.declare := by
  unfold Item.after
  cases i.declared? <;> rfl

/-- The context after items. -/
def itemsAfter : List Item → Context → Context
  | [], Γ => Γ
  | i :: is, Γ => itemsAfter is (i.after Γ)

@[simp] theorem Item.tail_after (i : Item) (Γ : Context) : (i.after Γ).tail = Γ.tail := by
  unfold Item.after
  split
  · exact Context.tail_declare _ _
  · rfl

@[simp] theorem Item.length_after (i : Item) (Γ : Context) : (i.after Γ).length = Γ.length := by
  unfold Item.after
  split
  · exact Context.length_declare _ _
  · rfl

@[simp] theorem Item.blocks_after (i : Item) (Γ : Context) : (i.after Γ).blocks = Γ.blocks := by
  unfold Item.after
  split
  · exact Context.blocks_declare _ _
  · rfl

@[simp] theorem blocks_itemsAfter (is : List Item) (Γ : Context) :
    (itemsAfter is Γ).blocks = Γ.blocks := by
  induction is generalizing Γ with
  | nil => rfl
  | cons i is ih => rw [itemsAfter, ih, Item.blocks_after]

@[simp] theorem tail_itemsAfter (is : List Item) (Γ : Context) : (itemsAfter is Γ).tail = Γ.tail := by
  induction is generalizing Γ with
  | nil => rfl
  | cons i is ih => rw [itemsAfter, ih, Item.tail_after]

@[simp] theorem length_itemsAfter (is : List Item) (Γ : Context) :
    (itemsAfter is Γ).length = Γ.length := by
  induction is generalizing Γ with
  | nil => rfl
  | cons i is ih => rw [itemsAfter, ih, Item.length_after]

/-! ## Rules -/

/-- A reference to a variable, the place of the expression or class statement it belongs to, the
    context of that place, and the variable in whose initialiser it stands, if any. -/
structure Reference where
  ident : Ident
  span : Span
  context : Context
  pending : Option String

/-- What a program may contain where. A distance is the one that the table gives for the reference. -/
structure Rules where
  /-- A declaration may stand at the context. -/
  known : FunctionDecl → Context → Prop
  /-- A variable may be read. -/
  reads : Reference → Option Nat → Prop
  /-- A variable may be assigned to. -/
  writes : Reference → Option Nat → Prop
  /-- `super` may be used. -/
  supers : Reference → Option Nat → Prop
  /-- An initialiser may end and return the instance that is bound `n` scopes out. -/
  returns : Context → (n : Nat) → Prop
  /-- A name may be declared. -/
  declares : Context → String → Prop := fun _ name => ¬ Reserved name
  named : ∀ {Γ name}, declares Γ name → ¬ Reserved name := by exact id

/-- The return of an initialiser stays right after further declarations and inside further scopes. -/
structure Rules.Stable (R : Rules) : Prop where
  declare : ∀ {Γ : Context} {n : Nat} {name : String}, ¬ Reserved name →
    R.returns Γ n → R.returns (Γ.declare name) n
  enter : ∀ {Γ : Context} {n : Nat} (site : Site),
    R.returns Γ n → R.returns ({ site } :: Γ) (n + 1)

/-- A number that is written out is finite. -/
def Literal.Finite : Literal → Prop
  | .number x => x.isFinite = true
  | _ => True

mutual

/-- An expression that stands at `Γ`, in the initialiser of the variable `pending` if there is one,
    follows the rules. -/
def Expr.Follows (R : Rules) (d : Distances) (pending : Option String) (Γ : Context) : Expr → Prop
  | .literal value _ => value.Finite
  | .list elements _ => exprsFollow R d pending Γ elements
  | .name ident span => R.reads ⟨ident, span, Γ, pending⟩ (d.get? ident.id)
  | .assign target value span =>
    ¬ Reserved target.name ∧ value.Follows R d pending Γ
      ∧ R.writes ⟨target, span, Γ, pending⟩ (d.get? target.id)
  | .unary _ operand _ => operand.Follows R d pending Γ
  | .binary left _ right _ => left.Follows R d pending Γ ∧ right.Follows R d pending Γ
  | .logical left _ right _ => left.Follows R d pending Γ ∧ right.Follows R d pending Γ
  | .group inner _ => inner.Follows R d pending Γ
  | .call callee args _ => exprsFollow R d pending Γ args ∧ callee.Follows R d pending Γ
  | .getField object _ _ => object.Follows R d pending Γ
  | .setField object _ value _ => object.Follows R d pending Γ ∧ value.Follows R d pending Γ
  | .this ident span => R.reads ⟨ident, span, Γ, pending⟩ (d.get? ident.id)
  | .super ident _ span => R.supers ⟨ident, span, Γ, pending⟩ (d.get? ident.id)

/-- Expressions follow the rules. -/
def exprsFollow (R : Rules) (d : Distances) (pending : Option String) (Γ : Context) :
    List Expr → Prop
  | [] => True
  | e :: es => e.Follows R d pending Γ ∧ exprsFollow R d pending Γ es

end

/-- Whether a function of the given role, or the program, may return the given value. -/
def MayReturn (value : Option Expr) : Option FunctionRole → Prop
  | none => False
  | some .initialiser => value = none
  | some _ => True

mutual

/-- An item that stands at `Γ`, in a function of the given role and perhaps in a loop, follows the
    rules. -/
def Item.Follows (R : Rules) (d : Distances) (role : Option FunctionRole) (loop : Bool)
    (Γ : Context) : Item → Prop
  | .expr e _ => e.Follows R d none Γ
  | .var name init _ => R.declares Γ name ∧ ∀ e ∈ init, e.Follows R d (some name) Γ
  | .block items span => itemsFollow R d role loop ({ site := .block span } :: Γ) items
  | .ifThen c t _ =>
    c.Follows R d none Γ ∧ t.declared? = none ∧ t.Follows R d role loop Γ
  | .ifElse c t e _ =>
    c.Follows R d none Γ ∧ (t.declared? = none ∧ t.Follows R d role loop Γ)
      ∧ e.declared? = none ∧ e.Follows R d role loop Γ
  | .while c body increment _ =>
    c.Follows R d none Γ ∧ (body.declared? = none ∧ body.Follows R d role true Γ)
      ∧ ∀ e ∈ increment, e.Follows R d none Γ
  | .repeat count body _ =>
    count.Follows R d none Γ ∧ body.declared? = none ∧ body.Follows R d role true Γ
  | .return value _ => MayReturn value role ∧ ∀ e ∈ value, e.Follows R d none Γ
  | .break _ => loop = true
  | .continue _ => loop = true
  | .assert c _ _ => c.Follows R d none Γ
  | .assertFails e _ _ => e.Follows R d none Γ
  | .function decl _ =>
    (decl.kind = .function ∧ R.declares Γ decl.name)
      ∧ decl.Follows R d .function (Γ.declare decl.name)
  | .class name parent methods span =>
    R.declares Γ name ∧ (Γ.Plain ∧ ∀ p ∈ parent, R.reads ⟨p, span, Γ, none⟩ (d.get? p.id))
      ∧ methodsFollow R d (Context.ofMethods parent.isSome span (Γ.declare name)) methods

/-- Items that stand one after the other from `Γ` on follow the rules. -/
def itemsFollow (R : Rules) (d : Distances) (role : Option FunctionRole) (loop : Bool) :
    Context → List Item → Prop
  | _, [] => True
  | Γ, i :: is => i.Follows R d role loop Γ ∧ itemsFollow R d role loop (i.after Γ) is

/-- A function that stands at `Γ` follows the rules. -/
def FunctionDecl.Follows (R : Rules) (d : Distances) (role : FunctionRole) (Γ : Context) :
    FunctionDecl → Prop
  | ⟨unit, id, kind, name, params, body, span⟩ =>
    R.known ⟨unit, id, kind, name, params, body, span⟩ Γ ∧ ¬ Reserved name
      ∧ (∀ p ∈ params, ¬ Reserved p)
      ∧ itemsFollow R d (some role) false ({ site := .function id, names := params } :: Γ) body

/-- Methods that stand at `Γ` follow the rules. -/
def methodsFollow (R : Rules) (d : Distances) (Γ : Context) : List FunctionDecl → Prop
  | [] => True
  | m :: ms =>
    (m.kind = .method ∧ m.Follows R d (Resolve.methodRole m) Γ) ∧ methodsFollow R d Γ ms

end

/-- A function is known that follows some rules in its role, and nothing is asked of references. -/
def Rules.lax : Rules where
  known decl _ := ∃ R d Γ, decl.Follows R d decl.role Γ
  reads _ _ := True
  writes _ _ := True
  supers _ _ := True
  returns _ _ := True

theorem FunctionDecl.role_function (decl : FunctionDecl) (h : decl.kind = .function) :
    decl.role = .function := by
  rw [FunctionDecl.role, h]

theorem FunctionDecl.role_method (decl : FunctionDecl) (h : decl.kind = .method) :
    decl.role = Resolve.methodRole decl := by
  rw [FunctionDecl.role, h]

theorem FunctionDecl.follows_iff {R : Rules} {d : Distances} {role : FunctionRole}
    {decl : FunctionDecl} :
    decl.Follows R d role Γ ↔ R.known decl Γ ∧ ¬ Reserved decl.name
      ∧ (∀ p ∈ decl.params, ¬ Reserved p)
      ∧ itemsFollow R d (some role) false (decl.scope :: Γ) decl.body := by
  cases decl
  rfl

theorem methodsFollow.mem {R : Rules} {d : Distances} {ms : List FunctionDecl}
    (h : methodsFollow R d Γ ms) {m : FunctionDecl} (hm : m ∈ ms) :
    m.kind = .method ∧ m.Follows R d (Resolve.methodRole m) Γ := by
  induction ms with
  | nil => exact nomatch hm
  | cons first rest ih =>
    cases hm with
    | head => exact h.1
    | tail _ hm => exact ih h.2 hm

/-! ## From rules to rules -/

/-- What follows the rules `R` with the distances `d` follows `R'` with `d'`, at contexts that are
    related by `Rel`. A declaration is known to `R'` once it follows `R`. -/
structure Rules.Transfer (R R' : Rules) (d d' : Distances) (Rel : Context → Context → Prop) : Prop where
  declare : ∀ {Γ Γ' name}, Rel Γ Γ' → Rel (Γ.declare name) (Γ'.declare name)
  enter : ∀ {Γ Γ' scope}, Rel Γ Γ' → Rel (scope :: Γ) (scope :: Γ')
  plain : ∀ {Γ Γ'}, Rel Γ Γ' → Γ.Plain → Γ'.Plain
  known : ∀ {Γ Γ' decl}, Rel Γ Γ' → decl.Follows R d decl.role Γ → R'.known decl Γ'
  reads : ∀ {p Γ Γ' ident span}, Rel Γ Γ' → R.reads ⟨ident, span, Γ, p⟩ (d.get? ident.id) →
    R'.reads ⟨ident, span, Γ', p⟩ (d'.get? ident.id)
  writes : ∀ {p Γ Γ' ident span}, Rel Γ Γ' → R.writes ⟨ident, span, Γ, p⟩ (d.get? ident.id) →
    R'.writes ⟨ident, span, Γ', p⟩ (d'.get? ident.id)
  supers : ∀ {p Γ Γ' ident span}, Rel Γ Γ' → R.supers ⟨ident, span, Γ, p⟩ (d.get? ident.id) →
    R'.supers ⟨ident, span, Γ', p⟩ (d'.get? ident.id)
  declares : ∀ {Γ Γ' name}, Rel Γ Γ' → R.declares Γ name → R'.declares Γ' name

section Transfer

variable {R R' : Rules} {d d' : Distances} {Rel : Context → Context → Prop}

mutual

theorem Expr.transfer (t : R.Transfer R' d d' Rel) {p : Option String} (hrel : Rel Γ Γ') :
    ∀ e : Expr, e.Follows R d p Γ → e.Follows R' d' p Γ'
  | .literal _ _, h => h
  | .list elements _, h => exprs_transfer t hrel elements h
  | .name _ _, h => t.reads hrel h
  | .assign _ value _, h => ⟨h.1, value.transfer t hrel h.2.1, t.writes hrel h.2.2⟩
  | .unary _ operand _, h => operand.transfer t hrel h
  | .binary left _ right _, h => ⟨left.transfer t hrel h.1, right.transfer t hrel h.2⟩
  | .logical left _ right _, h => ⟨left.transfer t hrel h.1, right.transfer t hrel h.2⟩
  | .group inner _, h => inner.transfer t hrel h
  | .call callee args _, h => ⟨exprs_transfer t hrel args h.1, callee.transfer t hrel h.2⟩
  | .getField object _ _, h => object.transfer t hrel h
  | .setField object _ value _, h => ⟨object.transfer t hrel h.1, value.transfer t hrel h.2⟩
  | .this _ _, h => t.reads hrel h
  | .super _ _ _, h => t.supers hrel h

theorem exprs_transfer (t : R.Transfer R' d d' Rel) {p : Option String} (hrel : Rel Γ Γ') :
    ∀ es : List Expr, exprsFollow R d p Γ es → exprsFollow R' d' p Γ' es
  | [], _ => trivial
  | e :: es, h => ⟨e.transfer t hrel h.1, exprs_transfer t hrel es h.2⟩

end

theorem Rules.Transfer.after (t : R.Transfer R' d d' Rel) (hrel : Rel Γ Γ') (i : Item) :
    Rel (i.after Γ) (i.after Γ') := by
  unfold Item.after
  split
  · exact t.declare hrel
  · exact hrel

theorem Rules.Transfer.ofMethods (t : R.Transfer R' d d' Rel) (hrel : Rel Γ Γ') (subclass : Bool)
    (span : Span) :
    Rel (Context.ofMethods subclass span Γ) (Context.ofMethods subclass span Γ') := by
  cases subclass with
  | false => exact t.enter hrel
  | true => exact t.enter (t.enter hrel)

mutual

theorem Item.transfer (t : R.Transfer R' d d' Rel) :
    ∀ (i : Item) {role : Option FunctionRole} {loop : Bool} {Γ Γ' : Context}, Rel Γ Γ' →
      i.Follows R d role loop Γ → i.Follows R' d' role loop Γ'
  | .expr e _, _, _, _, _, hrel, h => e.transfer t hrel h
  | .var _ _ _, _, _, _, _, hrel, h => ⟨t.declares hrel h.1, fun e he => e.transfer t hrel (h.2 e he)⟩
  | .block items _, _, _, _, _, hrel, h => items_transfer t items (t.enter hrel) h
  | .ifThen c i _, _, _, _, _, hrel, h =>
    ⟨c.transfer t hrel h.1, h.2.1, i.transfer t hrel h.2.2⟩
  | .ifElse c i e _, _, _, _, _, hrel, h =>
    ⟨c.transfer t hrel h.1, ⟨h.2.1.1, i.transfer t hrel h.2.1.2⟩, h.2.2.1,
      e.transfer t hrel h.2.2.2⟩
  | .while c body _ _, _, _, _, _, hrel, h =>
    ⟨c.transfer t hrel h.1, ⟨h.2.1.1, body.transfer t hrel h.2.1.2⟩,
      fun e he => e.transfer t hrel (h.2.2 e he)⟩
  | .repeat count body _, _, _, _, _, hrel, h =>
    ⟨count.transfer t hrel h.1, h.2.1, body.transfer t hrel h.2.2⟩
  | .return _ _, _, _, _, _, hrel, h => ⟨h.1, fun e he => e.transfer t hrel (h.2 e he)⟩
  | .break _, _, _, _, _, _, h => h
  | .continue _, _, _, _, _, _, h => h
  | .assert c _ _, _, _, _, _, hrel, h => c.transfer t hrel h
  | .assertFails e _ _, _, _, _, _, hrel, h => e.transfer t hrel h
  | .function decl _, _, _, _, _, hrel, h =>
    ⟨⟨h.1.1, t.declares hrel h.1.2⟩,
      decl.transfer t (decl.role_function h.1.1).symm (t.declare hrel) h.2⟩
  | .class _ _ methods _, _, _, _, _, hrel, h =>
    ⟨t.declares hrel h.1, ⟨t.plain hrel h.2.1.1, fun p hp => t.reads hrel (h.2.1.2 p hp)⟩,
      methods_transfer t methods (t.ofMethods (t.declare hrel) _ _) h.2.2⟩

theorem items_transfer (t : R.Transfer R' d d' Rel) :
    ∀ (is : List Item) {role : Option FunctionRole} {loop : Bool} {Γ Γ' : Context}, Rel Γ Γ' →
      itemsFollow R d role loop Γ is → itemsFollow R' d' role loop Γ' is
  | [], _, _, _, _, _, _ => trivial
  | i :: is, _, _, _, _, hrel, h =>
    ⟨i.transfer t hrel h.1, items_transfer t is (t.after hrel i) h.2⟩

theorem FunctionDecl.transfer (t : R.Transfer R' d d' Rel) :
    ∀ (decl : FunctionDecl) {role : FunctionRole} {Γ Γ' : Context}, role = decl.role → Rel Γ Γ' →
      decl.Follows R d role Γ → decl.Follows R' d' role Γ'
  | ⟨_, _, _, _, _, body, _⟩, _, _, _, hrole, hrel, h =>
    ⟨t.known hrel (hrole ▸ h), h.2.1, h.2.2.1, items_transfer t body (t.enter hrel) h.2.2.2⟩

theorem methods_transfer (t : R.Transfer R' d d' Rel) :
    ∀ (ms : List FunctionDecl) {Γ Γ' : Context}, Rel Γ Γ' →
      methodsFollow R d Γ ms → methodsFollow R' d' Γ' ms
  | [], _, _, _, _ => trivial
  | m :: ms, _, _, hrel, h =>
    ⟨⟨h.1.1, m.transfer t (m.role_method h.1.1).symm hrel h.1.2⟩, methods_transfer t ms hrel h.2⟩

end

end Transfer

end Eleu
