import Eleu.Code.Emit
import Eleu.Proofs.Isolation.Parallel
import Eleu.Proofs.Tree.Ids
import Eleu.Proofs.Tree.Origin

/-! # Renumbered trees

    `itemsRenumber f` gives every id of a program another one. A tree and its renumbered form have
    alike code for every two tables of distances that agree on the references in it (`AgreeOn`):
    the same instructions but for the declarations in them, which are paired. -/

namespace Eleu

/-- A reference with another id. -/
def Ident.renumber (f : Nat → Nat) (i : Ident) : Ident := { i with id := f i.id }

mutual

/-- An expression with other ids. -/
def Expr.renumber (f : Nat → Nat) : Expr → Expr
  | .literal value span => .literal value span
  | .list elements span => .list (exprsRenumber f elements) span
  | .name ident span => .name (ident.renumber f) span
  | .assign target value span => .assign (target.renumber f) (value.renumber f) span
  | .unary op operand span => .unary op (operand.renumber f) span
  | .binary left op right span => .binary (left.renumber f) op (right.renumber f) span
  | .logical left op right span => .logical (left.renumber f) op (right.renumber f) span
  | .group inner span => .group (inner.renumber f) span
  | .call callee args span => .call (callee.renumber f) (exprsRenumber f args) span
  | .getField object field span => .getField (object.renumber f) field span
  | .setField object field value span => .setField (object.renumber f) field (value.renumber f) span
  | .this ident span => .this (ident.renumber f) span
  | .super ident method span => .super (ident.renumber f) method span

/-- Expressions with other ids. -/
def exprsRenumber (f : Nat → Nat) : List Expr → List Expr
  | [] => []
  | e :: es => e.renumber f :: exprsRenumber f es

end

mutual

/-- An item with other ids. -/
def Item.renumber (f : Nat → Nat) : Item → Item
  | .expr e span => .expr (e.renumber f) span
  | .var name init span => .var name (init.map (·.renumber f)) span
  | .block items span => .block (itemsRenumber f items) span
  | .ifThen c t span => .ifThen (c.renumber f) (t.renumber f) span
  | .ifElse c t e span => .ifElse (c.renumber f) (t.renumber f) (e.renumber f) span
  | .while c body increment span =>
    .while (c.renumber f) (body.renumber f) (increment.map (·.renumber f)) span
  | .repeat count body span => .repeat (count.renumber f) (body.renumber f) span
  | .return value span => .return (value.map (·.renumber f)) span
  | .break span => .break span
  | .continue span => .continue span
  | .assert c message span => .assert (c.renumber f) message span
  | .assertFails e message span => .assertFails (e.renumber f) message span
  | .function decl span => .function (decl.renumber f) span
  | .class name parent methods span =>
    .class name (parent.map (·.renumber f)) (methodsRenumber f methods) span

/-- Items with other ids. -/
def itemsRenumber (f : Nat → Nat) : List Item → List Item
  | [] => []
  | i :: is => i.renumber f :: itemsRenumber f is

/-- A declaration with other ids. It belongs to the same source text. -/
def FunctionDecl.renumber (f : Nat → Nat) : FunctionDecl → FunctionDecl
  | ⟨unit, id, kind, name, params, body, span⟩ =>
    ⟨unit, f id, kind, name, params, itemsRenumber f body, span⟩

/-- Methods with other ids. -/
def methodsRenumber (f : Nat → Nat) : List FunctionDecl → List FunctionDecl
  | [] => []
  | m :: ms => m.renumber f :: methodsRenumber f ms

end

theorem FunctionDecl.renumber_eq (f : Nat → Nat) (decl : FunctionDecl) :
    decl.renumber f = { decl with id := f decl.id, body := itemsRenumber f decl.body } := by
  cases decl
  rfl

mutual

/-- Ids that are kept change nothing. -/
theorem Expr.renumber_id : ∀ e : Expr, e.renumber id = e
  | .literal _ _ | .name _ _ | .this _ _ | .super _ _ _ => rfl
  | .list elements _ => by rw [Expr.renumber, exprsRenumber_id elements]
  | .assign _ value _ => by rw [Expr.renumber, value.renumber_id]; rfl
  | .unary _ operand _ => by rw [Expr.renumber, operand.renumber_id]
  | .binary left _ right _ => by rw [Expr.renumber, left.renumber_id, right.renumber_id]
  | .logical left _ right _ => by rw [Expr.renumber, left.renumber_id, right.renumber_id]
  | .group inner _ => by rw [Expr.renumber, inner.renumber_id]
  | .call callee args _ => by rw [Expr.renumber, callee.renumber_id, exprsRenumber_id args]
  | .getField object _ _ => by rw [Expr.renumber, object.renumber_id]
  | .setField object _ value _ => by rw [Expr.renumber, object.renumber_id, value.renumber_id]

theorem exprsRenumber_id : ∀ es : List Expr, exprsRenumber id es = es
  | [] => rfl
  | e :: es => by rw [exprsRenumber, e.renumber_id, exprsRenumber_id es]

end

theorem Expr.map_renumber_id (e : Option Expr) : e.map (·.renumber id) = e := by
  cases e with
  | none => rfl
  | some e => exact congrArg some e.renumber_id

mutual

theorem Item.renumber_id : ∀ i : Item, i.renumber id = i
  | .expr e _ => by rw [Item.renumber, e.renumber_id]
  | .var _ init _ => by rw [Item.renumber, Expr.map_renumber_id init]
  | .block items _ => by rw [Item.renumber, itemsRenumber_id items]
  | .ifThen c t _ => by rw [Item.renumber, c.renumber_id, t.renumber_id]
  | .ifElse c t e _ => by rw [Item.renumber, c.renumber_id, t.renumber_id, e.renumber_id]
  | .while c body increment _ => by
    rw [Item.renumber, c.renumber_id, body.renumber_id, Expr.map_renumber_id increment]
  | .repeat count body _ => by rw [Item.renumber, count.renumber_id, body.renumber_id]
  | .return value _ => by rw [Item.renumber, Expr.map_renumber_id value]
  | .break _ | .continue _ => rfl
  | .assert c _ _ => by rw [Item.renumber, c.renumber_id]
  | .assertFails e _ _ => by rw [Item.renumber, e.renumber_id]
  | .function decl _ => by rw [Item.renumber, decl.renumber_id]
  | .class _ parent methods _ => by
    rw [Item.renumber, methodsRenumber_id methods]
    cases parent <;> rfl

theorem itemsRenumber_id : ∀ is : List Item, itemsRenumber id is = is
  | [] => rfl
  | i :: is => by rw [itemsRenumber, i.renumber_id, itemsRenumber_id is]

theorem FunctionDecl.renumber_id : ∀ decl : FunctionDecl, decl.renumber id = decl
  | ⟨_, _, _, _, _, body, _⟩ => by rw [FunctionDecl.renumber, itemsRenumber_id body]; rfl

theorem methodsRenumber_id : ∀ ms : List FunctionDecl, methodsRenumber id ms = ms
  | [] => rfl
  | m :: ms => by rw [methodsRenumber, m.renumber_id, methodsRenumber_id ms]

end

@[simp] theorem Expr.renumber_span (f : Nat → Nat) (e : Expr) : (e.renumber f).span = e.span := by
  cases e <;> rfl

@[simp] theorem Item.renumber_span (f : Nat → Nat) (i : Item) : (i.renumber f).span = i.span := by
  cases i <;> rfl

@[simp] theorem exprsRenumber_length (f : Nat → Nat) (es : List Expr) :
    (exprsRenumber f es).length = es.length := by
  induction es with
  | nil => rfl
  | cons e es ih => exact congrArg (· + 1) ih

/-! ## References -/

mutual

/-- The ids of the references in an item, and in all functions declared there. -/
def Item.refs : Item → List Nat
  | .expr e _ => e.ids
  | .var _ init _ => optionIds init
  | .block items _ => itemsRefs items
  | .ifThen c t _ => c.ids ++ t.refs
  | .ifElse c t e _ => c.ids ++ (t.refs ++ e.refs)
  | .while c body increment _ => c.ids ++ (body.refs ++ optionIds increment)
  | .repeat count body _ => count.ids ++ body.refs
  | .return value _ => optionIds value
  | .break _ => []
  | .continue _ => []
  | .assert c _ _ => c.ids
  | .assertFails e _ _ => e.ids
  | .function decl _ => decl.refs
  | .class _ parent methods _ => (parent.map (·.id)).toList ++ methodsRefs methods

/-- The ids of the references in items. -/
def itemsRefs : List Item → List Nat
  | [] => []
  | i :: is => i.refs ++ itemsRefs is

/-- The ids of the references in a function. -/
def FunctionDecl.refs : FunctionDecl → List Nat
  | ⟨_, _, _, _, _, body, _⟩ => itemsRefs body

/-- The ids of the references in methods. -/
def methodsRefs : List FunctionDecl → List Nat
  | [] => []
  | m :: ms => m.refs ++ methodsRefs ms

end

theorem FunctionDecl.refs_eq (decl : FunctionDecl) : decl.refs = itemsRefs decl.body := by
  cases decl
  rfl

/-- The references of a function of a program are references of the program. -/
theorem refs_inside {items : List Item} {d : FunctionDecl} (h : d ∈ declarationsIn items) :
    d.refs ⊆ itemsRefs items := by
  have hrefs : Inherited (·.refs ⊆ itemsRefs items) (itemsRefs · ⊆ itemsRefs items)
      (·.refs ⊆ itemsRefs items) (methodsRefs · ⊆ itemsRefs items) := by
    constructor <;> simp +contextual [Item.refs, itemsRefs, FunctionDecl.refs_eq, methodsRefs]
  exact hrefs.inItems items (List.Subset.refl _) d h

/-! ## Tables that agree -/

/-- The second table has under every new id what the first has under the old one. -/
def AgreeOn (f : Nat → Nat) (d d' : Distances) (ids : List Nat) : Prop :=
  ∀ id ∈ ids, d'.get? (f id) = d.get? id

/-- A renumbering that keeps the distances of references and pairs declarations with their
    renumbered forms. -/
structure Carries (P : Pairing) (d d' : Distances) (f : Nat → Nat) (ids : List Nat)
    (decls : List FunctionDecl) : Prop where
  agree : AgreeOn f d d' ids
  paired : ∀ decl ∈ decls, P decl (decl.renumber f)

/-- The second declaration is a renumbered form of the first, with the same distances. -/
def FunctionDecl.Like (P : Pairing) (d d' : Distances) (a a' : FunctionDecl) : Prop :=
  ∃ f, a' = a.renumber f ∧ Carries P d d' f (itemsRefs a.body) (declarationsIn a.body)

/-- All paired declarations are alike, and two of them are the same one in both runs or in neither. -/
structure Pairing.Fits (P : Pairing) (d d' : Distances) : Prop where
  like : ∀ {a a'}, P a a' → a.Like P d d' a'
  same : ∀ {a a' b b'}, P a a' → P b b' → a'.same b' = a.same b

variable {P : Pairing} {d d' : Distances} {f : Nat → Nat}

/-- Alike declarations have the same name and parameters. -/
theorem Pairing.Fits.faithful (h : P.Fits d d') : P.Faithful where
  name ha := by
    obtain ⟨f, rfl, -⟩ := h.like ha
    rw [FunctionDecl.renumber_eq]
  params ha := by
    obtain ⟨f, rfl, -⟩ := h.like ha
    rw [FunctionDecl.renumber_eq]
  same := h.same

section

variable {ids₁ ids₂ : List Nat} {ds₁ ds₂ : List FunctionDecl}

theorem AgreeOn.left (h : AgreeOn f d d' (ids₁ ++ ids₂)) : AgreeOn f d d' ids₁ :=
  fun id hid => h id (List.mem_append_left _ hid)

theorem AgreeOn.right (h : AgreeOn f d d' (ids₁ ++ ids₂)) : AgreeOn f d d' ids₂ :=
  fun id hid => h id (List.mem_append_right _ hid)

theorem AgreeOn.head {id : Nat} (h : AgreeOn f d d' (id :: ids₁)) : d'.get? (f id) = d.get? id :=
  h id (.head _)

theorem AgreeOn.tail {id : Nat} (h : AgreeOn f d d' (id :: ids₁)) : AgreeOn f d d' ids₁ :=
  fun id hid => h id (.tail _ hid)

/-- A part in front that declares nothing is left out. -/
theorem Carries.behind (h : Carries P d d' f (ids₁ ++ ids₂) ds₁) : Carries P d d' f ids₂ ds₁ :=
  ⟨h.agree.right, h.paired⟩

/-- A part at the end that declares nothing is left out. -/
theorem Carries.before (h : Carries P d d' f (ids₁ ++ ids₂) ds₁) : Carries P d d' f ids₁ ds₁ :=
  ⟨h.agree.left, h.paired⟩

theorem Carries.left (h : Carries P d d' f (ids₁ ++ ids₂) (ds₁ ++ ds₂)) : Carries P d d' f ids₁ ds₁ :=
  ⟨h.agree.left, fun decl hd => h.paired decl (List.mem_append_left _ hd)⟩

theorem Carries.right (h : Carries P d d' f (ids₁ ++ ids₂) (ds₁ ++ ds₂)) : Carries P d d' f ids₂ ds₂ :=
  ⟨h.agree.right, fun decl hd => h.paired decl (List.mem_append_right _ hd)⟩

end

/-- The methods of a class are paired with their renumbered forms. -/
theorem methods_paired : ∀ (ms : List FunctionDecl),
    (∀ decl ∈ declarationsInMethods ms, P decl (decl.renumber f)) →
    List.Forall₂ P ms (methodsRenumber f ms)
  | [], _ => .nil
  | m :: ms, hP =>
    .cons (hP m (List.mem_append_left _ (FunctionDecl.mem_declarations m)))
      (methods_paired ms fun decl hd => hP decl (List.mem_append_right _ hd))

theorem FunctionDecl.like_renumber (decl : FunctionDecl) (h : AgreeOn f d d' decl.refs)
    (hP : ∀ inner ∈ decl.declarations, P inner (inner.renumber f)) :
    decl.Like P d d' (decl.renumber f) := by
  rw [refs_eq] at h
  rw [declarations_eq] at hP
  exact ⟨f, rfl, h, fun inner hi => hP inner (.tail _ hi)⟩

/-! ## Code -/

/-- The instruction has a declaration in it. -/
def Op.declares : Op → Bool
  | .function _ | .class _ _ | .constant (.callable (.closure _)) => true
  | _ => false

theorem Op.declares_constant {v : Value} (h : v.Plain) : (Op.constant v).declares = false := by
  cases v with
  | callable c =>
    cases c with
    | closure _ => exact h.elim
    | _ => rfl
  | _ => rfl

/-- Instructions that are the same but for the declarations in them, which are paired. -/
inductive Op.Like (P : Pairing) : Op → Op → Prop where
  | same {op : Op} (h : op.declares = false) : Like P op op
  | function {decl decl' : FunctionDecl} (hd : P decl decl') : Like P (.function decl) (.function decl')
  | class (name : String) {ms ms' : List FunctionDecl} (hms : List.Forall₂ P ms ms') :
    Like P (.class name ms) (.class name ms')

/-- Alike instructions from the same place. -/
structure Instr.Like (P : Pairing) (i i' : Instr) : Prop where
  op : i.op.Like P i'.op
  span : i'.span = i.span

/-- Alike sequences of instructions. -/
abbrev CodeLike (P : Pairing) : List Instr → List Instr → Prop := List.Forall₂ (Instr.Like P)

namespace CodeLike

variable {code₁ code₁' code₂ code₂' : List Instr}

theorem append (h₁ : CodeLike P code₁ code₁') (h₂ : CodeLike P code₂ code₂') :
    CodeLike P (code₁ ++ code₂) (code₁' ++ code₂') :=
  List.rel_append h₁ h₂

/-- An instruction without a declaration in front of alike code. -/
theorem cons {op : Op} (h : op.declares = false) (span : Span) (hrest : CodeLike P code₁ code₁') :
    CodeLike P (⟨op, span⟩ :: code₁) (⟨op, span⟩ :: code₁') :=
  List.Forall₂.cons ⟨.same h, rfl⟩ hrest

theorem one {op : Op} (h : op.declares = false) (span : Span) :
    CodeLike P [⟨op, span⟩] [⟨op, span⟩] :=
  cons h span .nil

/-- Alike code, and then one instruction without a declaration. -/
theorem snoc (h₁ : CodeLike P code₁ code₁') {op : Op} (h : op.declares = false) (span : Span) :
    CodeLike P (code₁ ++ [⟨op, span⟩]) (code₁' ++ [⟨op, span⟩]) :=
  h₁.append (one h span)

end CodeLike

mutual

/-- A renumbered expression has alike code. -/
theorem Expr.code_renumber : ∀ e : Expr, AgreeOn f d d' e.ids →
    YieldAlike (CodeLike P) (exprCode d e) (exprCode d' (e.renumber f))
  | .literal value span, _ => by
    have hinert := Value.ofLiteral_inert value
    show YieldAlike (CodeLike P) (exprCode d (.literal value span)) (exprCode d' (.literal value span))
    unfold exprCode
    generalize Value.ofLiteral value = x at hinert ⊢
    cases x with
    | ok v => exact .ok (.one (Op.declares_constant hinert.plain) span)
    | error c => exact .error _
  | .list elements span, h => by
    unfold Expr.renumber exprCode
    refine (exprsCode_renumber elements h).bind fun _ _ hcode => ?_
    rw [exprsRenumber_length]
    exact .ok (hcode.append (.cons rfl _ (.one rfl _)))
  | .name ident span, h | .this ident span, h => by
    unfold Expr.renumber exprCode Ident.renumber
    rw [h.head]
    exact .ok (.one rfl _)
  | .assign target value span, h => by
    unfold Expr.renumber exprCode Ident.renumber
    refine (value.code_renumber h.tail).bind fun _ _ hcode => ?_
    rw [h.head]
    exact .ok (hcode.snoc rfl _)
  | .unary op operand span, h =>
    (operand.code_renumber h).bind fun _ _ hcode => .ok (hcode.snoc rfl _)
  | .binary left op right span, h =>
    (left.code_renumber h.left).bind fun _ _ hl => (right.code_renumber h.right).bind fun _ _ hr =>
      .ok ((hl.append hr).snoc rfl _)
  | .logical left op right span, h =>
    (left.code_renumber h.left).bind fun _ _ hl => (right.code_renumber h.right).bind fun _ _ hr =>
      .ok ((hl.append hr).snoc rfl _)
  | .group inner span, h => by
    unfold Expr.renumber exprCode
    exact inner.code_renumber h
  | .call callee args span, h => by
    unfold Expr.renumber exprCode
    refine (exprsCode_renumber args h.right).bind fun _ _ hca => ?_
    refine (callee.code_renumber h.left).bind fun _ _ hcf => ?_
    rw [exprsRenumber_length]
    exact .ok ((hca.append hcf).snoc rfl _)
  | .getField object field span, h =>
    (object.code_renumber h).bind fun _ _ hcode => .ok (hcode.snoc rfl _)
  | .setField object field value span, h =>
    (object.code_renumber h.left).bind fun _ _ ho => (value.code_renumber h.right).bind fun _ _ hv =>
      .ok ((ho.append hv).snoc rfl _)
  | .super ident method span, h => by
    unfold Expr.renumber exprCode Ident.renumber
    rw [h.head]
    cases d.get? ident.id with
    | some depth => exact .ok (.one rfl _)
    | none => exact .error _

theorem exprsCode_renumber : ∀ es : List Expr, AgreeOn f d d' (exprsIds es) →
    YieldAlike (CodeLike P) (exprsCode d es) (exprsCode d' (exprsRenumber f es))
  | [], _ => .ok .nil
  | e :: es, h =>
    (e.code_renumber h.left).bind fun _ _ hfirst => (exprsCode_renumber es h.right).bind fun _ _ hrest =>
      .ok (hfirst.append hrest)

end

/-- The value that a variable starts with. -/
theorem initCode_renumber (span : Span) (init : Option Expr) (h : AgreeOn f d d' (optionIds init)) :
    YieldAlike (CodeLike P) (initCode d span init) (initCode d' span (init.map (·.renumber f))) := by
  cases init with
  | some e => exact e.code_renumber h
  | none => exact .ok (.one rfl span)

/-- The last part of a round of a loop. -/
theorem incrementCode_renumber (inc : Option Expr) (h : AgreeOn f d d' (optionIds inc)) :
    YieldAlike (CodeLike P) (incrementCode d inc) (incrementCode d' (inc.map (·.renumber f))) := by
  cases inc with
  | some e =>
    refine (e.code_renumber (P := P) h).bind fun _ _ hcode => ?_
    rw [e.renumber_span]
    exact .ok (hcode.snoc rfl _)
  | none => exact .ok .nil

/-- The reference to a superclass. -/
theorem superclassCode_renumber (span : Span) (p : Option Ident)
    (h : AgreeOn f d d' (p.map (·.id)).toList) :
    CodeLike P (superclassCode d span p) (superclassCode d' span (p.map (·.renumber f))) := by
  cases p with
  | some i =>
    unfold superclassCode Option.map Ident.renumber
    dsimp only
    rw [h.head]
    exact .cons rfl _ (.one rfl _)
  | none => exact .one rfl _

/-! ### Sizes -/

mutual

/-- A renumbered expression has as many instructions. -/
theorem Expr.size_renumber : ∀ e : Expr, (e.renumber f).size = e.size
  | .literal _ _ | .name _ _ | .this _ _ | .super _ _ _ => rfl
  | .list elements _ => congrArg (· + 2) (exprsSize_renumber elements)
  | .assign _ e _ | .unary _ e _ | .getField e _ _ => congrArg (· + 1) e.size_renumber
  | .binary l _ r _ | .logical l _ r _ | .setField l _ r _ => by
    rw [Expr.renumber, Expr.size, Expr.size, l.size_renumber, r.size_renumber]
  | .group inner _ => inner.size_renumber
  | .call callee args _ => by
    rw [Expr.renumber, Expr.size, Expr.size, callee.size_renumber, exprsSize_renumber args]

theorem exprsSize_renumber : ∀ es : List Expr, exprsSize (exprsRenumber f es) = exprsSize es
  | [] => rfl
  | e :: es => congrArg₂ (· + ·) e.size_renumber (exprsSize_renumber es)

end

theorem incrementSize_renumber (inc : Option Expr) :
    incrementSize (inc.map (·.renumber f)) = incrementSize inc := by
  cases inc with
  | some e => exact congrArg (· + 1) e.size_renumber
  | none => rfl

mutual

/-- A renumbered item has as many instructions. -/
theorem Item.size_renumber : ∀ (i : Item) (unwind : Nat), (i.renumber f).size unwind = i.size unwind
  | .expr e _, _ | .assert e _ _, _ | .assertFails e _ _, _ | .return (some e) _, _ | .var _ (some e) _, _ => by
    simp only [Item.renumber, Item.size, Option.map_some, initSize, e.size_renumber]
  | .var _ none _, _ | .return none _, _ | .break _, _ | .continue _, _ | .function _ _, _ => rfl
  | .class _ none _ _, _ | .class _ (some _) _ _, _ => rfl
  | .block items _, _ => congrArg (· + 2) (itemsSize_renumber items _)
  | .ifThen c t _, unwind => by
    rw [Item.renumber, Item.size, Item.size, c.size_renumber, t.size_renumber]
  | .ifElse c t e _, unwind => by
    rw [Item.renumber, Item.size, Item.size, c.size_renumber, t.size_renumber, e.size_renumber]
  | .while c body inc _, _ => by
    rw [Item.renumber, Item.size, Item.size, c.size_renumber, body.size_renumber,
      incrementSize_renumber inc]
  | .repeat c body _, _ => by
    rw [Item.renumber, Item.size, Item.size, c.size_renumber, body.size_renumber]

theorem itemsSize_renumber : ∀ (is : List Item) (unwind : Nat),
    itemsSize unwind (itemsRenumber f is) = itemsSize unwind is
  | [], _ => rfl
  | i :: is, unwind => congrArg₂ (· + ·) (i.size_renumber unwind) (itemsSize_renumber is unwind)

end

/-! ### Items -/

theorem Surroundings.leave_like (c : Surroundings) (target : Option Nat) (span : Span) :
    CodeLike P (c.leave target span) (c.leave target span) := by
  unfold Surroundings.leave
  dsimp only
  split
  · exact .one rfl _
  · exact .cons rfl _ (.one rfl _)

theorem Surroundings.bareReturn_like (c : Surroundings) (span : Span) :
    CodeLike P (c.bareReturn span) (c.bareReturn span) := by
  unfold Surroundings.bareReturn
  dsimp only
  split
  · exact .cons rfl _ (.one rfl _)
  · exact .cons rfl _ (.one rfl _)

mutual

/-- A renumbered item has alike code. -/
theorem Item.code_renumber : ∀ (i : Item) (c : Surroundings) (offset : Nat),
    Carries P c.distances d' f i.refs i.declarations →
    YieldAlike (CodeLike P) (itemCode c offset i) (itemCode { c with distances := d' } offset (i.renumber f))
  | .expr e span, _, _, h => (e.code_renumber h.agree).bind fun _ _ hcode => .ok (hcode.snoc rfl _)
  | .var name init span, _, _, h =>
    (initCode_renumber span init h.agree).bind fun _ _ hcode => .ok (hcode.snoc rfl _)
  | .block items span, c, offset, h =>
    (itemsCode_renumber items c.inScope (offset + 1) h).bind fun _ _ hcode =>
      .ok (.cons rfl _ (hcode.snoc rfl _))
  | .ifThen condition thenItem span, c, offset, h => by
    unfold Item.renumber itemCode
    refine (condition.code_renumber (P := P) h.agree.left).bind fun test _ htest => ?_
    rw [← htest.length_eq, condition.renumber_span]
    refine (thenItem.code_renumber c _ h.behind).bind fun thenCode _ hthen => ?_
    rw [← hthen.length_eq]
    exact .ok (((htest.append (.cons rfl _ (.one rfl _))).append hthen).append
      (.cons rfl _ (.one rfl _)))
  | .ifElse condition thenItem elseItem span, c, offset, h => by
    unfold Item.renumber itemCode
    refine (condition.code_renumber (P := P) h.agree.left).bind fun test _ htest => ?_
    rw [← htest.length_eq, condition.renumber_span]
    refine (thenItem.code_renumber c _ h.behind.left).bind fun thenCode _ hthen => ?_
    rw [← hthen.length_eq]
    refine (elseItem.code_renumber c _ h.behind.right).bind fun elseCode _ helse => ?_
    rw [← helse.length_eq]
    exact .ok ((((htest.append (.cons rfl _ (.one rfl _))).append hthen).append
      (.cons rfl _ (.one rfl _))).append helse)
  | .while condition body increment span, c, offset, h => by
    unfold Item.renumber itemCode
    refine (condition.code_renumber (P := P) h.agree.left).bind fun test _ htest => ?_
    rw [← htest.length_eq, condition.renumber_span, body.size_renumber, incrementSize_renumber increment]
    refine (body.code_renumber (c.inLoop _ _) _ h.behind.before).bind fun bodyCode _ hbody => ?_
    refine (incrementCode_renumber (P := P) increment h.behind.agree.right).bind fun step _ hstep => ?_
    exact .ok ((((htest.append (.cons rfl _ (.one rfl _))).append hbody).append hstep).append
      (.cons rfl _ (.one rfl _)))
  | .repeat count body span, c, offset, h => by
    unfold Item.renumber itemCode
    refine (count.code_renumber (P := P) h.agree.left).bind fun counter _ hcounter => ?_
    rw [← hcounter.length_eq, count.renumber_span, body.size_renumber]
    refine (body.code_renumber (c.inLoop _ _) _ h.behind).bind fun bodyCode _ hbody => ?_
    exact .ok (((hcounter.snoc rfl _).append hbody).append
      (.cons rfl _ (.cons rfl _ (.cons rfl _ (.one rfl _)))))
  | .return (some e) span, _, _, h => by
    unfold Item.renumber itemCode
    exact (e.code_renumber h.agree).bind fun _ _ hcode => .ok (hcode.snoc rfl _)
  | .return none span, c, _, _ => .ok (c.bareReturn_like span)
  | .break span, c, _, _ => .ok (c.leave_like _ span)
  | .continue span, c, _, _ => .ok (c.leave_like _ span)
  | .assert condition message span, _, _, h =>
    (condition.code_renumber h.agree).bind fun _ _ hcode => .ok (hcode.snoc rfl _)
  | .assertFails e message span, _, offset, h => by
    unfold Item.renumber itemCode
    refine (e.code_renumber (P := P) h.agree).bind fun code _ hcode => ?_
    rw [← hcode.length_eq, e.renumber_span]
    exact .ok (.cons rfl _ (hcode.snoc rfl _))
  | .function decl span, _, _, h =>
    .ok (List.Forall₂.cons ⟨.function (h.paired decl decl.mem_declarations), rfl⟩ .nil)
  | .class name parent methods span, _, _, h =>
    .ok ((superclassCode_renumber span parent h.agree.left).append
      (List.Forall₂.cons ⟨.class name (methods_paired methods h.paired), rfl⟩ .nil))

/-- The code of items after one another. -/
theorem itemsCode_renumber : ∀ (is : List Item) (c : Surroundings) (offset : Nat),
    Carries P c.distances d' f (itemsRefs is) (declarationsIn is) →
    YieldAlike (CodeLike P) (itemsCode c offset is)
      (itemsCode { c with distances := d' } offset (itemsRenumber f is))
  | [], _, _, _ => .ok .nil
  | i :: is, c, offset, h => by
    unfold itemsRenumber itemsCode
    refine (i.code_renumber c offset h.left).bind fun code _ hcode => ?_
    rw [← hcode.length_eq]
    exact (itemsCode_renumber is c _ h.right).bind fun rest _ hrest => .ok (hcode.append hrest)

end

/-! ### Chunks -/

/-- Chunks with the same name, alike operations and the same places. -/
structure Chunk.Like (P : Pairing) (c c' : Chunk) : Prop where
  name : c'.name = c.name
  ops : Rows (Op.Like P) c.ops c'.ops
  spans : c'.spans = c.spans

theorem Chunk.Like.instr? {c c' : Chunk} (h : c.Like P c') (n : Nat) :
    Option.Rel (Instr.Like P) (c.instr? n) (c'.instr? n) := by
  unfold Chunk.instr? Chunk.span?
  rw [h.spans]
  obtain ⟨hx, hy⟩ | ⟨op, op', hx, hy, hop⟩ := rel_cases (h.ops.get? n)
  · rw [hx, hy]
    exact .none
  · rw [hx, hy]
    exact .some ⟨hop, rfl⟩

/-- Alike code is appended to alike chunks. -/
theorem Chunk.Like.addAll {c c' : Chunk} (h : c.Like P c') {is is' : List Instr} (his : CodeLike P is is') :
    (c.addAll is).Like P (c'.addAll is') := by
  induction his generalizing c c' with
  | nil => exact h
  | @cons i i' _ _ hi _ ih =>
    refine ih ⟨h.name, h.ops.push hi.op, ?_⟩
    show c'.spans.push i'.span = c.spans.push i.span
    rw [h.spans, hi.span]

theorem Chunk.like_addAll (name : String) {is is' : List Instr} (h : CodeLike P is is') :
    (Chunk.addAll { name } is).Like P (Chunk.addAll { name } is') :=
  Chunk.Like.addAll ⟨rfl, .empty, rfl⟩ h

theorem Op.Like.mono {Q : Pairing} (hPQ : ∀ a a', P a a' → Q a a') {op op' : Op}
    (h : op.Like P op') : op.Like Q op' := by
  cases h with
  | same hsame => exact .same hsame
  | function hd => exact .function (hPQ _ _ hd)
  | «class» name hms => exact .class name (hms.imp hPQ)

theorem Chunk.Like.mono {Q : Pairing} (hPQ : ∀ a a', P a a' → Q a a') {c c' : Chunk}
    (h : c.Like P c') : c.Like Q c' :=
  ⟨h.name, h.ops.mono fun _ _ hop => hop.mono hPQ, h.spans⟩

theorem Op.Like.unique (hP : Relator.RightUnique P) {op op₁ op₂ : Op} (h₁ : op.Like P op₁)
    (h₂ : op.Like P op₂) : op₁ = op₂ := by
  cases h₁ with
  | same hsame =>
    cases h₂ with
    | same _ => rfl
    | function _ => exact nomatch hsame
    | «class» _ _ => exact nomatch hsame
  | function hd₁ =>
    cases h₂ with
    | same hsame => exact nomatch hsame
    | function hd₂ => exact congrArg Op.function (hP hd₁ hd₂)
  | «class» name hms₁ =>
    cases h₂ with
    | same hsame => exact nomatch hsame
    | «class» _ hms₂ => exact congrArg (Op.class name) (hP.forall₂ hms₁ hms₂)

/-- If every declaration has one counterpart, so has every chunk. -/
theorem Chunk.Like.unique (hP : Relator.RightUnique P) {c c₁ c₂ : Chunk} (h₁ : c.Like P c₁)
    (h₂ : c.Like P c₂) : c₁ = c₂ := by
  obtain ⟨_, ops₁, spans₁⟩ := c₁
  obtain ⟨_, ops₂, spans₂⟩ := c₂
  obtain rfl := h₁.name.trans h₂.name.symm
  obtain rfl : spans₁ = spans₂ := h₁.spans.trans h₂.spans.symm
  refine congrArg (Chunk.mk _ · _) (Array.ext_getElem? fun i => ?_)
  have hi₁ := h₁.ops.get? i
  have hi₂ := h₂.ops.get? i
  generalize c.ops[i]? = x at hi₁ hi₂
  generalize ops₁[i]? = x₁ at hi₁ ⊢
  generalize ops₂[i]? = x₂ at hi₂ ⊢
  cases hi₁ with
  | none =>
    cases hi₂ with
    | none => rfl
  | some h₁ =>
    cases hi₂ with
    | some h₂ => exact congrArg some (h₁.unique hP h₂)

/-- A renumbered program has an alike chunk. -/
theorem programChunk_renumber (name : String) {items : List Item}
    (h : Carries P d d' f (itemsRefs items) (declarationsIn items)) :
    YieldAlike (Chunk.Like P) (programChunk d name items) (programChunk d' name (itemsRenumber f items)) :=
  (itemsCode_renumber items { distances := d } 0 h).bind fun _ _ hcode =>
    .ok (Chunk.like_addAll name hcode)

/-- Alike declarations have alike chunks. -/
theorem FunctionDecl.Like.chunk {a a' : FunctionDecl} (h : a.Like P d d' a') :
    YieldAlike (Chunk.Like P) (functionChunk d a) (functionChunk d' a') := by
  obtain ⟨f, rfl, hbody⟩ := h
  rw [renumber_eq]
  refine (itemsCode_renumber a.body { distances := d, initialiser := a.isInitialiser } 0 hbody).bind ?_
  intro _ _ hcode
  exact .ok (Chunk.like_addAll _ (hcode.append (Surroundings.bareReturn_like _ _)))

/-- The distances of its references determine the chunk of a declaration. -/
theorem functionChunk_renumber {d₁ d₂ : Distances} {decl : FunctionDecl}
    (h₁ : AgreeOn f d d₁ decl.refs) (h₂ : AgreeOn f d d₂ decl.refs) :
    functionChunk d₁ (decl.renumber f) = functionChunk d₂ (decl.renumber f) := by
  let P : Pairing := fun a a' => a' = a.renumber f
  have hP : Relator.RightUnique P := fun _ _ _ hb hc => hb.trans hc.symm
  have hlike₁ := (decl.like_renumber (P := P) h₁ fun _ _ => rfl).chunk
  have hlike₂ := (decl.like_renumber (P := P) h₂ fun _ _ => rfl).chunk
  generalize functionChunk d decl = x at hlike₁ hlike₂
  generalize functionChunk d₁ (decl.renumber f) = x₁ at hlike₁ ⊢
  generalize functionChunk d₂ (decl.renumber f) = x₂ at hlike₂ ⊢
  cases hlike₁ with
  | ok hc₁ =>
    cases hlike₂ with
    | ok hc₂ => exact congrArg Except.ok (hc₁.unique hP hc₂)
  | error e =>
    cases hlike₂ with
    | error _ => rfl

/-- The code of a function depends on the distances of its own names. -/
theorem functionChunk_congr {decl : FunctionDecl} (h : ∀ id ∈ decl.refs, d'.get? id = d.get? id) :
    functionChunk d' decl = functionChunk d decl := by
  have hsame := functionChunk_renumber (f := id) h fun _ _ => rfl
  rwa [FunctionDecl.renumber_id] at hsame

end Eleu
