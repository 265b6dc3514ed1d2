import Eleu.Proofs.Code.Origin
import Eleu.Proofs.Code.Shape

/-! # Generated code fits its shapes

    The code of a tree that follows the rules fits the shapes that `Expr.shapes` and `Item.shapes`
    give. The proof goes by the structure of the tree: an expression adds one value to the stack
    whatever its parts do, and an item leaves the stack as it found it. Jumps that leave a loop are
    right because the shapes at its exits are known where the loop begins: `Sits`.

    Main results: `Item.code_fits` for an item at any place, and `balanced_program` and
    `balanced_function` for whole chunks. -/

namespace Eleu

variable {chunk : Chunk} {role : Option FunctionRole} {name : String} {Γ : Context}

open Outcome

/-! ## Sizes -/

mutual

theorem Expr.length_heights : ∀ (e : Expr) (k : Nat), (e.heights k).length = e.size
  | .literal _ _, _ | .name _ _, _ | .this _ _, _ | .super _ _ _, _ => rfl
  | .list es _, k => by simp [Expr.heights, Expr.size, length_exprsHeights es]
  | .assign _ e _, k | .unary _ e _, k | .getField e _ _, k => by
    simp [Expr.heights, Expr.size, e.length_heights]
  | .binary l _ r _, k | .logical l _ r _, k | .setField l _ r _, k => by
    simp [Expr.heights, Expr.size, l.length_heights, r.length_heights, Nat.add_assoc]
  | .group e _, k => by simp [Expr.heights, Expr.size, e.length_heights]
  | .call f es _, k => by
    simp [Expr.heights, Expr.size, f.length_heights, length_exprsHeights es, Nat.add_assoc]

theorem length_exprsHeights : ∀ (es : List Expr) (k : Nat), (exprsHeights k es).length = exprsSize es
  | [], _ => rfl
  | e :: es, k => by simp [exprsHeights, exprsSize, e.length_heights, length_exprsHeights es]

end

/-- There is a shape for each instruction. -/
@[simp] theorem Expr.length_shapes (l : Shape) (e : Expr) : (e.shapes l).length = e.size := by
  simp [Expr.shapes, e.length_heights]

@[simp] theorem length_initShapes (l : Shape) (init : Option Expr) :
    (initShapes l init).length = initSize init := by
  cases init <;> simp [initShapes, initSize]

@[simp] theorem length_incrementShapes (l : Shape) (increment : Option Expr) :
    (incrementShapes l increment).length = incrementSize increment := by
  cases increment <;> simp [incrementShapes, incrementSize]

@[simp] theorem length_leaveShapes (unwind : Nat) (l : Shape) :
    (leaveShapes unwind l).length = leaveSize unwind := by
  unfold leaveShapes leaveSize
  split <;> rfl

mutual

/-- There is a shape for each instruction. -/
theorem Item.length_shapes : ∀ (i : Item) (unwind offset : Nat) (l : Shape),
    (i.shapes unwind offset l).length = i.size unwind
  | .expr _ _, _, _, _ | .var _ _ _, _, _, _ | .return (some _) _, _, _, _ | .return none _, _, _, _
  | .break _, _, _, _ | .continue _, _, _, _ | .assert _ _ _, _, _, _ | .assertFails _ _ _, _, _, _
  | .function _ _, _, _, _ | .class _ none _ _, _, _, _ | .class _ (some _) _ _, _, _, _ => by
    simp [Item.shapes, Item.size]
  | .block items _, _, _, _ => by simp [Item.shapes, Item.size, length_itemsShapes items]
  | .ifThen _ t _, _, _, _ => by
    simp [Item.shapes, Item.size, t.length_shapes]
    omega
  | .ifElse _ t e _, _, _, _ => by
    simp [Item.shapes, Item.size, t.length_shapes, e.length_shapes]
    omega
  | .while _ body _ _, _, _, _ | .repeat _ body _, _, _, _ => by
    simp [Item.shapes, Item.size, body.length_shapes]
    omega

theorem length_itemsShapes : ∀ (is : List Item) (unwind offset : Nat) (l : Shape),
    (itemsShapes unwind offset l is).length = itemsSize unwind is
  | [], _, _, _ => rfl
  | i :: is, _, _, _ => by
    simp [itemsShapes, itemsSize, i.length_shapes, length_itemsShapes is]

end

attribute [simp] Expr.length_heights length_exprsHeights Item.length_shapes length_itemsShapes

variable {d : Distances} {code : List Instr}

/-! ## Expressions -/

variable {R : Rules} {C : Nat → Option Instr} {L : Nat → Option Shape} {l : Shape} {n : Nat}
  {p : Option String}

/-- A frame of shape `l`, whatever values it has on top, is guarded from `n` on for `size`
    instructions. -/
def GuardedFor (C : Nat → Option Instr) (L : Nat → Option Shape) (l : Shape) (n size : Nat) : Prop :=
  ∀ a k, n ≤ a → a < n + size → Guarded C L a (l.push k)

theorem GuardedFor.sub {size m size' : Nat} (h : GuardedFor C L l n size) (hm : n ≤ m)
    (hs : m + size' ≤ n + size) : GuardedFor C L l m size' := fun a k ha hb =>
  h a k (Nat.le_trans hm ha) (Nat.lt_of_lt_of_le hb hs)

theorem guardedFor_of_free (h : l.guard = none) (n size : Nat) : GuardedFor C L l n size := by
  intro a k _ _ b hb
  rw [show (l.push k).guard = l.guard from rfl, h] at hb
  exact nomatch hb

mutual

/-- The code of an expression starts at the height it is given. -/
theorem Expr.head?_heights : ∀ (e : Expr) (k : Nat), (e.heights k).head? = some k
  | .literal _ _, _ | .name _ _, _ | .this _ _, _ | .super _ _ _, _ => rfl
  | .list [] _, k => rfl
  | .list (e :: es) _, k => by simp [Expr.heights, exprsHeights, e.head?_heights]
  | .assign _ e _, k | .unary _ e _, k | .getField e _ _, k | .binary e _ _ _, k
  | .logical e _ _ _, k | .setField e _ _ _, k => by simp [Expr.heights, e.head?_heights]
  | .group e _, k => by simp [Expr.heights, e.head?_heights]
  | .call f [] _, k => by simp [Expr.heights, exprsHeights, f.head?_heights]
  | .call _ (e :: es) _, k => by simp [Expr.heights, exprsHeights, e.head?_heights]

end

theorem Segment.head? {α : Type} {L : Nat → Option α} {n : Nat} {xs : List α} {x : α}
    (h : Segment L n xs) (hx : xs.head? = some x) : L n = some x := by
  cases xs with
  | nil => exact nomatch hx
  | cons y ys =>
    cases hx
    exact h.1

/-- The shape before an expression. -/
theorem Expr.shape_at {k : Nat} {e : Expr} (h : Segment L n ((e.heights k).map l.push)) :
    L n = some (l.push k) :=
  h.head? (by simp [e.head?_heights])

/-- The shape before expressions, of which there may be none. -/
theorem exprs_shape_at {k : Nat} {es : List Expr} (h : Segment L n ((exprsHeights k es).map l.push))
    (hx : L (n + exprsSize es) = some (l.push (k + es.length))) : L n = some (l.push k) := by
  cases es with
  | nil => exact hx
  | cons e es =>
    rw [exprsHeights, List.map_append, Segment.append] at h
    exact Expr.shape_at h.1

theorem fits_one {i : Instr} (hn : L n = some l) (hj : i.Joined C n l) (hi : i.Fits R L n l)
    (hg : Guarded C L n l) : FitsFrom R C L n [i] := ⟨⟨l, hn, hi, hj, hg⟩, trivial⟩

mutual

/-- The code of an expression takes a frame of shape `l` with `k` values on top to one with `k + 1`. -/
theorem Expr.code_fits (hl : l.Calm) : ∀ (e : Expr) {n k : Nat} {code : List Instr},
    exprCode d e = .ok code → e.Follows R d p l.scopes →
    Segment L n ((e.heights k).map l.push) → L (n + e.size) = some (l.push (k + 1)) →
    GuardedFor C L l n e.size → FitsFrom R C L n code
  | .literal value _, n, k, _, h, _, hs, hx, hg => by
    simp only [exprCode] at h
    split at h
    · rename_i v hv
      cases h
      have hp := Value.ofLiteral_inert value
      rw [hv] at hp
      exact fits_one hs.1 trivial ⟨hp, hl.push k, .inl hx⟩ (hg n k (Nat.le_refl _) (by simp [Expr.size]))
    · exact nomatch h
  | .name ident _, n, k, _, h, hf, hs, hx, hg | .this ident _, n, k, _, h, hf, hs, hx, hg => by
    cases h
    exact fits_one hs.1 trivial ⟨.inl ⟨p, ident, rfl, hf⟩, l.push k, hl.push k, rfl, hx⟩
      (hg n k (Nat.le_refl _) (by simp [Expr.size]))
  | .super ident _ _, n, k, _, h, hf, hs, hx, hg => by
    simp only [exprCode] at h
    split at h
    · rename_i depth hd
      cases h
      rw [Expr.Follows, hd] at hf
      exact fits_one hs.1 trivial ⟨⟨p, ident, hf⟩, l.push k, hl.push k, rfl, hx⟩
        (hg n k (Nat.le_refl _) (by simp [Expr.size]))
    · exact nomatch h
  | .list es _, n, k, _, h, hf, hs, hx, hg => by
    simp only [exprCode, except_bind_eq_ok, Except.ok.injEq] at h
    obtain ⟨c, hc, rfl⟩ := h
    simp only [Expr.heights, List.map_append, Segment.append, List.length_map,
      length_exprsHeights, List.map_cons, Segment.cons, List.map_nil] at hs
    obtain ⟨hes, h1, h2, -⟩ := hs
    simp only [Expr.size] at hx hg
    rw [FitsFrom.append, length_exprsCode es hc]
    refine ⟨exprsCode_fits hl es hc hf hes h1 (hg.sub (Nat.le_refl _) (by omega)),
      ⟨_, h1, ⟨trivial, hl.push _, .inl h2⟩, trivial, hg _ _ (by omega) (by omega)⟩,
      fits_one h2 trivial ⟨l.push k, hl.push k, ?_, hx⟩ (hg _ _ (by omega) (by omega))⟩
    rw [Shape.push_push, Nat.add_assoc]
  | .assign target e _, n, k, _, h, hf, hs, hx, hg => by
    simp only [exprCode, except_bind_eq_ok, Except.ok.injEq] at h
    obtain ⟨c, hc, rfl⟩ := h
    simp only [Expr.heights, List.map_append, Segment.append, List.length_map,
      Expr.length_heights, List.map_cons, Segment.cons, List.map_nil] at hs
    obtain ⟨he, h1, -⟩ := hs
    simp only [Expr.size] at hx hg
    rw [FitsFrom.append, e.length_code hc]
    exact ⟨e.code_fits hl hc hf.2.1 he h1 (hg.sub (Nat.le_refl _) (by omega)),
      fits_one h1 trivial ⟨hf.1, ⟨p, target, rfl, hf.2.2⟩, l.push k, hl.push k, by rw [Shape.push_push], hx⟩
        (hg _ _ (by omega) (by omega))⟩
  | .unary _ e _, n, k, _, h, hf, hs, hx, hg | .getField e _ _, n, k, _, h, hf, hs, hx, hg => by
    simp only [exprCode, except_bind_eq_ok, Except.ok.injEq] at h
    obtain ⟨c, hc, rfl⟩ := h
    simp only [Expr.heights, List.map_append, Segment.append, List.length_map,
      Expr.length_heights, List.map_cons, Segment.cons, List.map_nil] at hs
    obtain ⟨he, h1, -⟩ := hs
    simp only [Expr.size] at hx hg
    rw [FitsFrom.append, e.length_code hc]
    exact ⟨e.code_fits hl hc hf he h1 (hg.sub (Nat.le_refl _) (by omega)),
      fits_one h1 trivial ⟨l.push k, hl.push k, by rw [Shape.push_push], hx⟩
        (hg _ _ (by omega) (by omega))⟩
  | .binary a _ b _, n, k, _, h, hf, hs, hx, hg | .logical a _ b _, n, k, _, h, hf, hs, hx, hg
  | .setField a _ b _, n, k, _, h, hf, hs, hx, hg => by
    simp only [exprCode, except_bind_eq_ok, Except.ok.injEq] at h
    obtain ⟨c, hc, c', hc', rfl⟩ := h
    simp only [Expr.heights, List.map_append, Segment.append, List.length_map, List.length_append,
      Expr.length_heights, List.map_cons, Segment.cons, List.map_nil, ← Nat.add_assoc] at hs
    obtain ⟨⟨ha, hb⟩, h1, -⟩ := hs
    simp only [Expr.size, ← Nat.add_assoc] at hx hg
    rw [FitsFrom.append, FitsFrom.append, List.length_append, a.length_code hc,
      b.length_code hc', ← Nat.add_assoc]
    exact ⟨⟨a.code_fits hl hc hf.1 ha (Expr.shape_at hb) (hg.sub (Nat.le_refl _) (by omega)),
        b.code_fits hl hc' hf.2 hb h1 (hg.sub (by omega) (by omega))⟩,
      fits_one h1 trivial ⟨l.push k, hl.push k, by rw [Shape.push_push], hx⟩
        (hg _ _ (by omega) (by omega))⟩
  | .group e _, n, k, _, h, hf, hs, hx, hg => e.code_fits hl h hf hs hx hg
  | .call f es _, n, k, _, h, hf, hs, hx, hg => by
    simp only [exprCode, except_bind_eq_ok, Except.ok.injEq] at h
    obtain ⟨c, hc, c', hc', rfl⟩ := h
    simp only [Expr.heights, List.map_append, Segment.append, List.length_map, List.length_append,
      Expr.length_heights, length_exprsHeights, List.map_cons, Segment.cons, List.map_nil,
      ← Nat.add_assoc] at hs
    obtain ⟨⟨hes, hb⟩, h1, -⟩ := hs
    simp only [Expr.size, ← Nat.add_assoc] at hx hg
    rw [FitsFrom.append, FitsFrom.append, List.length_append, length_exprsCode es hc,
      f.length_code hc', ← Nat.add_assoc]
    refine ⟨⟨exprsCode_fits hl es hc hf.1 hes (Expr.shape_at hb)
          (hg.sub (Nat.le_refl _) (by omega)),
        f.code_fits hl hc' hf.2 hb h1 (hg.sub (by omega) (by omega))⟩,
      fits_one h1 trivial ⟨l.push k, hl.push k, ?_, hx⟩ (hg _ _ (by omega) (by omega))⟩
    rw [Shape.push_push, Nat.add_assoc]

/-- The code of expressions adds one value for each of them. -/
theorem exprsCode_fits (hl : l.Calm) : ∀ (es : List Expr) {n k : Nat} {code : List Instr},
    exprsCode d es = .ok code → exprsFollow R d p l.scopes es →
    Segment L n ((exprsHeights k es).map l.push) →
    L (n + exprsSize es) = some (l.push (k + es.length)) →
    GuardedFor C L l n (exprsSize es) → FitsFrom R C L n code
  | [], _, _, _, h, _, _, _, _ => by
    cases h
    trivial
  | e :: es, n, k, _, h, hf, hs, hx, hg => by
    simp only [exprsCode, except_bind_eq_ok, Except.ok.injEq] at h
    obtain ⟨c, hc, c', hc', rfl⟩ := h
    simp only [exprsHeights, List.map_append, Segment.append, List.length_map,
      Expr.length_heights] at hs
    have hx' : L (n + e.size + exprsSize es) = some (l.push (k + 1 + es.length)) := by
      rw [Nat.add_assoc, Nat.add_assoc k, Nat.add_comm 1]
      exact hx
    simp only [exprsSize] at hg
    rw [FitsFrom.append, e.length_code hc]
    exact ⟨e.code_fits hl hc hf.1 hs.1 (exprs_shape_at hs.2 hx')
        (hg.sub (Nat.le_refl _) (by omega)),
      exprsCode_fits hl es hc' hf.2 hs.2 hx' (hg.sub (by omega) (by omega))⟩

end

/-! ## Items -/

/-- An expression between two items. -/
theorem Expr.code_fits_free (hl : l.Free) (e : Expr) (hc : exprCode d e = .ok code)
    (hf : e.Follows R d p l.scopes) (hs : Segment L n (e.shapes l))
    (hx : L (n + e.size) = some (l.push 1)) : FitsFrom R C L n code :=
  e.code_fits hl.toCalm hc hf hs hx (guardedFor_of_free hl.guard _ _)

theorem guarded_of_free (h : l.guard = none) : Guarded C L n l := fun b hb => by
  rw [h] at hb
  exact nomatch hb

/-- An instruction between two items. -/
theorem fits_one_free {i : Instr} (hn : L n = some l) (hg : l.guard = none) (hj : i.Joined C n l)
    (hi : i.Fits R L n l) : FitsFrom R C L n [i] := fits_one hn hj hi (guarded_of_free hg)

/-- What the place of an item gives its code: between two items, in a call if the item may return,
    inside the initialiser of an instance if the code returns one, and with the shapes of the exits
    of the innermost loop as they are once the scopes inside it are left. -/
structure Sits (R : Rules) (L : Nat → Option Shape) (c : Surroundings) (role : Option FunctionRole)
    (loop : Bool) (l : Shape) : Prop where
  free : l.Free
  call : l.call = role.isSome
  this : c.initialiser = true → R.returns l.scopes (c.scopes + 1)
  initialises : l.initialises = true →
    c.initialiser = true ∧ role = some .initialiser ∧ l.scopes.length = c.scopes
  nested : c.Nested
  exits : loop = true → ∃ x, c.innermost = some x ∧ c.unwind ≤ l.scopes.blocks
    ∧ L x.breakTo = some (l.leave c.unwind) ∧ L x.continueTo = some (l.leave c.unwind)

/-- The names that an item declares are not reserved. -/
theorem Item.Follows.not_reserved {i : Item} {loop : Bool} (h : i.Follows R d role loop Γ)
    (hn : i.declared? = some name) : ¬ Reserved name := by
  cases i with
  | var v init span =>
    cases hn
    exact R.named h.1
  | function decl span =>
    cases hn
    exact (FunctionDecl.follows_iff.1 h.2).2.1
  | «class» c parent methods span =>
    cases hn
    exact R.named h.1
  | _ => exact nomatch hn

namespace Sits

variable {c : Surroundings} {role : Option FunctionRole} {loop : Bool}

/-- Behind an item that sits well. -/
theorem past (h : Sits R L c role loop l) (hR : R.Stable) {i : Item}
    (hi : i.Follows R d role loop l.scopes) (hu : loop = true → 1 ≤ c.unwind) :
    Sits R L c role loop (l.past i) := by
  refine ⟨⟨⟨h.free.flag, h.free.floor⟩, h.free.guard, h.free.bare⟩, h.call, fun hc => ?_,
    fun hi => ?_, h.nested, fun hl => ?_⟩
  · show R.returns (i.after l.scopes) _
    unfold Item.after
    split
    · rename_i name hn
      exact hR.declare (hi.not_reserved hn) (h.this hc)
    · exact h.this hc
  · obtain ⟨hinit, hrole, hlen⟩ := h.initialises hi
    exact ⟨hinit, hrole, (i.length_after l.scopes).trans hlen⟩
  · obtain ⟨x, hx, hlen, hb, hk⟩ := h.exits hl
    -- only the innermost scope has changed, and the jump leaves it
    have hleave : (l.past i).leave c.unwind = l.leave c.unwind := by
      obtain ⟨u, hu⟩ : ∃ u, c.unwind = u + 1 := ⟨c.unwind - 1, by have := hu hl; omega⟩
      simp only [Shape.leave, Shape.past, hu, ← List.drop_tail, Item.tail_after]
    rw [hleave]
    exact ⟨x, hx, by simpa [Shape.past] using hlen, hb, hk⟩

theorem inScope (h : Sits R L c role loop l) (hR : R.Stable) (span : Span) :
    Sits R L c.inScope role loop (l.enter (.block span)) := by
  refine ⟨⟨⟨h.free.flag, h.free.floor⟩, h.free.guard, h.free.bare⟩, h.call,
    fun hc => hR.enter _ (h.this hc), fun hi => ?_, h.nested.inScope, fun hl => ?_⟩
  · obtain ⟨hinit, hrole, hlen⟩ := h.initialises hi
    exact ⟨hinit, hrole, congrArg (· + 1) hlen⟩
  obtain ⟨x, hx, hlen, hb, hk⟩ := h.exits hl
  rw [h.nested.unwind_inScope]
  exact ⟨x, hx, Nat.succ_le_succ hlen, hb, hk⟩

theorem inLoop (h : Sits R L c role loop l) {breakTo continueTo : Nat} (k : Nat)
    (hb : L breakTo = some (l.push k)) (hc : L continueTo = some (l.push k)) :
    Sits R L (c.inLoop breakTo continueTo) role true (l.push k) := by
  refine ⟨h.free.push k, h.call, h.this, h.initialises, c.nested_inLoop _ _, fun _ => ⟨_, rfl, ?_⟩⟩
  rw [Surroundings.unwind_inLoop]
  exact ⟨Nat.zero_le _, hb, hc⟩

/-- A jump out of the loop, to where the shapes are those of its exits. -/
theorem leave (h : Sits R L c role loop l) {target : Option Nat} {t : Nat} (span : Span)
    (ht : target = some t) (hu : c.unwind ≤ l.scopes.blocks) (hx : L t = some (l.leave c.unwind))
    (hs : Segment L n (leaveShapes c.unwind l)) : FitsFrom R C L n (c.leave target span) := by
  subst ht
  unfold Surroundings.leave leaveShapes at *
  dsimp only
  split at hs
  · rename_i h0
    rw [h0] at hx
    rw [if_pos h0]
    exact fits_one_free hs.1 h.free.guard trivial ⟨h.free.toCalm, hx⟩
  · rename_i h0
    rw [if_neg h0]
    exact ⟨⟨l, hs.1, ⟨h.free, hu, hs.2.1⟩, trivial, guarded_of_free h.free.guard⟩,
      fits_one_free hs.2.1 h.free.guard trivial ⟨⟨h.free.flag, h.free.floor⟩, hx⟩⟩

/-- A return without a value. -/
theorem bareReturn (h : Sits R L c role loop l) (span : Span) (hr : role.isSome)
    (hC : Segment C n (c.bareReturn span)) (hs : Segment L n [l, l.push 1]) :
    FitsFrom R C L n (c.bareReturn span) := by
  obtain ⟨h0, h1, -⟩ := hs
  have hret : FitsFrom R C L (n + 1) [⟨.return, span⟩] := by
    refine fits_one_free h1 h.free.guard (fun hi => ?_) ⟨h.call.trans hr, l, h.free, rfl⟩
    obtain ⟨hinit, -, hlen⟩ := h.initialises hi
    have hthis := hC.1
    rw [if_pos hinit, ← hlen] at hthis
    exact ⟨n, span, rfl, hthis⟩
  unfold Surroundings.bareReturn
  cases hc : c.initialiser with
  | true =>
    exact ⟨⟨l, h0, ⟨.inr ⟨_, rfl, rfl, h.this hc⟩, l, h.free.toCalm, rfl, h1⟩, trivial,
      guarded_of_free h.free.guard⟩, hret⟩
  | false =>
    exact ⟨⟨l, h0, ⟨trivial, h.free.toCalm, .inl h1⟩, trivial, guarded_of_free h.free.guard⟩, hret⟩

end Sits

theorem MayReturn.isSome {value : Option Expr} (h : MayReturn value role) : role.isSome := by
  cases role with
  | none => exact h.elim
  | some r => rfl

@[simp] theorem Expr.head?_shapes (e : Expr) (l : Shape) : (e.shapes l).head? = some l := by
  simp [Expr.shapes, e.head?_heights]

@[simp] theorem Item.head?_shapes (i : Item) (unwind offset : Nat) (l : Shape) :
    (i.shapes unwind offset l).head? = some l := by
  cases i with
  | var name init span => cases init <;> simp [Item.shapes, initShapes]
  | «return» value span => cases value <;> simp [Item.shapes]
  | «class» name parent methods span => cases parent <;> simp [Item.shapes]
  | «break» span | «continue» span => simp [Item.shapes, leaveShapes]; split <;> rfl
  | _ => simp [Item.shapes]

/-- The shape after items. -/
def Shape.pastAll (l : Shape) (is : List Item) : Shape := { l with scopes := itemsAfter is l.scopes }

/-- The shape before items, of which there may be none. -/
theorem items_shape_at {is : List Item} {unwind : Nat}
    (hs : Segment L n (itemsShapes unwind n l is))
    (hx : L (n + itemsSize unwind is) = some (l.pastAll is)) : L n = some l := by
  cases is with
  | nil => exact hx
  | cons i is =>
    rw [itemsShapes, Segment.append] at hs
    exact hs.1.head? (by simp)

theorem Shape.past_eq {i : Item} (h : i.declared? = none) (l : Shape) : l.past i = l := by
  simp [Shape.past, Item.after, h]

/-- The test of a branch or a loop at `n`: the condition, a jump to `target` if it fails, and the
    removal of its value. -/
theorem test_fits (hl : l.Free) (e : Expr) {target : Nat} {s₁ s₂ : Span}
    (hc : exprCode d e = .ok code) (hf : e.Follows R d none l.scopes)
    (he : Segment L n (e.shapes l)) (hs : Segment L (n + e.size) [l.push 1, l.push 1])
    (hx : L (n + e.size + 2) = some l) (ht : L target = some (l.push 1)) :
    FitsFrom R C L n code
      ∧ FitsFrom R C L (n + e.size) [⟨.jumpIfFalse target, s₁⟩, ⟨.pop, s₂⟩] := by
  obtain ⟨h1, h2, -⟩ := hs
  exact ⟨e.code_fits_free hl hc hf he h1,
    ⟨_, h1, ⟨⟨l, hl.toCalm, rfl, h2⟩, ht⟩, trivial, guarded_of_free hl.guard⟩,
    fits_one_free h2 hl.guard trivial ⟨l, hl.toCalm, rfl, hx⟩⟩

/-- The end of a branch or a loop at `n`: a jump to `target`, and where the test jumps to, the removal
    of its value. -/
theorem close_fits (hl : l.Free) {target : Nat} {s₁ s₂ : Span} (hs : Segment L n [l, l.push 1])
    (ht : L target = some l) (hx : L (n + 2) = some l) :
    FitsFrom R C L n [⟨.jump target, s₁⟩, ⟨.pop, s₂⟩] :=
  ⟨⟨l, hs.1, ⟨hl.toCalm, ht⟩, trivial, guarded_of_free hl.guard⟩,
    fits_one_free hs.2.1 hl.guard trivial ⟨l, hl.toCalm, rfl, hx⟩⟩

variable {c : Surroundings} {role : Option FunctionRole} {loop : Bool}

theorem initCode_fits (hl : l.Free) {init : Option Expr} {span : Span}
    (hc : initCode d span init = .ok code) (hf : ∀ e ∈ init, e.Follows R d p l.scopes)
    (hs : Segment L n (initShapes l init)) (hx : L (n + initSize init) = some (l.push 1)) :
    FitsFrom R C L n code := by
  cases init with
  | none =>
    cases hc
    exact fits_one_free hs.1 hl.guard trivial ⟨trivial, hl.toCalm, .inl hx⟩
  | some e => exact e.code_fits_free hl hc (hf e rfl) hs hx

theorem incrementCode_fits (hl : l.Free) {increment : Option Expr}
    (hc : incrementCode d increment = .ok code) (hf : ∀ e ∈ increment, e.Follows R d p l.scopes)
    (hs : Segment L n (incrementShapes l increment))
    (hx : L (n + incrementSize increment) = some l) : FitsFrom R C L n code := by
  cases increment with
  | none =>
    cases hc
    trivial
  | some e =>
    simp only [incrementCode, except_bind_eq_ok, Except.ok.injEq] at hc
    obtain ⟨a, ha, rfl⟩ := hc
    simp only [incrementShapes, Segment.append, Expr.length_shapes, Segment.cons] at hs
    rw [FitsFrom.append, e.length_code ha]
    exact ⟨e.code_fits_free hl ha (hf e rfl) hs.1 hs.2.1,
      fits_one_free hs.2.1 hl.guard trivial ⟨l, hl.toCalm, rfl, hx⟩⟩

/-- The expression whose fault is awaited stands between the two instructions that watch it. -/
theorem assertFails_fits (hl : l.Free) (e : Expr) {message : Option String} {s₁ s₂ : Span}
    (hc : exprCode d e = .ok code) (hf : e.Follows R d p l.scopes)
    (hC : Segment C n (⟨.failureBegin message (n + e.size + 2), s₁⟩ :: (code ++ [⟨.failureEnd, s₂⟩])))
    (hs : Segment L n (l :: (e.shapes (l.guarded n) ++ [(l.guarded n).push 1])))
    (hx : L (n + e.size + 2) = some l) :
    FitsFrom R C L n (⟨.failureBegin message (n + e.size + 2), s₁⟩ :: (code ++ [⟨.failureEnd, s₂⟩])) := by
  simp only [Segment.cons, Segment.append, Expr.length_shapes, e.length_code hc] at hs hC
  obtain ⟨h0, he, h1, -⟩ := hs
  obtain ⟨hb, -, hend, -⟩ := hC
  have hcalm : (l.guarded n).Calm := ⟨hl.flag, Nat.le_refl _⟩
  have hg : GuardedFor C L (l.guarded n) (n + 1) (e.size + 1) := by
    rintro a k ha hk b ⟨⟩
    have hcatch : n + e.size + 2 = n + 1 + e.size + 1 := by omega
    rw [hcatch] at hb hx
    exact ⟨l, message, s₁, s₂, n + 1 + e.size, hb, hend, ha, by omega, hl, h0, hx, rfl, rfl, rfl⟩
  refine ⟨⟨l, h0, ⟨hl, he.head? (by simp)⟩, trivial, guarded_of_free hl.guard⟩, ?_⟩
  have hnext : L (n + 1 + e.size + 1) = some l := by
    rw [show n + 1 + e.size + 1 = n + e.size + 2 by omega]
    exact hx
  rw [FitsFrom.append, e.length_code hc]
  exact ⟨e.code_fits hcalm hc hf he h1 (hg.sub (Nat.le_refl _) (by omega)),
    fits_one h1 trivial ⟨rfl, ⟨_, hcalm, rfl⟩, l, hnext, rfl, rfl⟩ (hg _ _ (by omega) (by omega))⟩

theorem methodsFollow.known {methods : List FunctionDecl} (h : methodsFollow R d Γ methods) :
    ∀ m ∈ methods, ¬ Reserved m.name ∧ m.kind = .method ∧ R.known m Γ := fun m hm => by
  obtain ⟨hk, hm⟩ := h.mem hm
  have hd := FunctionDecl.follows_iff.1 hm
  exact ⟨hd.2.1, hk, hd.1⟩

mutual

/-- The code of an item takes a frame of shape `l` to one that differs from it in the declared name
    only. -/
theorem Item.code_fits (hR : R.Stable) : ∀ (i : Item) {c : Surroundings} {n : Nat} {l : Shape}
    {role : Option FunctionRole} {loop : Bool} {code : List Instr},
    itemCode c n i = .ok code → i.Follows R c.distances role loop l.scopes →
    Sits R L c role loop l → Segment C n code → Segment L n (i.shapes c.unwind n l) →
    L (n + i.size c.unwind) = some (l.past i) → FitsFrom R C L n code
  | .expr e _, c, n, l, _, _, _, h, hf, hl, _, hs, hx
  | .assert e _ _, c, n, l, _, _, _, h, hf, hl, _, hs, hx => by
    simp only [itemCode, except_bind_eq_ok, Except.ok.injEq] at h
    obtain ⟨a, ha, rfl⟩ := h
    simp only [Item.shapes, Segment.append, Expr.length_shapes, Segment.cons] at hs
    rw [FitsFrom.append, e.length_code ha]
    exact ⟨e.code_fits_free hl.free ha hf hs.1 hs.2.1,
      fits_one_free hs.2.1 hl.free.guard trivial ⟨l, hl.free.toCalm, rfl, hx⟩⟩
  | .var name init _, c, n, l, _, _, _, h, hf, hl, _, hs, hx => by
    simp only [itemCode, except_bind_eq_ok, Except.ok.injEq] at h
    obtain ⟨a, ha, rfl⟩ := h
    simp only [Item.shapes, Segment.append, length_initShapes, Segment.cons] at hs
    rw [FitsFrom.append, length_initCode ha]
    exact ⟨initCode_fits hl.free ha hf.2 hs.1 hs.2.1,
      fits_one_free hs.2.1 hl.free.guard trivial ⟨hf.1, l, hl.free, rfl, hx⟩⟩
  | .block items span, c, n, l, _, _, _, h, hf, hl, hC, hs, hx => by
    simp only [itemCode, except_bind_eq_ok, Except.ok.injEq] at h
    obtain ⟨a, ha, rfl⟩ := h
    -- the block has a scope more to leave than what is around it
    have hin := hl.inScope hR span
    have hf : itemsFollow R c.inScope.distances _ _ (l.enter (.block span)).scopes items := hf
    have hu : c.inScope.unwind = c.unwind + 1 := hl.nested.unwind_inScope
    have hlen := length_itemsCode items hin.nested ha
    simp only [Item.shapes, Segment.cons, Segment.append, length_itemsShapes, ← hu] at hs
    simp only [Item.size, ← hu] at hx
    obtain ⟨h0, his, hend, -⟩ := hs
    rw [FitsFrom.cons, FitsFrom.append, hlen]
    refine ⟨⟨l, h0, ⟨hl.free, items_shape_at his hend⟩, trivial, guarded_of_free hl.free.guard⟩,
      itemsCode_fits hR items ha hf hin (fun _ => by omega) (Segment.append.1 hC.2).1 his hend,
      fits_one_free hend hl.free.guard trivial
        ⟨⟨⟨hl.free.flag, hl.free.floor⟩, hl.free.guard, hl.free.bare⟩, ?_, ?_⟩⟩
    · simp [Shape.enter, Context.blocks]
    · -- leaving the block drops the names that were declared in it
      have hdrop : (itemsAfter items (l.enter (.block span)).scopes).drop 1 = l.scopes := by
        rw [List.drop_one, tail_itemsAfter]
        rfl
      rw [Shape.leave, hdrop]
      rw [show n + 1 + itemsSize c.inScope.unwind items + 1 = n + (itemsSize c.inScope.unwind items + 2)
        by omega]
      exact hx
  | .ifThen e t _, c, n, l, _, _, _, h, hf, hl, hC, hs, hx => by
    simp only [itemCode, except_bind_eq_ok, Except.ok.injEq] at h
    obtain ⟨a, ha, b, hb, rfl⟩ := h
    have hla := e.length_code ha
    have hlb := t.length_code hl.nested hb
    rw [hla] at hb
    simp only [Item.shapes, Segment.append, FitsFrom.append, List.length_append,
      Expr.length_shapes, Item.length_shapes, List.length_cons, List.length_nil, hla, hlb,
      Nat.zero_add, Nat.reduceAdd, ← Nat.add_assoc] at hs hC ⊢
    obtain ⟨⟨⟨hte, htj⟩, ht⟩, hend⟩ := hs
    have hx' : L (n + e.size + 2 + t.size c.unwind + 2) = some l := by
      rw [show n + e.size + 2 + t.size c.unwind + 2 = n + (e.size + t.size c.unwind + 4) by omega]
      exact hx
    have ht' := t.code_fits hR hb hf.2.2 hl hC.1.2 ht (by rw [Shape.past_eq hf.2.1]; exact hend.1)
    exact ⟨⟨test_fits hl.free e ha hf.1 hte htj (ht.head? (by simp)) hend.2.1, ht'⟩,
      close_fits hl.free hend hx' hx'⟩
  | .ifElse e t f _, c, n, l, _, _, _, h, hf, hl, hC, hs, hx => by
    simp only [itemCode, except_bind_eq_ok, Except.ok.injEq] at h
    obtain ⟨a, ha, b, hb, b', hb', rfl⟩ := h
    have hla := e.length_code ha
    have hlb := t.length_code hl.nested hb
    have hlb' := f.length_code hl.nested hb'
    rw [hla] at hb hb'
    rw [hlb] at hb'
    simp only [Item.shapes, Segment.append, FitsFrom.append, List.length_append,
      Expr.length_shapes, Item.length_shapes, List.length_cons, List.length_nil, hla, hlb, hlb',
      Nat.zero_add, Nat.reduceAdd, ← Nat.add_assoc] at hs hC ⊢
    obtain ⟨⟨⟨⟨hte, htj⟩, ht⟩, hend⟩, hs⟩ := hs
    have hat : n + e.size + t.size c.unwind + 4 = n + e.size + 2 + t.size c.unwind + 1 + 1 := by omega
    rw [hat] at hs
    have hx' : L (n + e.size + 2 + t.size c.unwind + 1 + 1 + f.size c.unwind) = some l := by
      rw [show n + e.size + 2 + t.size c.unwind + 1 + 1 + f.size c.unwind
        = n + (e.size + t.size c.unwind + f.size c.unwind + 4) by omega]
      exact hx
    have ht' := t.code_fits hR hb hf.2.1.2 hl hC.1.1.2 ht (by rw [Shape.past_eq hf.2.1.1]; exact hend.1)
    have hf' := f.code_fits hR hb' hf.2.2.2 hl hC.2 hs (by rw [Shape.past_eq hf.2.2.1]; exact hx')
    exact ⟨⟨⟨test_fits hl.free e ha hf.1 hte htj (ht.head? (by simp)) hend.2.1, ht'⟩,
      close_fits hl.free hend hx' (hs.head? (by simp))⟩, hf'⟩
  | .while e body inc _, c, n, l, _, _, _, h, hf, hl, hC, hs, hx => by
    simp only [itemCode, except_bind_eq_ok, Except.ok.injEq] at h
    obtain ⟨a, ha, b, hb, s, hsc, rfl⟩ := h
    have hla := e.length_code ha
    have hlb := body.length_code (c.nested_inLoop _ _) hb
    have hls := length_incrementCode hsc
    rw [Surroundings.unwind_inLoop] at hlb
    rw [hla] at hb
    simp only [Item.shapes, Segment.append, FitsFrom.append, List.length_append,
      Expr.length_shapes, Item.length_shapes, length_incrementShapes, List.length_cons,
      List.length_nil, hla, hlb, hls, Nat.zero_add, Nat.reduceAdd, ← Nat.add_assoc] at hs hC ⊢
    obtain ⟨⟨⟨⟨hte, htj⟩, ht⟩, hinc⟩, hend⟩ := hs
    have hx' : L (n + e.size + 2 + body.size 0 + incrementSize inc + 2) = some l := by
      rw [show n + e.size + 2 + body.size 0 + incrementSize inc + 2
        = n + (e.size + body.size 0 + incrementSize inc + 4) by omega]
      exact hx
    have hnext : L (n + e.size + 2 + body.size 0) = some l := by
      cases inc with
      | none => exact hend.1
      | some e => exact hinc.head? (by simp [incrementShapes])
    -- both exits of the loop find the shape from before it
    have hin := hl.inLoop 0 hx' hnext
    have hb' := body.code_fits hR hb hf.2.1.2 hin hC.1.1.2
      (by rw [Surroundings.unwind_inLoop]; exact ht)
      (by rw [Surroundings.unwind_inLoop, Shape.past_eq hf.2.1.1]; exact hnext)
    exact ⟨⟨⟨test_fits hl.free e ha hf.1 hte htj (ht.head? (by simp)) hend.2.1, hb'⟩,
      incrementCode_fits hl.free hsc hf.2.2 hinc hend.1⟩,
      close_fits hl.free hend (hte.head? (by simp)) hx'⟩
  | .repeat e body _, c, n, l, _, _, _, h, hf, hl, hC, hs, hx => by
    simp only [itemCode, except_bind_eq_ok, Except.ok.injEq] at h
    obtain ⟨a, ha, b, hb, rfl⟩ := h
    have hla := e.length_code ha
    have hlb := body.length_code (c.nested_inLoop _ _) hb
    rw [Surroundings.unwind_inLoop] at hlb
    rw [hla] at hb
    simp only [Item.shapes, Segment.append, FitsFrom.append, List.length_append,
      Expr.length_shapes, Item.length_shapes, List.length_cons, List.length_nil, hla, hlb,
      Nat.zero_add, ← Nat.add_assoc] at hs hC ⊢
    obtain ⟨⟨⟨hte, h1, -⟩, ht⟩, h2, h3, h4, h5, -⟩ := hs
    have hx' : L (n + e.size + 1 + body.size 0 + 4) = some l := by
      rw [show n + e.size + 1 + body.size 0 + 4 = n + (e.size + body.size 0 + 5) by omega]
      exact hx
    -- inside the loop the rounds to go lie on the stack
    have hl1 := hl.free.push 1
    have hfb : body.Follows R c.distances _ true (l.push 1).scopes := hf.2.2
    have hin := hl.inLoop 1 h5 h2
    have hb' := body.code_fits hR hb hfb hin hC.1.2
      (by rw [Surroundings.unwind_inLoop]; exact ht)
      (by rw [Surroundings.unwind_inLoop, Shape.past_eq hf.2.1]; exact h2)
    have htest : FitsFrom R C L (n + e.size) [⟨.repeatTest (n + e.size + 1 + body.size 0 + 3), e.span⟩] :=
      fits_one_free h1 hl.free.guard trivial ⟨⟨l, hl.free.toCalm, rfl, ht.head? (by simp)⟩, h5⟩
    exact ⟨⟨⟨e.code_fits_free hl.free ha hf.1 hte h1, htest⟩, hb'⟩,
      ⟨_, h2, ⟨trivial, hl1.toCalm, .inl h3⟩, trivial, guarded_of_free hl.free.guard⟩,
      ⟨_, h3, ⟨l, hl.free.toCalm, rfl, h4⟩, trivial, guarded_of_free hl.free.guard⟩,
      ⟨_, h4, ⟨hl1.toCalm, h1⟩, trivial, guarded_of_free hl.free.guard⟩,
      fits_one_free h5 hl.free.guard trivial ⟨l, hl.free.toCalm, rfl, hx'⟩⟩
  | .return (some e) _, c, n, l, role, _, _, h, hf, hl, _, hs, hx => by
    simp only [itemCode, except_bind_eq_ok, Except.ok.injEq] at h
    obtain ⟨a, ha, rfl⟩ := h
    simp only [Item.shapes, Segment.append, Expr.length_shapes, Segment.cons] at hs
    rw [FitsFrom.append, e.length_code ha]
    refine ⟨e.code_fits_free hl.free ha (hf.2 e rfl) hs.1 hs.2.1,
      fits_one_free hs.2.1 hl.free.guard (fun hi => ?_) ⟨hl.call.trans hf.1.isSome, l, hl.free, rfl⟩⟩
    -- an initialiser returns no value
    have hvalue : MayReturn (some e) role := hf.1
    rw [(hl.initialises hi).2.1] at hvalue
    exact nomatch hvalue
  | .return none _, c, n, l, _, _, _, h, hf, hl, hC, hs, _ => by
    cases h
    exact hl.bareReturn _ hf.1.isSome hC hs
  | .break _, c, n, l, _, _, _, h, hf, hl, _, hs, _ => by
    cases h
    obtain ⟨x, hx, hu, hb, -⟩ := hl.exits hf
    exact hl.leave _ (by rw [hx]; rfl) hu hb hs
  | .continue _, c, n, l, _, _, _, h, hf, hl, _, hs, _ => by
    cases h
    obtain ⟨x, hx, hu, -, hk⟩ := hl.exits hf
    exact hl.leave _ (by rw [hx]; rfl) hu hk hs
  | .assertFails e _ _, c, n, l, _, _, _, h, hf, hl, hC, hs, hx => by
    simp only [itemCode, except_bind_eq_ok, Except.ok.injEq] at h
    obtain ⟨a, ha, rfl⟩ := h
    rw [e.length_code ha] at hC ⊢
    exact assertFails_fits hl.free e ha hf hC hs hx
  | .function decl _, c, n, l, _, _, _, h, hf, hl, _, hs, hx => by
    cases h
    have hd := FunctionDecl.follows_iff.1 hf.2
    exact fits_one_free hs.1 hl.free.guard trivial ⟨hf.1.2, hf.1.1, hl.free, hd.1, hx⟩
  | .class name none methods span, c, n, l, _, _, _, h, hf, hl, hC, hs, hx => by
    cases h
    obtain ⟨h0, h1, -⟩ := hs
    exact ⟨⟨l, h0, ⟨trivial, hl.free.toCalm, .inr ⟨false, rfl, h1⟩⟩, trivial, guarded_of_free hl.free.guard⟩,
      fits_one_free h1 hl.free.guard ⟨n, false, span, rfl, hC.1, rfl⟩
        ⟨hf.1, l, false, ⟨hl.free, hf.2.1.1⟩, rfl, hx, hf.2.2.known⟩⟩
  | .class name (some parent) methods span, c, n, l, _, _, _, h, hf, hl, hC, hs, hx => by
    cases h
    obtain ⟨h0, h1, h2, -⟩ := hs
    have hread : R.reads ⟨parent, span, l.scopes, none⟩ (c.distances.get? parent.id) :=
      hf.2.1.2 parent rfl
    exact ⟨⟨l, h0, ⟨.inl ⟨none, parent, rfl, hread⟩, l, hl.free.toCalm, rfl, h1⟩, trivial,
        guarded_of_free hl.free.guard⟩,
      ⟨_, h1, ⟨trivial, hl.free.toCalm.push 1, .inr ⟨true, rfl, h2⟩⟩, trivial, guarded_of_free hl.free.guard⟩,
      fits_one_free h2 hl.free.guard ⟨n + 1, true, span, rfl, hC.2.1, rfl⟩
        ⟨hf.1, l, true, ⟨hl.free, hf.2.1.1⟩, rfl, hx, hf.2.2.known⟩⟩

/-- The code of items declares their names one after the other. -/
theorem itemsCode_fits (hR : R.Stable) : ∀ (is : List Item) {c : Surroundings} {n : Nat} {l : Shape}
    {role : Option FunctionRole} {loop : Bool} {code : List Instr},
    itemsCode c n is = .ok code → itemsFollow R c.distances role loop l.scopes is →
    Sits R L c role loop l → (loop = true → 1 ≤ c.unwind) → Segment C n code →
    Segment L n (itemsShapes c.unwind n l is) →
    L (n + itemsSize c.unwind is) = some (l.pastAll is) → FitsFrom R C L n code
  | [], _, _, _, _, _, _, h, _, _, _, _, _, _ => by
    cases h
    trivial
  | i :: is, c, n, l, _, _, _, h, hf, hl, hu, hC, hs, hx => by
    simp only [itemsCode, except_bind_eq_ok, Except.ok.injEq] at h
    obtain ⟨a, ha, b, hb, rfl⟩ := h
    have hlen := i.length_code hl.nested ha
    rw [hlen] at hb
    simp only [itemsShapes, Segment.append, Item.length_shapes, hlen] at hs hC
    have hx' : L (n + i.size c.unwind + itemsSize c.unwind is) = some ((l.past i).pastAll is) := by
      rw [Nat.add_assoc]
      exact hx
    rw [FitsFrom.append, hlen]
    exact ⟨i.code_fits hR ha hf.1 hl hC.1 hs.1 (items_shape_at hs.2 hx'),
      itemsCode_fits hR is hb hf.2 (hl.past hR hf.1 hu) hu hC.2 hs.2 hx'⟩

end

/-! ## Chunks -/

/-- The shapes `L` are right for a chunk, of a function if `call` and of a program otherwise: its
    instructions fit them, and only a program can come to its end. -/
structure Chunk.Balanced (R : Rules) (chunk : Chunk) (call : Bool) (L : Nat → Option Shape) :
    Prop where
  fits : ∀ {n : Nat} {i : Instr}, chunk.instr? n = some i →
    ∃ l, L n = some l ∧ i.Fits R L n l ∧ i.Joined chunk.instr? n l
      ∧ Guarded chunk.instr? L n l
  inside : ∀ {n : Nat} {l : Shape}, L n = some l →
    n < chunk.ops.size ∨ call = false ∧ n = chunk.ops.size ∧ l.guard = none

/-- A handler is there only where the code says so. -/
theorem Chunk.Balanced.guarded {call : Bool} (h : chunk.Balanced R call L) (hn : L n = some l) :
    Guarded chunk.instr? L n l := by
  rcases h.inside hn with hlt | ⟨-, -, hg⟩
  · obtain ⟨i, hi⟩ := Option.isSome_iff_exists.1 (Chunk.instr?_isSome.2 hlt)
    obtain ⟨k, hk, -, -, hg⟩ := h.fits hi
    cases hn.symm.trans hk
    exact hg
  · exact guarded_of_free hg

theorem Chunk.Balanced.fits_at {call : Bool} (h : chunk.Balanced R call L) (hn : L n = some l)
    {i : Instr} (hi : chunk.instr? n = some i) : i.Fits R L n l := by
  obtain ⟨k, hk, hfit, -⟩ := h.fits hi
  cases hn.symm.trans hk
  exact hfit

theorem Chunk.Balanced.of_fitsFrom {call : Bool} (h : FitsFrom R (code[·]?) L 0 code)
    (hin : ∀ {n : Nat} {l : Shape}, L n = some l →
      n < code.length ∨ call = false ∧ n = code.length ∧ l.guard = none) :
    (Chunk.addAll { name } code).Balanced R call L where
  fits := fun {n i} hi => by
    have hcode : (Chunk.addAll { name } code).instr? = (code[·]?) :=
      funext (Chunk.instr?_addAll name code)
    rw [hcode] at hi ⊢
    simpa using h.get (k := n) hi
  inside := fun hn => by
    rw [Chunk.size_addAll]
    exact hin hn

theorem Sits.pastAll (hR : R.Stable) {is : List Item} (h : Sits R L c role false l)
    (hf : itemsFollow R d role false l.scopes is) : Sits R L c role false (l.pastAll is) := by
  induction is generalizing l with
  | nil => exact h
  | cons i is ih => exact ih (h.past hR hf.1 Bool.noConfusion) hf.2

/-- The place of the first item of a chunk. -/
theorem Sits.start (hl : l.Free) (hcall : l.call = role.isSome) (hc : c.innermost = none)
    (hret : c.initialiser = true → R.returns l.scopes (c.scopes + 1))
    (hinit : l.initialises = true →
      c.initialiser = true ∧ role = some .initialiser ∧ l.scopes.length = c.scopes) :
    Sits R L c role false l := by
  exact ⟨hl, hcall, hret, hinit, .of_none hc, Bool.noConfusion⟩

theorem segment_self {α : Type} (xs : List α) : Segment (xs[·]?) 0 xs := by
  simpa using Segment.getElem? [] xs

/-- The shapes of a program, the last of them at its end. -/
def programShapes (items : List Item) : List Shape :=
  itemsShapes 0 0 {} items ++ [({} : Shape).pastAll items]

/-- The shapes of a function that starts with the shape `l`, the last two of them those of the return
    at its end. -/
def bodyShapes (l : Shape) (body : List Item) : List Shape :=
  itemsShapes 0 0 l body ++ [l.pastAll body, (l.pastAll body).push 1]

/-- Where the shapes of the items stand among those of the program, and the shape after them. -/
theorem programShapes_segment (items : List Item) :
    Segment ((programShapes items)[·]?) 0 (itemsShapes 0 0 {} items)
      ∧ ((programShapes items)[·]?) (0 + itemsSize 0 items) = some (({} : Shape).pastAll items) := by
  have h := segment_self (programShapes items)
  rw [programShapes, Segment.append, length_itemsShapes] at h
  exact ⟨h.1, h.2.1⟩

theorem programShapes_start (items : List Item) :
    ((programShapes items)[·]?) 0 = some ({} : Shape) :=
  items_shape_at (programShapes_segment items).1 (programShapes_segment items).2

/-- Where the shapes of the body stand among those of the function, and the shapes after them. -/
theorem bodyShapes_segment (l : Shape) (body : List Item) :
    Segment ((bodyShapes l body)[·]?) 0 (itemsShapes 0 0 l body)
      ∧ Segment ((bodyShapes l body)[·]?) (0 + itemsSize 0 body)
        [l.pastAll body, (l.pastAll body).push 1] := by
  have h := segment_self (bodyShapes l body)
  rwa [bodyShapes, Segment.append, length_itemsShapes] at h

theorem bodyShapes_start (l : Shape) (body : List Item) : ((bodyShapes l body)[·]?) 0 = some l :=
  items_shape_at (bodyShapes_segment l body).1 (bodyShapes_segment l body).2.1

/-- The shapes of a program fit its code. -/
theorem programShapes_balanced (hR : R.Stable) {items : List Item}
    (hc : programChunk d name items = .ok chunk) (hf : itemsFollow R d none false [] items) :
    chunk.Balanced R false ((programShapes items)[·]?) := by
  simp only [programChunk, except_bind_eq_ok, Except.ok.injEq] at hc
  obtain ⟨code, hcode, rfl⟩ := hc
  let c : Surroundings := { distances := d }
  have hl : Sits R ((programShapes items)[·]?) c none false {} :=
    .start ⟨⟨rfl, Nat.le_refl _⟩, rfl, rfl⟩ rfl rfl Bool.noConfusion Bool.noConfusion
  have hlen : code.length = itemsSize 0 items := length_itemsCode items hl.nested hcode
  obtain ⟨hshapes, hend⟩ := programShapes_segment items
  refine .of_fitsFrom ?_ fun {n k} hk => ?_
  · exact itemsCode_fits hR items hcode hf hl Bool.noConfusion
      (segment_self code) hshapes hend
  · have hlt : n < (programShapes items).length := (List.getElem?_eq_some_iff.1 hk).1
    simp only [programShapes, List.length_append, length_itemsShapes, List.length_singleton] at hlt
    rcases Nat.lt_or_ge n code.length with h | h
    · exact .inl h
    · have hn : n = 0 + itemsSize 0 items := by omega
      subst hn
      cases hk.symm.trans hend
      exact .inr ⟨rfl, by omega, rfl⟩

/-- The code of a program is balanced. -/
theorem balanced_program (hR : R.Stable) {items : List Item}
    (hc : programChunk d name items = .ok chunk) (hf : itemsFollow R d none false [] items) :
    ∃ L, L 0 = some {} ∧ chunk.Balanced R false L :=
  ⟨_, programShapes_start items, programShapes_balanced hR hc hf⟩

/-- So do those of a body. -/
theorem bodyShapes_balanced (hR : R.Stable) {decl : FunctionDecl} {role : FunctionRole}
    (hc : functionChunk d decl = .ok chunk) (hf : itemsFollow R d (some role) false Γ decl.body)
    (hret : decl.isInitialiser = true → R.returns Γ 1) (initialises : Bool)
    (hinit : initialises = true → decl.isInitialiser = true ∧ role = .initialiser ∧ Γ = []) :
    chunk.Balanced R true
      ((bodyShapes { scopes := Γ, call := true, initialises } decl.body)[·]?) := by
  simp only [functionChunk, except_bind_eq_ok, Except.ok.injEq] at hc
  obtain ⟨code, hcode, rfl⟩ := hc
  let c : Surroundings := { distances := d, initialiser := decl.isInitialiser }
  let l : Shape := { scopes := Γ, call := true, initialises }
  have hl : Sits R ((bodyShapes l decl.body)[·]?) c (some role) false l := by
    refine .start ⟨⟨rfl, Nat.le_refl _⟩, rfl, rfl⟩ rfl rfl hret fun hi => ?_
    obtain ⟨hdecl, rfl, rfl⟩ := hinit hi
    exact ⟨hdecl, rfl, rfl⟩
  have hlen : code.length = itemsSize 0 decl.body := length_itemsCode decl.body hl.nested hcode
  obtain ⟨hshapes, hend⟩ := bodyShapes_segment l decl.body
  have hC := segment_self (code ++ c.bareReturn decl.span)
  rw [Segment.append, hlen] at hC
  refine .of_fitsFrom ?_ fun {n k} hk => ?_
  · rw [FitsFrom.append, hlen]
    exact ⟨itemsCode_fits hR decl.body hcode hf hl Bool.noConfusion hC.1 hshapes hend.1,
      (hl.pastAll hR hf).bareReturn decl.span rfl hC.2 hend⟩
  · have hlt : n < (bodyShapes l decl.body).length := (List.getElem?_eq_some_iff.1 hk).1
    simp only [bodyShapes, List.length_append, length_itemsShapes, List.length_cons, List.length_nil]
      at hlt
    refine .inl ?_
    rw [List.length_append, hlen]
    exact hlt

/-- The code of a function is balanced. -/
theorem balanced_function (hR : R.Stable) {decl : FunctionDecl} {role : FunctionRole}
    (hc : functionChunk d decl = .ok chunk) (hf : itemsFollow R d (some role) false Γ decl.body)
    (hret : decl.isInitialiser = true → R.returns Γ 1) :
    ∃ L, L 0 = some { scopes := Γ, call := true } ∧ chunk.Balanced R true L :=
  ⟨_, bodyShapes_start _ decl.body, bodyShapes_balanced hR hc hf hret false Bool.noConfusion⟩

end Eleu
