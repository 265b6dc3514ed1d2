import Mathlib.Data.List.Perm.Subperm
import Eleu.Proofs.Scope.Standpoint
import Eleu.Proofs.Tree.Ids

/-! # Judging sightings

    What `judgeSightings` makes of a list of sightings. It fails exactly with the first misuse. If
    there is none, the table has for each id the distance of the last local reference with it, which
    in a tree without a repeated id is the reference itself. -/

namespace Eleu

variable {ss : List Sighting} {d : Distances} {s : Sighting}

/-! ## Misuses -/

theorem firstFault?_append (ss ss' : List Sighting) :
    firstFault? (ss ++ ss') = (firstFault? ss).or (firstFault? ss') := List.findSome?_append

theorem firstFault?_singleton (s : Sighting) : firstFault? [s] = s.fault? := by
  unfold firstFault?
  rw [List.findSome?_cons]
  cases s.fault? <;> rfl

@[simp] theorem Fault.when_true (cause : Cause) (span : Span) :
    Fault.when true cause span = some { cause, span := some span } := rfl

@[simp] theorem Fault.when_false (cause : Cause) (span : Span) : Fault.when false cause span = none := rfl

theorem Fault.when_eq_some_iff {wrong : Bool} {cause : Cause} {span : Span} {f : Fault} :
    Fault.when wrong cause span = some f ↔ wrong = true ∧ f = { cause, span := some span } := by
  cases wrong <;> simp [eq_comm]

theorem Sighting.innermost_iff {p : OpenScope → Bool} :
    s.innermost p = true ↔ ∃ scope outer, s.place.scopes = scope :: outer ∧ p scope = true := by
  unfold innermost
  cases s.place.scopes with
  | nil => simp
  | cons scope outer => simp

/-- Every fault is a misuse. -/
theorem Sighting.misuse_of_fault {f : Fault} (h : s.fault? = some f) : Misuse s f := by
  obtain ⟨σ, mention⟩ := s
  cases mention with
  | declares name span =>
    obtain ⟨hwrong, rfl⟩ := Fault.when_eq_some_iff.1 h
    obtain ⟨scope, outer, hscopes, hname⟩ := innermost_iff.1 hwrong
    exact .redeclared hscopes (of_decide_eq_true hname)
  | reads ident span =>
    obtain ⟨hwrong, rfl⟩ := Fault.when_eq_some_iff.1 h
    obtain ⟨scope, outer, hscopes, hname⟩ := innermost_iff.1 hwrong
    exact .ownInitialiser hscopes (of_decide_eq_true hname)
  | writes ident => exact nomatch h
  | this ident span =>
    obtain ⟨hwrong, rfl⟩ := Fault.when_eq_some_iff.1 h
    exact .thisOutsideClass (Option.isNone_iff_eq_none.1 hwrong)
  | super ident span =>
    unfold fault? at h
    dsimp only at h
    cases hrole : σ.classRole with
    | none =>
      rw [hrole] at h
      obtain ⟨-, rfl⟩ := Fault.when_eq_some_iff.1 h
      exact .superOutsideClass hrole
    | some role =>
      rw [hrole] at h
      cases role with
      | base =>
        obtain ⟨-, rfl⟩ := Fault.when_eq_some_iff.1 h
        exact .superWithoutParent hrole
      | subclass => exact nomatch h
  | inherits parent name span =>
    obtain ⟨hwrong, rfl⟩ := Fault.when_eq_some_iff.1 h
    obtain rfl : parent.name = name := of_decide_eq_true hwrong
    exact .selfInheritance
  | returns valued span =>
    unfold fault? at h
    dsimp only at h
    cases hrole : σ.function with
    | none =>
      rw [hrole] at h
      obtain ⟨-, rfl⟩ := Fault.when_eq_some_iff.1 h
      exact .returnOutsideFunction hrole
    | some role =>
      rw [hrole] at h
      cases role with
      | initialiser =>
        obtain ⟨rfl, rfl⟩ := Fault.when_eq_some_iff.1 h
        exact .returnFromInitialiser hrole
      | function | method => exact nomatch h
  | jumps keyword span =>
    obtain ⟨hwrong, rfl⟩ := Fault.when_eq_some_iff.1 h
    exact .loopControlOutsideLoop (of_decide_eq_true hwrong)

/-- Every misuse is found. -/
theorem Misuse.fault {f : Fault} (h : Misuse s f) : s.fault? = some f := by
  cases h with
  | ownInitialiser hscopes hname | redeclared hscopes hname =>
    simp [Sighting.fault?, Sighting.innermost, hscopes, hname]
  | returnOutsideFunction hrole | returnFromInitialiser hrole | thisOutsideClass hrole
  | superOutsideClass hrole | superWithoutParent hrole | loopControlOutsideLoop hrole =>
    simp [Sighting.fault?, hrole]
  | selfInheritance => simp [Sighting.fault?]

/-- An analysis fails with the first misuse. -/
theorem judgeSightings_eq_error_iff {f : Fault} :
    judgeSightings ss = .error f ↔ ∃ before s after, ss = before ++ s :: after
      ∧ (∀ b ∈ before, ∀ g, ¬ Misuse b g) ∧ Misuse s f := by
  have hjudge : judgeSightings ss = .error f ↔ firstFault? ss = some f := by
    unfold judgeSightings
    cases firstFault? ss <;> simp
  rw [hjudge, firstFault?, List.findSome?_eq_some_iff]
  constructor
  · rintro ⟨before, s, after, hss, hs, hbefore⟩
    refine ⟨before, s, after, hss, fun b hb g hg => ?_, Sighting.misuse_of_fault hs⟩
    exact nomatch (hbefore b hb).symm.trans hg.fault
  · rintro ⟨before, s, after, hss, hbefore, hs⟩
    refine ⟨before, s, after, hss, hs.fault, fun b hb => ?_⟩
    exact Option.eq_none_iff_forall_ne_some.2 fun g hg => hbefore b hb g (Sighting.misuse_of_fault hg)

/-! ## The table -/

theorem Sighting.get?_note (s : Sighting) (d : Distances) (id : Nat) :
    (s.note d).get? id = (s.distance? id).or (d.get? id) := by
  unfold note distance?
  cases s.ident? with
  | none => rfl
  | some ident =>
    dsimp only
    cases s.place.distance? ident.name with
    | none => simp
    | some n =>
      rw [Table.get?_insert]
      by_cases hid : ident.id = id <;> simp [hid]

/-- Of several references with one id the last that is local counts. -/
theorem get?_foldl_note (ss : List Sighting) (d : Distances) (id : Nat) :
    (ss.foldl Sighting.note d).get? id = (ss.reverse.findSome? (·.distance? id)).or (d.get? id) := by
  induction ss generalizing d with
  | nil => rfl
  | cons s ss ih =>
    rw [List.foldl_cons, ih, s.get?_note, List.reverse_cons, List.findSome?_append, Option.or_assoc,
      List.findSome?_singleton]

theorem judgeSightings_eq_ok (h : judgeSightings ss = .ok d) :
    firstFault? ss = none ∧ ss.foldl Sighting.note {} = d := by
  unfold judgeSightings at h
  cases hf : firstFault? ss with
  | some f =>
    rw [hf] at h
    exact nomatch h
  | none =>
    rw [hf] at h
    exact ⟨rfl, Except.ok.inj h⟩

theorem judgeSightings_fault (h : judgeSightings ss = .ok d) :
    ∀ s ∈ ss, s.fault? = none := List.findSome?_eq_none_iff.1 (judgeSightings_eq_ok h).1

theorem judgeSightings_get? (h : judgeSightings ss = .ok d) (id : Nat) :
    d.get? id = ss.reverse.findSome? (·.distance? id) := by
  rw [← (judgeSightings_eq_ok h).2]
  exact (get?_foldl_note ss {} id).trans Option.or_none

/-- No id has two entries in the table. -/
theorem judgeSightings_unique (h : judgeSightings ss = .ok d) : d.Unique := by
  have hnote : ∀ (s : Sighting) (d : Distances), d.Unique → (s.note d).Unique := by
    intro s d hd
    unfold Sighting.note
    split
    · exact hd
    · split
      · exact hd.insert _ _
      · exact hd
  rw [← (judgeSightings_eq_ok h).2]
  exact List.foldlRecOn ss Sighting.note List.Pairwise.nil fun d hd s _ => hnote s d hd

theorem Sighting.distance?_eq_some_iff {id n : Nat} : s.distance? id = some n ↔ s.Refers id n := by
  unfold Sighting.distance? Refers
  cases s.ident? with
  | none => simp
  | some ident =>
    by_cases hid : ident.id = id
    · simp [hid, Standpoint.distance?_eq_some_iff]
    · simp [hid]

/-- The table has the distance of the last local reference. -/
theorem judgeSightings_get?_eq_some_iff (h : judgeSightings ss = .ok d) {id n :
    Nat} : d.get? id = some n ↔ ∃ before s after, ss = before ++ s :: after ∧ s.Refers id n
      ∧ ∀ later ∈ after, ∀ m, ¬ later.Refers id m := by
  rw [judgeSightings_get? h, List.findSome?_eq_some_iff]
  constructor
  · rintro ⟨after, s, before, hss, hs, hafter⟩
    refine ⟨before.reverse, s, after.reverse, ?_, Sighting.distance?_eq_some_iff.1 hs,
      fun later hlater m hm => ?_⟩
    · rw [← ss.reverse_reverse, hss]
      simp
    · have hnone := hafter later (List.mem_reverse.1 hlater)
      exact nomatch hnone.symm.trans (Sighting.distance?_eq_some_iff.2 hm)
  · rintro ⟨before, s, after, hss, hs, hafter⟩
    refine ⟨after.reverse, s, before.reverse, ?_, Sighting.distance?_eq_some_iff.2 hs,
      fun later hlater => ?_⟩
    · rw [hss]
      simp
    · exact Option.eq_none_iff_forall_ne_some.2 fun m hm =>
        hafter later (List.mem_reverse.1 hlater) m (Sighting.distance?_eq_some_iff.1 hm)

/-- The ids of the references among sightings. -/
def sightingsIds (ss : List Sighting) : List Nat := (ss.filterMap Sighting.ident?).map (·.id)

theorem sightingsIds_append (ss ss' : List Sighting) :
    sightingsIds (ss ++ ss') = sightingsIds ss ++ sightingsIds ss' := by
  unfold sightingsIds
  rw [List.filterMap_append, List.map_append]

theorem Sighting.distance?_eq_none {id : Nat} (h : id ∉ sightingsIds ss) :
    ∀ s ∈ ss, s.distance? id = none := by
  intro s hs
  unfold Sighting.distance?
  cases hident : s.ident? with
  | none => rfl
  | some ident =>
    have hmem : ident.id ∈ sightingsIds ss :=
      List.mem_map.2 ⟨ident, List.mem_filterMap.2 ⟨s, hs, hident⟩, rfl⟩
    have hid : ident.id ≠ id := fun hid => h (hid ▸ hmem)
    exact if_neg hid

/-- A reference whose id no other has is in the table with its own distance. -/
theorem judgeSightings_own (h : judgeSightings ss = .ok d) (hnodup : (sightingsIds ss).Nodup)
    {ident : Ident} (hs : s ∈ ss) (hident : s.ident? = some ident) :
    d.get? ident.id = s.place.distance? ident.name := by
  rw [judgeSightings_get? h]
  obtain ⟨before, after, rfl⟩ := List.append_of_mem hs
  have hids : sightingsIds (before ++ s :: after)
      = sightingsIds before ++ ident.id :: sightingsIds after := by
    rw [sightingsIds_append, sightingsIds, sightingsIds, sightingsIds, List.filterMap_cons, hident]
    rfl
  have hown : s.distance? ident.id = s.place.distance? ident.name := by
    unfold Sighting.distance?
    rw [hident]
    exact if_pos rfl
  rw [hids, List.nodup_middle, List.nodup_cons, List.mem_append, not_or] at hnodup
  obtain ⟨⟨hbefore, hafter⟩, -⟩ := hnodup
  have hothers : ∀ {others : List Sighting}, ident.id ∉ sightingsIds others →
      others.reverse.findSome? (·.distance? ident.id) = none := fun hother =>
    List.findSome?_eq_none_iff.2 fun b hb => Sighting.distance?_eq_none hother b (List.mem_reverse.1 hb)
  rw [List.reverse_append, List.reverse_cons, List.findSome?_append, List.findSome?_append,
    List.findSome?_singleton, hothers hbefore, hothers hafter, hown, Option.none_or, Option.or_none]

/-! ## Ids of the references -/

theorem seen_append {ss' : List Sighting} {ids ids' : List Nat} (h : (sightingsIds ss).Subperm ids)
    (h' : (sightingsIds ss').Subperm ids') : (sightingsIds (ss ++ ss')).Subperm (ids ++ ids') := by
  rw [sightingsIds_append]
  exact h.append h'

mutual

/-- The references seen in an expression are references of it. -/
theorem Expr.seen_ids (σ : Standpoint) : ∀ e : Expr, (sightingsIds (e.sightings σ)).Subperm e.ids
  | .literal _ _ => List.nil_subperm
  | .list elements _ => exprs_seen_ids σ elements
  | .name ident _ => List.Subperm.refl [ident.id]
  | .assign target value _ => by
    have h : (sightingsIds [⟨σ, .writes target⟩]).Subperm [target.id] := List.Subperm.refl _
    exact (seen_append (value.seen_ids σ) h).trans List.perm_append_comm.subperm
  | .unary _ operand _ => operand.seen_ids σ
  | .binary left _ right _ => seen_append (left.seen_ids σ) (right.seen_ids σ)
  | .logical left _ right _ => seen_append (left.seen_ids σ) (right.seen_ids σ)
  | .group inner _ => inner.seen_ids σ
  | .call callee args _ => seen_append (callee.seen_ids σ) (exprs_seen_ids σ args)
  | .getField object _ _ => object.seen_ids σ
  | .setField object _ value _ =>
    (seen_append (value.seen_ids σ) (object.seen_ids σ)).trans List.perm_append_comm.subperm
  | .this ident _ => List.Subperm.refl [ident.id]
  | .super ident _ _ => List.Subperm.refl [ident.id]

theorem exprs_seen_ids (σ : Standpoint) : ∀ es : List Expr,
    (sightingsIds (exprsSightings σ es)).Subperm (exprsIds es)
  | [] => List.nil_subperm
  | e :: es => seen_append (e.seen_ids σ) (exprs_seen_ids σ es)

end

theorem option_seen_ids (σ : Standpoint) (e : Option Expr) :
    (sightingsIds (optionSightings σ e)).Subperm (optionIds e) := by
  cases e with
  | none => exact List.nil_subperm
  | some e => exact e.seen_ids σ

theorem params_seen_ids (span : Span) (σ : Standpoint) (names : List String) :
    sightingsIds (paramsSightings span σ names) = [] := by
  induction names generalizing σ with
  | nil => rfl
  | cons name names ih => exact ih (σ.define name)

theorem parent_seen_ids (name : String) (span : Span) (σ : Standpoint) (parent : Option Ident) :
    (sightingsIds (parentSightings name span σ parent)).Subperm (parent.map (·.id)).toList := by
  cases parent with
  | none => exact List.nil_subperm
  | some ident => exact List.Subperm.refl [ident.id]

mutual

/-- The references seen in an item are references of it. -/
theorem Item.seen_ids (σ : Standpoint) : ∀ i : Item, (sightingsIds (i.sightings σ)).Subperm i.ids
  | .expr e _ => e.seen_ids σ
  | .var name init _ => option_seen_ids (σ.declare name) init
  | .block body span => items_seen_ids (σ.enter (.block span)) body
  | .ifThen c thenItem _ => seen_append (c.seen_ids σ) (thenItem.seen_ids σ)
  | .ifElse c thenItem elseItem _ => seen_append (c.seen_ids σ)
      (seen_append (thenItem.seen_ids σ) (elseItem.seen_ids (σ.after thenItem)))
  | .while c body increment _ => seen_append (c.seen_ids σ)
      (seen_append (body.seen_ids σ.inLoop) (option_seen_ids (σ.after body) increment))
  | .repeat count body _ => seen_append (count.seen_ids σ) (body.seen_ids σ.inLoop)
  | .return value _ => option_seen_ids σ value
  | .break _ => List.nil_subperm
  | .continue _ => List.nil_subperm
  | .assert c _ _ => c.seen_ids σ
  | .assertFails e _ _ => e.seen_ids σ
  | .function decl _ => decl.seen_ids .function (σ.define decl.name)
  | .class name parent methods span => seen_append (parent_seen_ids name span (σ.define name) parent)
      (methods_seen_ids ((σ.define name).inClass parent.isSome span) methods)

theorem items_seen_ids (σ : Standpoint) : ∀ is : List Item,
    (sightingsIds (itemsSightings σ is)).Subperm (itemsIds is)
  | [] => List.nil_subperm
  | i :: is => seen_append (i.seen_ids σ) (items_seen_ids (σ.after i) is)

theorem FunctionDecl.seen_ids (role : FunctionRole) (σ : Standpoint) : ∀ decl : FunctionDecl,
    (sightingsIds (decl.sightings role σ)).Subperm decl.ids
  | ⟨_, id, _, _, params, body, span⟩ => by
    have hbody := items_seen_ids ((σ.inFunction role id).defineAll params) body
    rw [FunctionDecl.sightings, sightingsIds_append, params_seen_ids]
    exact hbody.trans (List.sublist_cons_self id _).subperm

theorem methods_seen_ids (σ : Standpoint) : ∀ ms : List FunctionDecl,
    (sightingsIds (methodsSightings σ ms)).Subperm (methodsIds ms)
  | [] => List.nil_subperm
  | m :: ms => seen_append (m.seen_ids (Resolve.methodRole m) σ) (methods_seen_ids σ ms)

end

/-- In a program without a repeated id no reference is seen twice. -/
theorem sightingsIds_nodup {program : List Item} (h : (itemsIds program).Nodup) :
    (sightingsIds (itemsSightings {} program)).Nodup := by
  obtain ⟨ids, hperm, hsub⟩ := items_seen_ids {} program
  exact hperm.nodup_iff.1 (h.sublist hsub)

end Eleu
