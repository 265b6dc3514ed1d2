import Eleu.Proofs.Store.Search

/-! # Environments that share their outer scopes

    From an environment outwards lead its parents. If no way outwards goes on for ever, the environments
    on it are a list (`Store.Lineage`), and looking up and assigning are told by that list: by its first
    environment that has the variable, or by its entry at a given depth. Many such lists share
    environments. An assignment is seen from all of them, and `environments_coherent` says how. -/

namespace Eleu

namespace Store

variable {s t : Store} {e b : EnvRef} {l : List EnvRef} {n : String} {v : Value}

/-- The environments from `e` outwards, `e` itself first. -/
inductive Lineage (s : Store) : EnvRef → List EnvRef → Prop where
  | last {e : EnvRef} (h : (s.env e).parent = none) : Lineage s e [e]
  | cons {e p : EnvRef} {l : List EnvRef} (h : (s.env e).parent = some p) (rest : Lineage s p l) :
      Lineage s e (e :: l)

/-- The nearest environment that has the variable. -/
def nearest? (s : Store) (n : String) (l : List EnvRef) : Option EnvRef := l.find? (s.hasLocal · n)

/-- `t` differs from `s` in one entry only, that of `n` in `b`, which `b` had before and which is `v`
    now. -/
structure Overwrites (s : Store) (b : EnvRef) (n : String) (v : Value) (t : Store) : Prop where
  bound : s.hasLocal b n = true
  local? : ∀ a m, t.local? a m = if a = b ∧ m = n then some v else s.local? a m
  parent : ∀ a, (t.env a).parent = (s.env a).parent
  rest : t = { s with envs := t.envs }
  size : t.envs.size = s.envs.size

/-! ## Lineages -/

namespace Lineage

/-- Where all ways outwards end, every environment has a lineage. -/
theorem exists_of_wellFounded (hs : WellFounded fun p e => (s.env e).parent = some p) (e : EnvRef) :
    ∃ l, s.Lineage e l := by
  induction e using hs.induction with
  | _ e ih =>
    cases hp : (s.env e).parent with
    | none => exact ⟨[e], .last hp⟩
    | some p =>
      obtain ⟨l, hl⟩ := ih p hp
      exact ⟨e :: l, .cons hp hl⟩

theorem unique {l' : List EnvRef} (h : s.Lineage e l) (h' : s.Lineage e l') : l = l' := by
  induction h generalizing l' with
  | last hlast =>
    cases h' with
    | last => rfl
    | cons hp => cases hlast.symm.trans hp
  | cons hp _ ih =>
    cases h' with
    | last hlast => cases hlast.symm.trans hp
    | cons hp' hrest =>
      obtain rfl := Option.some.inj (hp.symm.trans hp')
      rw [ih hrest]

/-- Steps outwards lead along the lineage. -/
theorem climb (h : s.Lineage e l) (d : Nat) : Climb s.parent? d e l[d]? := by
  induction h generalizing d with
  | last hlast =>
    cases d with
    | zero => exact .here
    | succ d => exact .outermost hlast
  | cons hp _ ih =>
    cases d with
    | zero => exact .here
    | succ d => exact .up hp (ih d)

theorem ancestor? (h : s.Lineage e l) (d : Nat) : s.ancestor? e d = l[d]? :=
  (s.ancestor?_climb e d).unique (h.climb d)

/-- The search without a bound comes to the nearest environment that has the variable. -/
theorem search (h : s.Lineage e l) (n : String) :
    Search s.parent? (s.holds? n) e (s.nearest? n l) := by
  induction h with
  | @last e hlast =>
    cases hb : s.hasLocal e n with
    | true => simpa [nearest?, hb] using Search.here (if_pos hb)
    | false => simpa [nearest?, hb] using Search.nowhere (if_neg (by simp [hb])) hlast
  | @cons e p l hp _ ih =>
    cases hb : s.hasLocal e n with
    | true => simpa [nearest?, hb] using Search.here (if_pos hb)
    | false => simpa [nearest?, hb] using Search.further (if_neg (by simp [hb])) hp ih

theorem binder? (hs : WellFounded fun p e => (s.env e).parent = some p) (h : s.Lineage e l)
    (n : String) : s.binder? e n = s.nearest? n l :=
  (binder?_search hs e n).unique (h.search n)

/-! ## Reading and writing -/

theorem get (hs : WellFounded fun p e => (s.env e).parent = some p) (h : s.Lineage e l) (n : String) :
    s.get e n = ((s.nearest? n l).bind (s.local? · n)).elim (.error (.undefinedVariable n)) .ok := by
  rw [get_eq, h.binder? hs]

theorem assign (hs : WellFounded fun p e => (s.env e).parent = some p) (h : s.Lineage e l)
    (n : String) (v : Value) :
    Store.assign e n v s
      = (s.nearest? n l).elim (.error (.undefinedVariable n) s) fun b => .ok () (s.define b n v) := by
  rw [assign_eq, h.binder? hs]

theorem getAt (h : s.Lineage e l) (n : String) (d : Nat) :
    s.getAt e n d = l[d]?.elim (.error (.misresolved n)) fun a =>
      (s.local? a n).elim (.error (.undefinedVariable n)) .ok := by
  rw [getAt_eq, h.ancestor?]

theorem assignAt (h : s.Lineage e l) (n : String) (v : Value) (d : Nat) :
    Store.assignAt e n v d s = l[d]?.elim (.error (.misresolved n) s) fun a =>
      if s.hasLocal a n then .ok () (s.define a n v) else .error (.undefinedVariable n) s := by
  rw [assignAt_eq, h.ancestor?]

end Lineage

theorem overwrites_define (hb : s.hasLocal b n = true) (v : Value) : s.Overwrites b n v (s.define b n v) := by
  obtain ⟨w, hw⟩ := (hasLocal_iff s b n).1 hb
  have hlt := lt_size_of_local? hw
  refine ⟨hb, fun a m => ?_, fun a => parent_define s b a n v, rfl, envs_size_define s b n v⟩
  rw [local?_define]
  refine if_congr ⟨fun h => ⟨h.1.symm, h.2.2.symm⟩, ?_⟩ rfl rfl
  rintro ⟨rfl, rfl⟩
  exact ⟨rfl, hlt, rfl⟩

namespace Overwrites

/-- No environment gets or loses a variable. -/
theorem hasLocal (h : s.Overwrites b n v t) (a : EnvRef) (m : String) : t.hasLocal a m = s.hasLocal a m := by
  show (t.local? a m).isSome = s.hasLocal a m
  rw [h.local?]
  split
  · next hc => rw [hc.1, hc.2, h.bound, Option.isSome_some]
  · rfl

theorem lineage (h : s.Overwrites b n v t) (hl : s.Lineage e l) : t.Lineage e l := by
  induction hl with
  | last hlast => exact .last ((h.parent _).trans hlast)
  | cons hp _ ih => exact .cons ((h.parent _).trans hp) ih

/-- Ways outwards still end. -/
theorem wellFounded (h : s.Overwrites b n v t) (hs : WellFounded fun p e => (s.env e).parent = some p) :
    WellFounded fun p e => (t.env e).parent = some p :=
  Subrelation.wf (fun {_ a} hp => (h.parent a).symm.trans hp) hs

/-- From every environment, the new value is read where the changed entry is the nearest one. -/
theorem get (hs : WellFounded fun p e => (s.env e).parent = some p) (h : s.Overwrites b n v t)
    (hl : s.Lineage e l) (m : String) :
    t.get e m = if m = n ∧ s.nearest? n l = some b then .ok v else s.get e m := by
  have hnearest : t.nearest? m l = s.nearest? m l := by simp only [nearest?, h.hasLocal]
  rw [(h.lineage hl).get (h.wellFounded hs), hl.get hs, hnearest]
  by_cases hm : m = n
  · subst hm
    cases hb : s.nearest? m l with
    | none => simp
    | some a =>
      rw [Option.bind_some, Option.bind_some, h.local?]
      by_cases ha : a = b <;> simp [ha]
  · rw [if_neg fun hc => hm hc.1]
    cases s.nearest? m l with
    | none => rfl
    | some a => rw [Option.bind_some, Option.bind_some, h.local?, if_neg fun hc => hm hc.2]

theorem getAt (h : s.Overwrites b n v t) (hl : s.Lineage e l) (m : String) (k : Nat) :
    t.getAt e m k = if m = n ∧ l[k]? = some b then .ok v else s.getAt e m k := by
  rw [(h.lineage hl).getAt, hl.getAt]
  cases l[k]? with
  | none => simp
  | some a =>
    rw [Option.elim_some, Option.elim_some, h.local?]
    by_cases hc : a = b ∧ m = n
    · rw [if_pos hc, if_pos ⟨hc.2, congrArg some hc.1⟩]
      rfl
    · rw [if_neg hc, if_neg fun h => hc ⟨Option.some.inj h.2, h.1⟩]

end Overwrites

namespace Lineage

theorem getAt_eq_ok_iff (h : s.Lineage e l) {d : Nat} {w : Value} :
    s.getAt e n d = .ok w ↔ ∃ a, l[d]? = some a ∧ s.local? a n = some w := by
  rw [h.getAt]
  cases l[d]? with
  | none => simp
  | some a => cases hw : s.local? a n <;> simp [hw]

/-- The nearest environment with the variable is the one at the least depth at which the variable is
    found. -/
theorem get_eq_ok_iff (hs : WellFounded fun p e => (s.env e).parent = some p) (h : s.Lineage e l)
    {w : Value} : s.get e n = .ok w
    ↔ ∃ k, s.getAt e n k = .ok w ∧ ∀ j < k, ∀ u, s.getAt e n j ≠ .ok u := by
  have hget : s.get e n = .ok w ↔ ∃ b, s.nearest? n l = some b ∧ s.local? b n = some w := by
    rw [h.get hs, ← Option.bind_eq_some_iff]
    cases (s.nearest? n l).bind (s.local? · n) <;> simp
  rw [hget]
  constructor
  · rintro ⟨b, hb, hw⟩
    obtain ⟨-, k, hk, rfl, hbefore⟩ := List.find?_eq_some_iff_getElem.1 hb
    refine ⟨k, h.getAt_eq_ok_iff.2 ⟨_, List.getElem?_eq_getElem hk, hw⟩, fun j hj u hu => ?_⟩
    obtain ⟨a, ha, hu⟩ := h.getAt_eq_ok_iff.1 hu
    obtain ⟨_, rfl⟩ := List.getElem?_eq_some_iff.1 ha
    have hnot := hbefore j hj
    rw [(hasLocal_iff s _ n).2 ⟨u, hu⟩] at hnot
    cases hnot
  · rintro ⟨k, hk, hleast⟩
    obtain ⟨b, hb, hw⟩ := h.getAt_eq_ok_iff.1 hk
    obtain ⟨hlt, hb⟩ := List.getElem?_eq_some_iff.1 hb
    refine ⟨b, List.find?_eq_some_iff_getElem.2 ⟨(hasLocal_iff s b n).2 ⟨w, hw⟩, k, hlt, hb, ?_⟩, hw⟩
    intro j hj
    cases hj' : s.hasLocal l[j] n with
    | false => rfl
    | true =>
      obtain ⟨u, hu⟩ := (hasLocal_iff s _ n).1 hj'
      exact absurd (h.getAt_eq_ok_iff.2 ⟨_, List.getElem?_eq_getElem _, hu⟩) (hleast j hj u)

/-- What one finds from here, one can assign to; else the store is what it was. -/
theorem assign_cases (hs : WellFounded fun p e => (s.env e).parent = some p) (h : s.Lineage e l)
    (n : String) (v : Value) :
    (∃ b w, s.nearest? n l = some b ∧ s.get e n = .ok w ∧ Store.assign e n v s = .ok () (s.define b n v)
        ∧ s.Overwrites b n v (s.define b n v))
      ∨ s.get e n = .error (.undefinedVariable n)
        ∧ Store.assign e n v s = .error (.undefinedVariable n) s := by
  rw [h.get hs, h.assign hs]
  cases hb : s.nearest? n l with
  | none => exact .inr ⟨rfl, rfl⟩
  | some b =>
    have hlocal : s.hasLocal b n = true := List.find?_some (p := (s.hasLocal · n)) hb
    obtain ⟨w, hw⟩ := (hasLocal_iff s b n).1 hlocal
    refine .inl ⟨b, w, rfl, ?_, rfl, overwrites_define hlocal v⟩
    rw [Option.bind_some, hw]
    rfl

/-- At a given depth there is no environment, or one without the variable, or one with it. -/
theorem assignAt_cases (h : s.Lineage e l) (n : String) (v : Value) (d : Nat) :
    (l.length ≤ d ∧ l[d]? = none ∧ s.getAt e n d = .error (.misresolved n)
        ∧ Store.assignAt e n v d s = .error (.misresolved n) s)
      ∨ ∃ a, d < l.length ∧ l[d]? = some a
        ∧ ((s.local? a n = none ∧ s.getAt e n d = .error (.undefinedVariable n)
            ∧ Store.assignAt e n v d s = .error (.undefinedVariable n) s)
          ∨ ∃ w, s.local? a n = some w ∧ s.getAt e n d = .ok w
            ∧ Store.assignAt e n v d s = .ok () (s.define a n v) ∧ s.Overwrites a n v (s.define a n v)) := by
  rw [h.getAt, h.assignAt]
  cases ha : l[d]? with
  | none => exact .inl ⟨List.getElem?_eq_none_iff.1 ha, rfl, rfl, rfl⟩
  | some a =>
    refine .inr ⟨a, (List.getElem?_eq_some_iff.1 ha).1, rfl, ?_⟩
    cases hw : s.local? a n with
    | none =>
      have hlocal : s.hasLocal a n = false := by
        show (s.local? a n).isSome = false
        rw [hw, Option.isSome_none]
      exact .inl ⟨rfl, by simp [hw], by simp [hlocal]⟩
    | some w =>
      have hlocal := (hasLocal_iff s a n).2 ⟨w, hw⟩
      exact .inr ⟨w, rfl, by simp [hw], by simp [hlocal], overwrites_define hlocal v⟩

end Lineage

end Store

/-- Where the parents of all environments lead outwards to an end, reading and writing agree with each
    other, from whichever environment. An assignment that fails leaves the store as it was. -/
theorem environments_coherent (s : Store) (hs : WellFounded fun p e => (s.env e).parent = some p) :
    (∀ e, ∃! l, s.Lineage e l) ∧ ∀ e l, s.Lineage e l → ∀ n v,
      ((∃ t, Store.assign e n v s = .ok () t) ↔ ∃ w, s.get e n = .ok w)
      ∧ (∀ c t, Store.assign e n v s = .error c t
        ↔ c = .undefinedVariable n ∧ s.get e n = .error c ∧ t = s)
      ∧ (∀ t, Store.assign e n v s = .ok () t → ∃ b, s.nearest? n l = some b ∧ s.Overwrites b n v t
          ∧ ∀ e' l', s.Lineage e' l' → ∀ m,
            t.get e' m = if m = n ∧ s.nearest? n l' = some b then .ok v else s.get e' m)
      ∧ (∀ w, s.get e n = .ok w ↔ ∃ k, s.getAt e n k = .ok w ∧ ∀ j < k, ∀ u, s.getAt e n j ≠ .ok u)
      ∧ ∀ d, (s.getAt e n d = .error (.misresolved n) ↔ l.length ≤ d)
        ∧ (s.getAt e n d = .error (.undefinedVariable n) ↔ ∃ a, l[d]? = some a ∧ s.local? a n = none)
        ∧ (∀ w, s.getAt e n d = .ok w ↔ ∃ a, l[d]? = some a ∧ s.local? a n = some w)
        ∧ (∀ c t, Store.assignAt e n v d s = .error c t ↔ s.getAt e n d = .error c ∧ t = s)
        ∧ ∀ t, Store.assignAt e n v d s = .ok () t → ∃ a, l[d]? = some a ∧ s.Overwrites a n v t
          ∧ ∀ e' l', s.Lineage e' l' → ∀ m k,
            t.getAt e' m k = if m = n ∧ l'[k]? = some a then .ok v else s.getAt e' m k := by
  refine ⟨fun e => ?_, fun e l hl n v => ⟨?_, ?_, ?_, fun w => hl.get_eq_ok_iff hs, fun d => ?_⟩⟩
  · obtain ⟨l, hl⟩ := Store.Lineage.exists_of_wellFounded hs e
    exact ⟨l, hl, fun l' hl' => hl'.unique hl⟩
  · obtain ⟨b, w, -, hget, hassign, -⟩ | ⟨hget, hassign⟩ := hl.assign_cases hs n v <;> simp [hget, hassign]
  · obtain ⟨b, w, -, hget, hassign, -⟩ | ⟨hget, hassign⟩ := hl.assign_cases hs n v
    · simp [hget, hassign]
    · simp [hget, hassign, eq_comm]
  · obtain ⟨b, w, hb, -, hassign, hover⟩ | ⟨-, hassign⟩ := hl.assign_cases hs n v
    · rw [hassign]
      rintro t ⟨⟩
      exact ⟨b, hb, hover, fun e' l' hl' => hover.get hs hl'⟩
    · intro t ht
      cases hassign.symm.trans ht
  · refine ⟨?_, ?_, fun w => hl.getAt_eq_ok_iff, ?_, ?_⟩
    all_goals
      obtain ⟨hle, ha, hget, hassign⟩ | ⟨a, hlt, ha, ⟨hnone, hget, hassign⟩ | ⟨w, hw, hget, hassign, hover⟩⟩ :=
        hl.assignAt_cases n v d
    · simp [hget, hle]
    · simpa [hget] using hlt
    · simpa [hget] using hlt
    · simp [hget, ha]
    · simp [hget, ha, hnone]
    · simp [hget, ha, hw]
    · simp [hget, hassign, eq_comm]
    · simp [hget, hassign, eq_comm]
    · simp [hget, hassign]
    · simp [hassign]
    · simp [hassign]
    · rw [hassign]
      rintro t ⟨⟩
      exact ⟨a, ha, hover, fun e' l' hl' => hover.getAt hl'⟩

/-- Two scopes inside another, whose variable the first of them has too. -/
def Store.shadowing : Store where
  envs := #[{ bindings := Table.insert {} "x" (.bool true) },
    { bindings := Table.insert {} "x" .nil, parent := some 0 }, { parent := some 0 }]

theorem environments_coherent_shadowing :
    (WellFounded fun p e => (Store.shadowing.env e).parent = some p)
      ∧ ∃ t, Store.assign 2 "x" (.bool false) Store.shadowing = .ok () t ∧ t.get 0 "x" = .ok (.bool false)
        ∧ t.get 1 "x" = Store.shadowing.get 1 "x"
        ∧ Store.shadowing.getAt 2 "x" 2 = .error (.misresolved "x") := by
  have hparent : ∀ p e, (Store.shadowing.env e).parent = some p → p < e := by
    intro p e h
    rcases e with _ | _ | _ | e <;> cases h <;> decide
  have hs := Subrelation.wf (hparent _ _) Nat.lt_wfRel.wf
  have hshared := (environments_coherent Store.shadowing hs).2 2 [2, 0] (.cons rfl (.last rfl)) "x" (.bool false)
  obtain ⟨t, ht⟩ := hshared.1.2 ⟨.bool true, rfl⟩
  obtain ⟨b, hb, -, hreads⟩ := hshared.2.2.1 t ht
  cases hb
  refine ⟨hs, t, ht, (hreads 0 [0] (.last rfl) "x").trans (if_pos ⟨rfl, rfl⟩),
    (hreads 1 [1, 0] (.cons rfl (.last rfl)) "x").trans (if_neg ?_),
    (hshared.2.2.2.2 2).1.2 (Nat.le_refl 2)⟩
  rintro ⟨-, h⟩
  cases h

end Eleu
