import Eleu.Proofs.Isolation.Machine
import Eleu.Proofs.Isolation.Renumber
import Eleu.Proofs.Isolation.Walker
import Eleu.Proofs.Tree.Regular
import Eleu.Session
import Mathlib.Data.Nat.Pairing

/-! # The source texts of a session

    The ids of every source text start anew, but the executor of a session has one table of
    distances for all texts, and the machine finds the chunk of a function by its id alone. A
    session is isolated if it goes on as if all texts had ids of their own, that is, as if the
    `u`-th of them had been renumbered by `ρ u`, where no two numbers `ρ u i` are the same.

    This is not so in general (`session_mixes_texts`): a function may be called with the chunk of
    a function of an earlier text, and a reference may get the distance of a reference of another
    text. `session_isolated` says when it is so. Of two texts the later one must not have a global
    where the earlier one has a distance, and must not change a distance in a function of the
    earlier one (`Undisturbed`); on the machine, functions of the same id must also have the same
    chunk (`SameChunks`).

    The proof sets the session and the renumbered session side by side. `Executor.Alike` relates
    the two executors after any number of texts, and one more text preserves it. -/

namespace Eleu

variable {texts : List (String × String)} {programs : List (List Item)} {t : Source}

/-! ## Sessions -/

/-- The programs of source texts that are numbered from `unit` on, all of which are well formed. -/
def parseTexts (r : Recovery) : (unit : Nat) → List (String × String) →
    Except (List Diagnostic) (List (List Item))
  | _, [] => .ok []
  | unit, (file, source) :: texts => do
    let items ← parseText r unit file source
    let programs ← parseTexts r (unit + 1) texts
    return items :: programs

/-- Requests to run source texts, one after the other. -/
def Request.runs (texts : List (String × String)) : List Request :=
  texts.map fun t => .run t.1 t.2

/-- Answers requests one after the other, and gives for each the reply and all that was written up
    to then. -/
def Session.transcript (o : Options) (fuel : Nat) : List Request → Session → List (Reply × Journal)
  | [], _ => []
  | r :: rs, s =>
    let (reply, s) := s.serve o fuel r
    (reply, s.executor.world.journal) :: s.transcript o fuel rs

/-- Runs programs one after the other on one executor, and gives for each the reply and all that was
    written up to then. -/
def Executor.transcript (o : Options) (fuel : Nat) :
    List (List Item) → Executor → List (Reply × Journal)
  | [], _ => []
  | program :: programs, x =>
    let (reply, x) := Session.runItems o fuel program x
    (reply, x.world.journal) :: x.transcript o fuel programs

/-- Programs with other ids, where `ρ u` renumbers the one with the number `u`. -/
def renumberTexts (ρ : Nat → Nat → Nat) : (unit : Nat) → List (List Item) → List (List Item)
  | _, [] => []
  | unit, items :: programs => itemsRenumber (ρ unit) items :: renumberTexts ρ (unit + 1) programs

/-- The executors as a host sets them up. -/
def Executor.Hosted (ns : List HostNative) (x : Executor) : Prop :=
  x = .walker (Walker.fresh.withNatives ns) ∨ x = .machine (Machine.fresh.withNatives ns)

/-- The references of two programs, of which `b` runs later, do not get in each other's way: where
    `b` has a global, `a` has no distance, and `b` changes no distance in a function of `a`. -/
def Undisturbed (a b : List Item) : Prop :=
  ∀ d e, resolve a = .ok d → resolve b = .ok e →
    (∀ id ∈ itemsRefs b, e.get? id = none → d.get? id = none)
      ∧ ∀ f ∈ declarationsIn a, ∀ id ∈ f.refs, ∀ n ∈ e.get? id, d.get? id = some n

instance (a b : List Item) : Decidable (Undisturbed a b) :=
  match ha : resolve a, hb : resolve b with
  | .ok d, .ok e =>
    decidable_of_iff ((∀ id ∈ itemsRefs b, e.get? id = none → d.get? id = none)
        ∧ ∀ f ∈ declarationsIn a, ∀ id ∈ f.refs, ∀ n ∈ e.get? id, d.get? id = some n) <| by
      constructor
      · intro h d' e' hd he
        cases ha.symm.trans hd
        cases hb.symm.trans he
        exact h
      · intro h
        exact h d e ha hb
  | .error _, _ => .isTrue fun _ _ hd _ => nomatch ha.symm.trans hd
  | _, .error _ => .isTrue fun _ _ _ he => nomatch hb.symm.trans he

/-- Functions of two programs that have the same id have the same chunk. -/
def SameChunks (a b : List Item) : Prop :=
  ∀ d e, resolve a = .ok d → resolve b = .ok e →
    ∀ f ∈ declarationsIn a, ∀ g ∈ declarationsIn b, f.id = g.id →
      functionChunk d f = functionChunk e g

/-- What the executor needs of two programs to keep them apart. -/
def Executor.Separates : Executor → List Item → List Item → Prop
  | .walker _, a, b => Undisturbed a b
  | .machine _, a, b => Undisturbed a b ∧ SameChunks a b

theorem Executor.separates_runItems (o : Options) (fuel : Nat) (items : List Item) (x : Executor) :
    (Session.runItems o fuel items x).2.Separates = x.Separates := by
  cases x <;> rfl

theorem parseTexts_cons_eq_ok {r : Recovery} {unit : Nat} {file source : String}
    (h : parseTexts r unit ((file, source) :: texts) = .ok programs) :
    ∃ items rest, parseText r unit file source = .ok items
      ∧ parseTexts r (unit + 1) texts = .ok rest ∧ programs = items :: rest := by
  rw [parseTexts] at h
  obtain ⟨items, hitems, h⟩ := Outcome.except_bind_eq_ok.1 h
  obtain ⟨rest, hrest, h⟩ := Outcome.except_bind_eq_ok.1 h
  cases h
  exact ⟨items, rest, hitems, hrest, rfl⟩

/-- A session on texts that are well formed runs their programs. -/
theorem Session.transcript_runs (o : Options) (fuel : Nat) {unit : Nat} (x : Executor)
    (h : parseTexts o.recovery unit texts = .ok programs) :
    Session.transcript o fuel (Request.runs texts) { executor := x, units := unit }
      = x.transcript o fuel programs := by
  induction texts generalizing programs unit x with
  | nil =>
    cases h
    rfl
  | cons text texts ih =>
    obtain ⟨file, source⟩ := text
    obtain ⟨items, rest, hitems, hrest, rfl⟩ := parseTexts_cons_eq_ok h
    have hserve : Session.serve o fuel (.run file source) { executor := x, units := unit }
        = ((Session.runItems o fuel items x).1,
          { executor := (Session.runItems o fuel items x).2, units := unit + 1 }) := by
      cases x <;> simp only [Session.serve, Session.supports, Session.answer, Session.withText,
        World.parse, hitems] <;> rfl
    rw [Request.runs, List.map_cons, Session.transcript, hserve, Executor.transcript]
    exact congrArg _ (ih _ hrest)

/-! ## Texts that an executor was given -/

/-- A source text that was resolved: its number, its items and their distances. -/
structure Source where
  unit : Nat
  items : List Item
  distances : Distances
  resolved : resolve items = .ok distances
  nodup : (itemsIds items).Nodup
  ofUnit : OfUnit unit (declarationsIn items)

theorem Source.unique (t : Source) : t.distances.Unique := resolve_unique t.resolved

/-- The declarations of the texts, each paired with its renumbered form. -/
def Counterparts (ρ : Nat → Nat → Nat) (texts : List Source) : Pairing :=
  fun a a' => ∃ t ∈ texts, a ∈ declarationsIn t.items ∧ a' = a.renumber (ρ t.unit)

theorem Counterparts.tail {ρ : Nat → Nat → Nat} {texts : List Source} (t : Source)
    (a a' : FunctionDecl) : Counterparts ρ texts a a' → Counterparts ρ (t :: texts) a a' := by
  rintro ⟨u, hu, ha⟩
  exact ⟨u, .tail _ hu, ha⟩

/-- The tables of the two sessions after the texts. The first has the distances in their functions,
    and the second all distances under the new ids. -/
structure TablesOf (ρ : Nat → Nat → Nat) (texts : List Source) (d d' : Distances) : Prop where
  kept : ∀ t ∈ texts, ∀ f ∈ declarationsIn t.items, ∀ id ∈ f.refs, d.get? id = t.distances.get? id
  noted : ∀ id n, d.get? id = some n → ∃ t ∈ texts, t.distances.get? id = some n
  kept' : ∀ t ∈ texts, ∀ id, d'.get? (ρ t.unit id) = t.distances.get? id
  noted' : ∀ id n, d'.get? id = some n → ∃ t ∈ texts, ∃ k, ρ t.unit k = id

namespace TablesOf

variable {ρ : Nat → Nat → Nat} {texts : List Source} {d d' : Distances}

theorem empty : TablesOf ρ [] {} {} where
  kept _ ht := nomatch ht
  noted _ _ hn := nomatch hn
  kept' _ ht := nomatch ht
  noted' _ _ hn := nomatch hn

/-- Every reference of one more text has its own distance after that. -/
theorem own (h : TablesOf ρ texts d d') (t : Source)
    (hapart : ∀ u ∈ texts, Undisturbed u.items t.items) {id : Nat} (hid : id ∈ itemsRefs t.items) :
    (d.union t.distances).get? id = t.distances.get? id := by
  rw [Table.get?_union d t.unique]
  cases he : t.distances.get? id with
  | some n => rfl
  | none =>
    -- a distance in the table would come from an earlier text, where this one has a global
    cases hd : d.get? id with
    | none => rfl
    | some n =>
      obtain ⟨u, hu, hn⟩ := h.noted id n hd
      have hnone := (hapart u hu _ _ u.resolved t.resolved).1 id hid he
      rw [hn] at hnone
      exact nomatch hnone

/-- Every new id of one more text has the distance of the old one after that. -/
theorem own' (hρ : Function.Injective2 ρ) (h : TablesOf ρ texts d d') (t : Source)
    (hunit : ∀ u ∈ texts, u.unit ≠ t.unit) (id : Nat) :
    (d'.union (t.distances.mapKeys (ρ t.unit))).get? (ρ t.unit id) = t.distances.get? id := by
  rw [Table.get?_union d' (t.unique.mapKeys (hρ.right t.unit)),
    Table.get?_mapKeys (hρ.right t.unit)]
  cases he : t.distances.get? id with
  | some n => rfl
  | none =>
    cases hd : d'.get? (ρ t.unit id) with
    | none => rfl
    | some n =>
      obtain ⟨u, hu, k, hk⟩ := h.noted' _ n hd
      exact absurd (hρ hk).1 (hunit u hu)

/-- The tables after one more text. -/
theorem load (hρ : Function.Injective2 ρ) (h : TablesOf ρ texts d d') (t : Source)
    (hunit : ∀ u ∈ texts, u.unit ≠ t.unit) (hapart : ∀ u ∈ texts, Undisturbed u.items t.items) :
    TablesOf ρ (t :: texts) (d.union t.distances)
      (d'.union (t.distances.mapKeys (ρ t.unit))) where
  kept u hu f hf id hid := by
    rcases List.mem_cons.1 hu with rfl | hu
    · exact h.own u hapart (refs_inside hf hid)
    · rw [Table.get?_union d t.unique, h.kept u hu f hf id hid]
      cases he : t.distances.get? id with
      | none => rfl
      | some n => exact ((hapart u hu _ _ u.resolved t.resolved).2 f hf id hid n he).symm
  noted id n hn := by
    rw [Table.get?_union d t.unique] at hn
    cases he : t.distances.get? id with
    | some m =>
      rw [he] at hn
      exact ⟨t, .head _, he.trans hn⟩
    | none =>
      rw [he] at hn
      obtain ⟨u, hu, hget⟩ := h.noted id n hn
      exact ⟨u, .tail _ hu, hget⟩
  kept' u hu id := by
    rcases List.mem_cons.1 hu with rfl | hu
    · exact h.own' hρ u hunit id
    · rw [Table.get?_union d' (t.unique.mapKeys (hρ.right t.unit)), h.kept' u hu id]
      -- the new ids of this text are none of those of the earlier one
      cases he : (t.distances.mapKeys (ρ t.unit)).get? (ρ u.unit id) with
      | none => rfl
      | some n =>
        obtain ⟨k, hk⟩ := Table.exists_of_get?_mapKeys he
        exact absurd (hρ hk).1.symm (hunit u hu)
  noted' id n hn := by
    rw [Table.get?_union d' (t.unique.mapKeys (hρ.right t.unit))] at hn
    cases he : (t.distances.mapKeys (ρ t.unit)).get? id with
    | some m => exact ⟨t, .head _, Table.exists_of_get?_mapKeys he⟩
    | none =>
      rw [he] at hn
      obtain ⟨u, hu, hk⟩ := h.noted' id n hn
      exact ⟨u, .tail _ hu, hk⟩

/-- The references of one more text keep their distances when it is renumbered. -/
theorem carries (hρ : Function.Injective2 ρ) (h : TablesOf ρ texts d d') (t : Source)
    (hunit : ∀ u ∈ texts, u.unit ≠ t.unit) (hapart : ∀ u ∈ texts, Undisturbed u.items t.items) :
    Carries (Counterparts ρ (t :: texts)) (d.union t.distances)
      (d'.union (t.distances.mapKeys (ρ t.unit))) (ρ t.unit) (itemsRefs t.items)
      (declarationsIn t.items) where
  agree id hid := by rw [h.own' hρ t hunit id, h.own t hapart hid]
  paired f hf := ⟨t, .head _, hf, rfl⟩

theorem agreeOn (h : TablesOf ρ texts d d') (ht : t ∈ texts) {f : FunctionDecl}
    (hf : f ∈ declarationsIn t.items) : AgreeOn (ρ t.unit) d d' f.refs :=
  fun id hid => (h.kept' t ht id).trans (h.kept t ht f hf id hid).symm

/-- The functions of the texts are like their renumbered forms. -/
theorem fits (hρ : Function.Injective2 ρ) (h : TablesOf ρ texts d d') :
    (Counterparts ρ texts).Fits d d' where
  like := by
    rintro a _ ⟨t, ht, ha, rfl⟩
    refine a.like_renumber (h.agreeOn ht ha) fun inner hinner => ?_
    exact ⟨t, ht, declarations_inside ha hinner, rfl⟩
  same := by
    rintro a _ b _ ⟨t, ht, ha, rfl⟩ ⟨u, hu, hb, rfl⟩
    -- the numbers of the texts tell their declarations apart, whatever the ids
    have hiff : (a.renumber (ρ t.unit)).same (b.renumber (ρ u.unit)) = true ↔ a.same b = true := by
      simp only [FunctionDecl.same, FunctionDecl.renumber_eq, Bool.and_eq_true, beq_iff_eq,
        t.ofUnit a ha, u.ofUnit b hb]
      constructor
      · rintro ⟨hunit, hid⟩
        exact ⟨hunit, (hρ hid).2⟩
      · rintro ⟨hunit, hid⟩
        exact ⟨hunit, by rw [hunit, hid]⟩
    exact Bool.eq_iff_iff.2 hiff

/-- The chunk of a function is the one that the table of its own text gives. -/
theorem functionChunk_eq (h : TablesOf ρ texts d d') (ht : t ∈ texts) {f : FunctionDecl}
    (hf : f ∈ declarationsIn t.items) : functionChunk d f = functionChunk t.distances f :=
  functionChunk_congr (h.kept t ht f hf)

/-- One more text changes no chunk of a function of the earlier ones. -/
theorem functionChunk_tail {e e' : Distances} (h : TablesOf ρ (t :: texts) e e')
    (hold : TablesOf ρ texts d d') (a a' : FunctionDecl) (ha : Counterparts ρ texts a a') :
    functionChunk e a = functionChunk d a := by
  obtain ⟨u, hu, ha, -⟩ := ha
  rw [h.functionChunk_eq (.tail _ hu) ha, hold.functionChunk_eq hu ha]

theorem functionChunk_tail' {e e' : Distances} (h : TablesOf ρ (t :: texts) e e')
    (hold : TablesOf ρ texts d d') (a a' : FunctionDecl) (ha : Counterparts ρ texts a a') :
    functionChunk e' a' = functionChunk d' a' := by
  obtain ⟨u, hu, ha, rfl⟩ := ha
  exact functionChunk_renumber (fun id _ => h.kept' u (.tail _ hu) id)
    fun id _ => hold.kept' u hu id

/-- If functions with the same id have the same chunk, then every call finds the right one. -/
theorem compiles (hρ : Function.Injective2 ρ) (h : TablesOf ρ texts d d')
    (hunits : ∀ t ∈ texts, ∀ u ∈ texts, t.unit = u.unit → t = u)
    (hchunks : ∀ t ∈ texts, ∀ u ∈ texts, SameChunks t.items u.items) :
    (Counterparts ρ texts).Compiles d d' where
  toFits := h.fits hρ
  own := by
    rintro a _ b _ ⟨t, ht, ha, rfl⟩ ⟨u, hu, hb, rfl⟩ hid
    rw [h.functionChunk_eq ht ha, h.functionChunk_eq hu hb]
    exact hchunks t ht u hu _ _ t.resolved u.resolved a ha b hb hid
  own' := by
    rintro a _ b _ ⟨t, ht, ha, rfl⟩ ⟨u, hu, hb, rfl⟩ hid
    rw [FunctionDecl.renumber_eq, FunctionDecl.renumber_eq] at hid
    obtain ⟨hunit, hold⟩ := hρ hid
    obtain rfl := hunits t ht u hu hunit
    obtain rfl := decl_eq_of_id t.nodup ha hb hold
    rfl

end TablesOf

/-! ## One more text -/

section

variable {P Q : Pairing} {d d' e e' : Distances} {o : Options} {items items' : List Item}
  {f : Fault} {g : Nat → Nat}

/-- Walkers that refuse a program. -/
theorem Walker.Alike.refuse {w w' : Walker} (h : w.Alike P d d' w') (hr : resolve items = .error f)
    (hr' : resolve items' = .error f) (fuel : Nat) :
    (w'.run o fuel items').1 = (w.run o fuel items).1
      ∧ (w.run o fuel items).2.Alike P d d' (w'.run o fuel items').2 := by
  obtain ⟨s', hs, hd, rfl⟩ := h
  rw [run_refused hr, run_refused hr']
  exact ⟨rfl, s', hs, hd, rfl⟩

/-- Alike ends of a run are reported alike. -/
theorem Walker.Alike.report {x x' : EStateM.Result Interrupt Walker Unit}
    (h : EndAlike (Walker.Alike P d d') Eq x x') :
    (Walker.report o x').1 = (Walker.report o x).1
      ∧ (Walker.report o x).2.Alike P d d' (Walker.report o x').2 := by
  cases h with
  | ok _ ht => exact ⟨rfl, ht⟩
  | @error t t' interrupt ht =>
    cases interrupt with
    | outOfFuel => exact ⟨rfl, ht⟩
    | fault f =>
      obtain ⟨s', hs, hd, rfl⟩ := ht
      have hworld : t.world.Alike (Store.Like P) { t.world with store := s' } := ⟨s', hs, rfl⟩
      by_cases hf : f.cause.kind = .resolve
      · rw [report_static hf, report_static hf]
        exact ⟨rfl, s', hs, hd, rfl⟩
      · rw [report_fault hf, report_fault hf]
        obtain ⟨u', hu, heq⟩ := hworld.reportFault o f ((t.trace.getD []).map CallSite.text)
        refine ⟨rfl, u', hu, hd, ?_⟩
        dsimp only
        rw [heq]

/-- Walkers that take over the distances of a program and of its renumbered form and run them. -/
theorem Walker.Alike.run {w w' : Walker} (h : w.Alike P d d' w') (hPQ : ∀ a a', P a a' → Q a a')
    (hr : resolve items = .ok e) (hr' : resolve (itemsRenumber g items) = .ok e') (ho : o.OpaqueHost)
    (hQ : Q.Fits (d.union e) (d'.union e'))
    (hg : Carries Q (d.union e) (d'.union e') g (itemsRefs items) (declarationsIn items)) (fuel : Nat) :
    (w'.run o fuel (itemsRenumber g items)).1 = (w.run o fuel items).1
      ∧ (w.run o fuel items).2.Alike Q (d.union e) (d'.union e')
        (w'.run o fuel (itemsRenumber g items)).2 := by
  obtain ⟨s', hs, rfl, rfl⟩ := h
  have hend := Walk.program_along ho hQ fuel hg (w.started e) _ ⟨s', hs.mono hPQ, rfl, rfl⟩
  rw [run_resolved hr, run_resolved hr']
  exact Alike.report hend

theorem Machine.Alike.refuse {m m' : Machine} (h : m.Alike P d d' m')
    (hr : resolve items = .error f) (hr' : resolve items' = .error f) (fuel : Nat) :
    (m'.run o fuel items').1 = (m.run o fuel items).1
      ∧ (m.run o fuel items).2.Alike P d d' (m'.run o fuel items').2 := by
  unfold Machine.run Machine.start
  rw [hr, hr']
  exact ⟨rfl, h.inJournal rfl (h.world.complain _)⟩

/-- Machines that take over more distances. The chunks noted so far are still right. -/
theorem Machine.Alike.load {m m' : Machine} (h : m.Alike P d d' m') (hPQ : ∀ a a', P a a' → Q a a')
    (hchunk : ∀ a a', P a a' → functionChunk e a = functionChunk d a)
    (hchunk' : ∀ a a', P a a' → functionChunk e' a' = functionChunk d' a') :
    Machine.Alike Q e e' { m with distances := e } { m' with distances := e' } :=
  { h with
    world := by
      obtain ⟨s', hs, heq⟩ := h.world
      exact ⟨s', hs.mono hPQ, heq⟩
    stack := h.stack.imp fun _ _ => Value.Like.mono hPQ
    frames := h.frames.imp fun _ _ hf => by
      cases hf with
      | mk hc => exact .mk (hc.mono hPQ) ..
    code := by
      refine ⟨rfl, rfl, fun id chunk hget => ?_, fun id chunk hget => ?_⟩
      · obtain ⟨a, ⟨a', ha⟩, hid, hok⟩ := h.code.chunks id chunk hget
        exact ⟨a, ⟨a', hPQ _ _ ha⟩, hid, (hchunk a a' ha).trans hok⟩
      · obtain ⟨a', ⟨a, ha⟩, hid, hok⟩ := h.code.chunks' id chunk hget
        exact ⟨a', ⟨a, hPQ _ _ ha⟩, hid, (hchunk' a a' ha).trans hok⟩ }

/-- Machines that have taken over the distances of a program and of its renumbered form and run
    them. -/
theorem Machine.Alike.run {m m' : Machine} (hr : resolve items = .ok e)
    (hr' : resolve (itemsRenumber g items) = .ok e') (h : Machine.Alike P d d'
      { m with distances := m.distances.union e } { m' with distances := m'.distances.union e' })
    (ho : o.OpaqueHost) (hP : P.Compiles d d')
    (hg : Carries P d d' g (itemsRefs items) (declarationsIn items)) (fuel : Nat) :
    (m'.run o fuel (itemsRenumber g items)).1 = (m.run o fuel items).1
      ∧ (m.run o fuel items).2.Alike P d d' (m'.run o fuel (itemsRenumber g items)).2 := by
  have hchunk := programChunk_renumber "script" hg
  rw [← h.code.distances, ← h.code.distances'] at hchunk
  unfold Machine.run Machine.start
  rw [hr, hr']
  dsimp only at hchunk ⊢
  generalize programChunk (m.distances.union e) "script" items = x at hchunk ⊢
  generalize programChunk (m'.distances.union e') "script" (itemsRenumber g items) = x' at hchunk ⊢
  cases hchunk with
  | error f => exact ⟨rfl, h.inJournal rfl (h.world.complain _)⟩
  | ok hc =>
    exact (hP.lawful ho).interpret trivial (h.begun trivial hc) fuel

end

theorem SameChunks.symm {a b : List Item} (h : SameChunks a b) : SameChunks b a :=
  fun d e hd he f hf g hg hid => (h e d he hd g hg f hf hid.symm).symm

theorem Source.sameChunks (t : Source) : SameChunks t.items t.items := by
  intro d e hd he f hf g hg hid
  obtain rfl := decl_eq_of_id t.nodup hf hg hid
  cases hd.symm.trans he
  rfl

theorem Source.sameChunks_cons {texts : List Source}
    (hold : ∀ u ∈ texts, ∀ v ∈ texts, SameChunks u.items v.items)
    (hnew : ∀ u ∈ texts, SameChunks u.items t.items) :
    ∀ u ∈ t :: texts, ∀ v ∈ t :: texts, SameChunks u.items v.items := by
  refine List.forall_mem_cons.2 ⟨?_, fun u hu => ?_⟩
  · exact List.forall_mem_cons.2 ⟨t.sameChunks, fun v hv => (hnew v hv).symm⟩
  · exact List.forall_mem_cons.2 ⟨hnew u hu, hold u hu⟩

/-- Executors that were given the same texts, the second one their renumbered forms. -/
inductive Executor.Alike (ρ : Nat → Nat → Nat) (texts : List Source) :
    Executor → Executor → Prop where
  | walker {w w' : Walker} {d d' : Distances} (h : w.Alike (Counterparts ρ texts) d d' w')
    (htables : TablesOf ρ texts d d') : Alike ρ texts (.walker w) (.walker w')
  | machine {m m' : Machine} {d d' : Distances} (h : m.Alike (Counterparts ρ texts) d d' m')
    (htables : TablesOf ρ texts d d')
    (hchunks : ∀ t ∈ texts, ∀ u ∈ texts, SameChunks t.items u.items) :
    Alike ρ texts (.machine m) (.machine m')

namespace Executor.Alike

variable {ρ : Nat → Nat → Nat} {texts : List Source} {x x' : Executor} {o : Options}

theorem journal (h : x.Alike ρ texts x') : x'.world.journal = x.world.journal := by
  cases h with
  | walker h _ =>
    obtain ⟨s', -, -, rfl⟩ := h
    rfl
  | machine h _ _ => exact h.world.journal

/-- A text that is refused changes nothing but what was written. -/
theorem refuse (h : x.Alike ρ texts x') {items items' : List Item} {f : Fault}
    (hr : resolve items = .error f) (hr' : resolve items' = .error f) (fuel : Nat) :
    (Session.runItems o fuel items' x').1 = (Session.runItems o fuel items x).1
      ∧ (Session.runItems o fuel items x).2.Alike ρ texts
          (Session.runItems o fuel items' x').2 := by
  cases h with
  | walker h htables =>
    obtain ⟨hverdict, hafter⟩ := h.refuse hr hr' fuel
    exact ⟨congrArg Reply.ofVerdict? hverdict, .walker hafter htables⟩
  | machine h htables hchunks =>
    obtain ⟨hverdict, hafter⟩ := h.refuse hr hr' fuel
    exact ⟨congrArg Reply.ofVerdict? hverdict, .machine hafter htables hchunks⟩

/-- A text that the executor can keep apart from the earlier ones. -/
theorem run (hρ : Function.Injective2 ρ) (ho : o.OpaqueHost) (h : x.Alike ρ texts x') (t : Source)
    (hunits : ∀ u ∈ t :: texts, ∀ v ∈ t :: texts, u.unit = v.unit → u = v)
    (hnew : ∀ u ∈ texts, u.unit ≠ t.unit) (hapart : ∀ u ∈ texts, x.Separates u.items t.items)
    (fuel : Nat) :
    (Session.runItems o fuel (itemsRenumber (ρ t.unit) t.items) x').1
        = (Session.runItems o fuel t.items x).1
      ∧ (Session.runItems o fuel t.items x).2.Alike ρ (t :: texts)
          (Session.runItems o fuel (itemsRenumber (ρ t.unit) t.items) x').2 := by
  have hr' : resolve (itemsRenumber (ρ t.unit) t.items) = .ok (t.distances.mapKeys (ρ t.unit)) := by
    rw [resolve_renumber (hρ.right t.unit), t.resolved]
    rfl
  cases h with
  | walker h htables =>
    have hloaded := htables.load hρ t hnew hapart
    obtain ⟨hverdict, hafter⟩ := h.run (Counterparts.tail t) t.resolved hr' ho (hloaded.fits hρ)
      (htables.carries hρ t hnew hapart) fuel
    exact ⟨congrArg Reply.ofVerdict? hverdict, .walker hafter hloaded⟩
  | machine h htables hchunks =>
    have hdist : ∀ u ∈ texts, Undisturbed u.items t.items := fun u hu => (hapart u hu).1
    have hloaded := htables.load hρ t hnew hdist
    have hall := Source.sameChunks_cons hchunks fun u hu => (hapart u hu).2
    obtain rfl := h.code.distances
    obtain rfl := h.code.distances'
    have hm := h.load (Counterparts.tail t) (hloaded.functionChunk_tail htables)
      (hloaded.functionChunk_tail' htables)
    obtain ⟨hverdict, hafter⟩ := Machine.Alike.run t.resolved hr' hm ho
      (hloaded.compiles hρ hunits hall) (htables.carries hρ t hnew hdist) fuel
    exact ⟨congrArg Reply.ofVerdict? hverdict, .machine hafter hloaded hall⟩

end Executor.Alike

/-! ## Whole sessions -/

/-- The texts have different numbers, all of them below `unit`. -/
structure Source.Before (unit : Nat) (texts : List Source) : Prop where
  lt : ∀ t ∈ texts, t.unit < unit
  inj : ∀ t ∈ texts, ∀ u ∈ texts, t.unit = u.unit → t = u

theorem Source.Before.mono {m n : Nat} {texts : List Source} (h : Source.Before m texts)
    (hmn : m ≤ n) : Source.Before n texts :=
  ⟨fun t ht => Nat.lt_of_lt_of_le (h.lt t ht) hmn, h.inj⟩

theorem Source.Before.cons {texts : List Source} (h : Source.Before t.unit texts) :
    Source.Before (t.unit + 1) (t :: texts) where
  lt := List.forall_mem_cons.2 ⟨Nat.lt_succ_self _, fun u hu => Nat.lt_succ_of_lt (h.lt u hu)⟩
  inj := by
    refine List.forall_mem_cons.2 ⟨?_, fun u hu => ?_⟩
    · refine List.forall_mem_cons.2 ⟨fun _ => rfl, fun v hv hunit => ?_⟩
      exact absurd hunit.symm (h.lt v hv).ne
    · refine List.forall_mem_cons.2 ⟨fun hunit => ?_, h.inj u hu⟩
      exact absurd hunit (h.lt u hu).ne

section

variable {ρ : Nat → Nat → Nat} {o : Options} {x x' : Executor} {unit : Nat}

/-- One text of a session, whether or not it is refused. -/
theorem Executor.Alike.next (hρ : Function.Injective2 ρ) (ho : o.OpaqueHost) {loaded : List Source}
    (h : x.Alike ρ loaded x') (hbefore : Source.Before unit loaded) {file source : String}
    {items : List Item} (hparse : parseText o.recovery unit file source = .ok items)
    (hapart : ∀ t ∈ loaded, x.Separates t.items items) (fuel : Nat) :
    ∃ loaded', Source.Before (unit + 1) loaded' ∧ (∀ t ∈ loaded', t ∈ loaded ∨ t.items = items)
      ∧ (Session.runItems o fuel (itemsRenumber (ρ unit) items) x').1
          = (Session.runItems o fuel items x).1
      ∧ (Session.runItems o fuel items x).2.Alike ρ loaded'
          (Session.runItems o fuel (itemsRenumber (ρ unit) items) x').2 := by
  cases hr : resolve items with
  | error f =>
    have hr' : resolve (itemsRenumber (ρ unit) items) = .error f := by
      rw [resolve_renumber (hρ.right unit), hr]
      rfl
    exact ⟨loaded, hbefore.mono (Nat.le_succ _), fun t ht => .inl ht, h.refuse hr hr' fuel⟩
  | ok d =>
    have hnodup := (parseText_tree hparse).2
    let t : Source := ⟨unit, items, d, hr, hnodup, parseText_ofUnit hparse⟩
    have hbefore' : Source.Before (unit + 1) (t :: loaded) := Source.Before.cons (t := t) hbefore
    refine ⟨t :: loaded, hbefore', ?_, ?_⟩
    · exact List.forall_mem_cons.2 ⟨.inr rfl, fun u hu => .inl hu⟩
    · exact h.run hρ ho t hbefore'.inj (fun u hu => (hbefore.lt u hu).ne) hapart fuel

/-- The rest of a session. -/
theorem Executor.Alike.transcript_eq (hρ : Function.Injective2 ρ) (ho : o.OpaqueHost) (fuel : Nat)
    (hparse : parseTexts o.recovery unit texts = .ok programs) {loaded : List Source}
    (h : x.Alike ρ loaded x') (hbefore : Source.Before unit loaded)
    (hloaded : ∀ t ∈ loaded, ∀ b ∈ programs, x.Separates t.items b)
    (hprograms : programs.Pairwise x.Separates) :
    x.transcript o fuel programs = x'.transcript o fuel (renumberTexts ρ unit programs) := by
  -- the induction is on the texts still to come; those that have run are in `loaded`
  induction texts generalizing programs unit x x' loaded with
  | nil =>
    cases hparse
    rfl
  | cons text texts ih =>
    obtain ⟨file, source⟩ := text
    obtain ⟨items, rest, hitems, hrest, rfl⟩ := parseTexts_cons_eq_ok hparse
    obtain ⟨hfirst, hpairs⟩ := List.pairwise_cons.1 hprograms
    obtain ⟨loaded', hbefore', hmem, hreply, hafter⟩ :=
      h.next hρ ho hbefore hitems (fun t ht => hloaded t ht items (.head _)) fuel
    have hlater : ∀ t ∈ loaded', ∀ b ∈ rest,
        (Session.runItems o fuel items x).2.Separates t.items b := by
      intro t ht b hb
      rw [Executor.separates_runItems]
      rcases hmem t ht with ht | ht
      · exact hloaded t ht b (.tail _ hb)
      · rw [ht]
        exact hfirst b hb
    rw [← Executor.separates_runItems o fuel items] at hpairs
    rw [Executor.transcript, renumberTexts, Executor.transcript]
    dsimp only
    rw [hreply, hafter.journal, ih hrest hafter hbefore' hlater hpairs]

end

/-! ## Isolation -/

section

variable {P : Pairing} {s : Store}

theorem Store.Like.defineNative (h : s.Like P s) (e : EnvRef) (name : String)
    (params : List String) (op : NativeOp) :
    (s.defineNative e name params op).Like P (s.defineNative e name params op) := by
  have hcounted : Store.Like P { s with nativeCount := s.nativeCount + 1 }
      { s with nativeCount := s.nativeCount + 1 } :=
    ⟨h.envs, h.lists, h.classes, h.instances⟩
  exact hcounted.define e name (.plain trivial)

/-- The store that a run starts with has no functions of a script, so it is like itself. -/
theorem Store.like_hosted (ns : List HostNative) : (Store.hosted ns).Like P (Store.hosted ns) := by
  have hfold : ∀ {α : Type} (f : Store → α → Store) (as : List α) {s : Store},
      (∀ s a, s.Like P s → (f s a).Like P (f s a)) → s.Like P s →
      (as.foldl f s).Like P (as.foldl f s) := by
    intro α f as s hf hs
    induction as generalizing s with
    | nil => exact hs
    | cons a as ih => exact ih (hf s a hs)
  have hempty : Store.Like P {} {} := ⟨.empty, .empty, .empty, .empty⟩
  have hlibrary := (hfold (fun s n => s.defineNative 0 n.1 n.2.1 n.2.2) natives
    (fun _ _ h => h.defineNative _ _ _ _) (hempty.newEnv none)).define 0 "PI"
    (.plain (v := .number pi) trivial)
  exact hfold _ ns (fun _ _ h => h.defineNative _ _ _ _) hlibrary

end

/-- An executor as a host sets it up. -/
theorem Executor.Hosted.alike {ns : List HostNative} {x : Executor} (h : x.Hosted ns)
    (ρ : Nat → Nat → Nat) : x.Alike ρ [] x := by
  rcases h with rfl | rfl
  · rw [Walker.hosted_eq]
    exact .walker ⟨_, Store.like_hosted ns, rfl, rfl⟩ .empty
  · rw [Machine.hosted_eq]
    refine .machine (.idle ⟨_, Store.like_hosted ns, rfl⟩ trivial ?_ trivial) .empty fun _ ht => nomatch ht
    exact ⟨rfl, rfl, fun _ _ hget => (nomatch hget), fun _ _ hget => nomatch hget⟩

/-- On either executor, the replies of a session on source texts, and all that it writes, are those
    of the texts with ids of their own, provided that the executor can keep the texts apart. -/
theorem session_isolated (o : Options) (ho : o.OpaqueHost) (ns : List HostNative) (fuel : Nat)
    {x : Executor} (hx : x.Hosted ns) {texts : List (String × String)}
    {programs : List (List Item)} (hparse : parseTexts o.recovery 0 texts = .ok programs)
    (hapart : programs.Pairwise x.Separates) {ρ : Nat → Nat → Nat} (hρ : Function.Injective2 ρ) :
    Session.transcript o fuel (Request.runs texts) { executor := x }
      = x.transcript o fuel (renumberTexts ρ 0 programs) := by
  rw [Session.transcript_runs o fuel x hparse]
  have hnone : Source.Before 0 [] := ⟨fun _ ht => (nomatch ht), fun _ ht => (nomatch ht)⟩
  exact (hx.alike ρ).transcript_eq hρ ho fuel hparse hnone (fun _ ht => nomatch ht) hapart

theorem Options.opaqueHost_default : ({} : Options).OpaqueHost :=
  fun _ _ _ _ _ _ => .pure (.plain trivial)

theorem injective2_pair : Function.Injective2 Nat.pair := fun _ _ _ _ h => Nat.pair_eq_pair.1 h

/-- A function is called from a later text. A reference in the function and one of that text have
    the same id and the same distance. -/
theorem session_isolated_call : ∃ (texts : List (String × String)) (programs : List (List Item)),
    texts = [("a", "fun f(x) { return x; }"), ("b", "{ var y = 1; y = 2; print(f(y)); }")]
      ∧ parseTexts .resume 0 texts = .ok programs
      ∧ programs.Pairwise (Executor.machine (Machine.fresh.withNatives [])).Separates
      ∧ Session.transcript {} 40 (Request.runs texts)
          { executor := .machine (Machine.fresh.withNatives []) }
        = Executor.transcript {} 40 (renumberTexts Nat.pair 0 programs)
            (.machine (Machine.fresh.withNatives [])) := by
  have hcheck : ((parseTexts .resume 0
        [("a", "fun f(x) { return x; }"), ("b", "{ var y = 1; y = 2; print(f(y)); }")]).toOption.any fun ps =>
      decide (ps.length = 2 ∧ ps.Pairwise Undisturbed) && ps.tail.all fun b => (declarationsIn b).isEmpty)
      = true := by
    decide +kernel
  obtain ⟨programs, hparse, hcheck⟩ := Outcome.any_toOption.1 hcheck
  simp only [Bool.and_eq_true, decide_eq_true_eq] at hcheck
  obtain ⟨⟨hlength, hapart⟩, hnone⟩ := hcheck
  obtain ⟨a, b, rfl⟩ := List.length_eq_two.1 hlength
  have hnone : declarationsIn b = [] := by simpa using hnone
  have hchunks : SameChunks a b := by
    intro d e _ _ f _ g hg
    rw [hnone] at hg
    cases hg
  have hpairs : [a, b].Pairwise (Executor.machine (Machine.fresh.withNatives [])).Separates :=
    List.pairwise_pair.2 ⟨List.pairwise_pair.1 hapart, hchunks⟩
  exact ⟨_, [a, b], rfl, hparse, hpairs,
    session_isolated {} Options.opaqueHost_default [] 40 (.inr rfl) hparse hpairs injective2_pair⟩

/-- In general texts are mixed up. The machine calls the second of two functions with the chunk of
    the first one, and on either executor a variable of a function is not found once a later text
    has noted another distance under the id of the reference. -/
theorem session_mixes_texts :
    (∃ (texts : List (String × String)) (programs : List (List Item)),
      texts = [("t", "fun f() { return 1; } print(f());"),
          ("t", "fun g() { return 2; } print(g());")]
        ∧ parseTexts .resume 0 texts = .ok programs
        ∧ (Session.ofMachine.transcript {} 40 (Request.runs texts)).map (·.2.out)
          = [#["1"], #["1", "1"]]
        ∧ (Executor.transcript {} 40 (renumberTexts Nat.pair 0 programs) (.machine .fresh)).map
            (·.2.out) = [#["1"], #["1", "2"]])
      ∧ ∃ (texts : List (String × String)) (programs : List (List Item)),
        texts = [("t", "fun f() { var x = 1; { return x; } }"), ("t", "{ var y = 2; y = 3; } f();")]
          ∧ parseTexts .resume 0 texts = .ok programs
          ∧ (Session.ofWalker.transcript {} 40 (Request.runs texts)).map (·.1)
            = [.verdict .ok, .verdict .runtimeError]
          ∧ (Session.ofMachine.transcript {} 40 (Request.runs texts)).map (·.1)
            = [.verdict .ok, .verdict .runtimeError]
          ∧ (Executor.transcript {} 40 (renumberTexts Nat.pair 0 programs) (.walker .fresh)).map
              (·.1) = [.verdict .ok, .verdict .ok]
          ∧ (Executor.transcript {} 40 (renumberTexts Nat.pair 0 programs) (.machine .fresh)).map
              (·.1) = [.verdict .ok, .verdict .ok] := by
  constructor
  · have hcheck : (match parseTexts .resume 0 [("t", "fun f() { return 1; } print(f());"),
          ("t", "fun g() { return 2; } print(g());")] with
        | .ok programs => decide ((Executor.transcript {} 40 (renumberTexts Nat.pair 0 programs)
            (.machine .fresh)).map (·.2.out) = [#["1"], #["1", "2"]])
        | .error _ => false) = true := by
      decide +kernel
    split at hcheck
    · rename_i programs hparse
      exact ⟨_, programs, rfl, hparse, by decide +kernel, of_decide_eq_true hcheck⟩
    · exact nomatch hcheck
  · have hcheck : (match parseTexts .resume 0
          [("t", "fun f() { var x = 1; { return x; } }"), ("t", "{ var y = 2; y = 3; } f();")] with
        | .ok programs =>
          decide ((Executor.transcript {} 40 (renumberTexts Nat.pair 0 programs)
            (.walker .fresh)).map (·.1) = [.verdict .ok, .verdict .ok])
          && decide ((Executor.transcript {} 40 (renumberTexts Nat.pair 0 programs)
            (.machine .fresh)).map (·.1) = [.verdict .ok, .verdict .ok])
        | .error _ => false) = true := by
      decide +kernel
    split at hcheck
    · rename_i programs hparse
      simp only [Bool.and_eq_true, decide_eq_true_eq] at hcheck
      exact ⟨_, programs, rfl, hparse, by decide +kernel, by decide +kernel, hcheck⟩
    · exact nomatch hcheck

end Eleu
