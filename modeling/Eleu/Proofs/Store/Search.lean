import Eleu.Proofs.Store.Founded
import Mathlib.Data.Finset.Card
import Mathlib.Logic.Relation

/-! # Searches along chains

    A variable is looked up from a scope outwards, and a method from a class upwards. Such a search is
    a recursion without a bound of its own (`Search`), which ends only if the chain does. Where all
    chains end, searches that count their steps find what the search without a bound finds
    (`searchWithin_search`): there are fewer places further out than there are places. In a founded
    store all chains end (`Store.Founded.searchable`). -/

namespace Eleu

section Search

variable {α β : Type} {outer : Nat → Option Nat} {look : Nat → Option α}

/-- A search from one place to the next one further out, until something is found or there is no
    further place. Nothing bounds it: a search that does not end has no result. -/
inductive Search (outer : Nat → Option Nat) (look : Nat → Option α) : Nat → Option α → Prop where
  | here {e : Nat} {a : α} (found : look e = some a) : Search outer look e (some a)
  | further {e p : Nat} {r : Option α} (missing : look e = none) (next : outer e = some p)
      (rest : Search outer look p r) : Search outer look e r
  | nowhere {e : Nat} (missing : look e = none) (last : outer e = none) : Search outer look e none

/-- A way outwards with a given number of steps, as far as there are so many. -/
inductive Climb (outer : Nat → Option Nat) : (steps : Nat) → Nat → Option Nat → Prop where
  | here {e : Nat} : Climb outer 0 e (some e)
  | up {steps e p : Nat} {r : Option Nat} (next : outer e = some p) (rest : Climb outer steps p r) :
      Climb outer (steps + 1) e r
  | outermost {steps e : Nat} (last : outer e = none) : Climb outer (steps + 1) e none

/-- A search has one result. -/
theorem Search.unique {e : Nat} {r r' : Option α} (h : Search outer look e r)
    (h' : Search outer look e r') : r = r' := by
  induction h with
  | here found => cases h' <;> simp_all
  | further missing next _ ih =>
    cases h' with
    | further _ next' rest' => exact ih (Option.some.inj (next'.symm.trans next) ▸ rest')
    | _ => simp_all
  | nowhere missing last => cases h' <;> simp_all

/-- A way of a given number of steps leads to one place. -/
theorem Climb.unique {steps e : Nat} {r r' : Option Nat} (h : Climb outer steps e r)
    (h' : Climb outer steps e r') : r = r' := by
  induction h with
  | here =>
    cases h'
    rfl
  | up next _ ih =>
    cases h' with
    | up next' rest' => exact ih (Option.some.inj (next'.symm.trans next) ▸ rest')
    | outermost last => cases last.symm.trans next
  | outermost last =>
    cases h' with
    | up next' _ => cases last.symm.trans next'
    | outermost _ => rfl

/-! ## Searches that count their steps -/

/-- A search that stops after some number of places. -/
def searchWithin (outer : Nat → Option Nat) (look : Nat → Option α) : (steps : Nat) → Nat → Option α
  | 0, _ => none
  | steps + 1, e =>
    match look e with
    | some a => some a
    | none =>
      match outer e with
      | some p => searchWithin outer look steps p
      | none => none

/-- Where there is nothing and no way on, nothing is found in any number of steps. -/
theorem searchWithin_nowhere {e : Nat} (h : look e = none ∧ outer e = none) (steps : Nat) :
    Search outer look e (searchWithin outer look steps e) := by
  have hnone : searchWithin outer look steps e = none := by
    cases steps with
    | zero => rfl
    | succ steps => rw [searchWithin, h.1, h.2]
  rw [hnone]
  exact .nowhere h.1 h.2

section Bounded

variable {bound : Nat} (hwf : WellFounded fun p e => outer e = some p)

open Classical in
/-- The places below the bound that lie further out than a place. -/
noncomputable def furtherOut (outer : Nat → Option Nat) (bound e : Nat) : Finset Nat :=
  (Finset.range bound).filter fun p => Relation.TransGen (fun p e => outer e = some p) p e

theorem mem_furtherOut {e p : Nat} : p ∈ furtherOut outer bound e
    ↔ p < bound ∧ Relation.TransGen (fun p e => outer e = some p) p e := by
  simp [furtherOut]

include hwf

theorem not_mem_furtherOut (e : Nat) : e ∉ furtherOut outer bound e := fun he =>
  hwf.transGen.asymmetric e e (mem_furtherOut.1 he).2 (mem_furtherOut.1 he).2

theorem furtherOut_ssubset {e p : Nat} (hp : outer e = some p) (hlt : p < bound) :
    furtherOut outer bound p ⊂ furtherOut outer bound e := by
  refine (Finset.ssubset_iff_of_subset fun q hq => ?_).2 ⟨p, mem_furtherOut.2 ⟨hlt, .single hp⟩,
    not_mem_furtherOut hwf p⟩
  obtain ⟨hlt, hq⟩ := mem_furtherOut.1 hq
  exact mem_furtherOut.2 ⟨hlt, hq.tail hp⟩

theorem card_furtherOut_lt {e : Nat} (he : e < bound) : (furtherOut outer bound e).card < bound := by
  have hsub : furtherOut outer bound e ⊂ Finset.range bound :=
    (Finset.ssubset_iff_of_subset fun p hp => Finset.mem_range.2 (mem_furtherOut.1 hp).1).2
      ⟨e, Finset.mem_range.2 he, not_mem_furtherOut hwf e⟩
  exact (Finset.card_lt_card hsub).trans_eq (Finset.card_range _)

/-- Where no way outwards goes on for ever and there is nothing from the bound on, the bound makes no
    difference. -/
theorem searchWithin_search (beyond : ∀ e, bound ≤ e → look e = none ∧ outer e = none) (e : Nat) :
    Search outer look e (searchWithin outer look bound e) := by
  -- as many steps suffice as there are places further out, and one more for the place itself
  have hsteps : ∀ steps e, (furtherOut outer bound e).card < steps →
      Search outer look e (searchWithin outer look steps e) := by
    intro steps
    induction steps with
    | zero => exact fun _ h => absurd h (Nat.not_lt_zero _)
    | succ steps ih =>
      intro e he
      rw [searchWithin]
      cases hl : look e with
      | some a => exact .here hl
      | none =>
        cases hp : outer e with
        | none => exact .nowhere hl hp
        | some p =>
          refine .further hl hp ?_
          rcases Nat.lt_or_ge p bound with hlt | hge
          · have hcard := Finset.card_lt_card (furtherOut_ssubset hwf hp hlt)
            exact ih p (by omega)
          · exact searchWithin_nowhere (beyond p hge) steps
  rcases Nat.lt_or_ge e bound with he | he
  · exact hsteps bound e (card_furtherOut_lt hwf he)
  · exact searchWithin_nowhere (beyond e he) bound

end Bounded

/-- The same search for something else that is at the same places. -/
theorem Search.bind {look' : Nat → Option β} {f : α → Option β}
    (found' : ∀ {e a}, look e = some a → ∃ b, f a = some b ∧ look' e = some b)
    (missing' : ∀ {e}, look e = none → look' e = none) {e : Nat} {r : Option α}
    (h : Search outer look e r) : Search outer look' e (r.bind f) := by
  induction h with
  | here found =>
    obtain ⟨b, hf, hlook⟩ := found' found
    rw [Option.bind_some, hf]
    exact .here hlook
  | further missing next _ ih => exact .further (missing' missing) next ih
  | nowhere missing last => exact .nowhere (missing' missing) last

/-- Where every step leads to a smaller place, the way outwards ends. -/
theorem climb_ends (older : ∀ {e p}, outer e = some p → p < e) (e : Nat) :
    ∃ n ≤ e, ∃ last, Climb outer n e (some last) ∧ outer last = none := by
  induction e using Nat.strongRecOn with
  | ind e ih =>
    cases hp : outer e with
    | none => exact ⟨0, Nat.zero_le _, e, .here, hp⟩
    | some p =>
      obtain ⟨n, hn, last, hclimb, hlast⟩ := ih p (older hp)
      have hlt := older hp
      exact ⟨n + 1, by omega, last, .up hp hclimb, hlast⟩

end Search

namespace Store

variable {s : Store} {D : FunctionDecl → Prop}

theorem ancestor?_climb (s : Store) (e : EnvRef) (n : Nat) : Climb s.parent? n e (s.ancestor? e n) := by
  induction n generalizing e with
  | zero => exact .here
  | succ n ih =>
    rw [ancestor?_succ]
    cases hp : (s.env e).parent with
    | none => exact .outermost hp
    | some p => exact .up hp (ih p)

/-- The place itself, if the variable is there. -/
def holds? (s : Store) (name : String) (e : EnvRef) : Option EnvRef :=
  if s.hasLocal e name then some e else none

theorem binderWithin_eq (s : Store) (name : String) (n : Nat) (e : EnvRef) :
    s.binderWithin name n e = searchWithin s.parent? (s.holds? name) n e := by
  induction n generalizing e with
  | zero => rfl
  | succ n ih =>
    rw [binderWithin, searchWithin, holds?, parent?]
    cases s.hasLocal e name with
    | true => rfl
    | false =>
      cases (s.env e).parent with
      | none => rfl
      | some p => exact ih p

theorem methodWithin_eq (s : Store) (name : String) (n : Nat) (r : ClassRef) :
    s.methodWithin name n r
      = searchWithin s.superclass? (fun c => (s.classAt c).methods.get? name) n r := by
  induction n generalizing r with
  | zero => rfl
  | succ n ih =>
    rw [methodWithin, searchWithin, superclass?]
    cases (s.classAt r).methods.get? name with
    | some m => rfl
    | none =>
      cases (s.classAt r).parent with
      | none => rfl
      | some p => exact ih p

theorem holds?_of_size_le {e : EnvRef} (h : s.envs.size ≤ e) (name : String) :
    s.holds? name e = none ∧ s.parent? e = none := by
  have hlocal : s.hasLocal e name = false := by
    cases hb : s.hasLocal e name with
    | false => rfl
    | true =>
      obtain ⟨v, hv⟩ := (hasLocal_iff s e name).1 hb
      exact nomatch (local?_of_size_le h name).symm.trans hv
  refine ⟨?_, ?_⟩
  · rw [holds?, hlocal]
    rfl
  · rw [parent?, env_of_size_le h]

theorem class_of_size_le {r : ClassRef} (h : s.classes.size ≤ r) (name : String) :
    (s.classAt r).methods.get? name = none ∧ s.superclass? r = none := by
  rw [superclass?, classAt_of_size_le h]
  exact ⟨rfl, rfl⟩

theorem superclass?_lt {r p : ClassRef} (h : s.superclass? r = some p) : r < s.classes.size := by
  refine Nat.lt_of_not_le fun hge => ?_
  exact nomatch (class_of_size_le hge "").2.symm.trans h

/-- The environment that holds a variable is found by the search without a bound. -/
theorem binder?_search (hs : WellFounded fun p e => s.parent? e = some p) (e : EnvRef) (name : String) :
    Search s.parent? (s.holds? name) e (s.binder? e name) := by
  rw [binder?, binderWithin_eq]
  exact searchWithin_search hs (fun a ha => holds?_of_size_le ha name) e

/-- The method that a class has or inherits is found by the search without a bound. -/
theorem findMethod?_search (hs : WellFounded fun p r => s.superclass? r = some p) (r : ClassRef)
    (name : String) :
    Search s.superclass? (fun c => (s.classAt c).methods.get? name) r (s.findMethod? r name) := by
  rw [findMethod?, methodWithin_eq]
  exact searchWithin_search hs (fun c hc => class_of_size_le hc name) r

theorem Founded.binder? (h : s.Founded D) (e : EnvRef) (name : String) :
    Search s.parent? (s.holds? name) e (s.binder? e name) :=
  binder?_search (Subrelation.wf h.older Nat.lt_wfRel.wf) e name

theorem Founded.findMethod?_search (h : s.Founded D) (r : ClassRef) (name : String) :
    Search s.superclass? (fun c => (s.classAt c).methods.get? name) r (s.findMethod? r name) :=
  Store.findMethod?_search (Subrelation.wf h.olderClass Nat.lt_wfRel.wf) r name

/-! ## Reading and writing along a chain -/

theorem get_eq (s : Store) (e : EnvRef) (name : String) :
    s.get e name
      = ((s.binder? e name).bind (s.local? · name)).elim (.error (.undefinedVariable name)) .ok := by
  rw [get]
  cases (s.binder? e name).bind (s.local? · name) <;> rfl

theorem assign_eq (s : Store) (e : EnvRef) (name : String) (v : Value) :
    assign e name v s = (s.binder? e name).elim (.error (.undefinedVariable name) s) fun a =>
      .ok () (s.define a name v) := by
  rw [assign_apply, holder]
  cases s.binder? e name <;> rfl

theorem getAt_eq (s : Store) (e : EnvRef) (name : String) (depth : Nat) :
    s.getAt e name depth = (s.ancestor? e depth).elim (.error (.misresolved name)) fun a =>
      (s.local? a name).elim (.error (.undefinedVariable name)) .ok := by
  rw [getAt]
  cases s.ancestor? e depth with
  | none => rfl
  | some a =>
    rw [Option.elim_some]
    dsimp only
    cases s.local? a name <;> rfl

theorem assignAt_eq (s : Store) (e : EnvRef) (name : String) (v : Value) (depth : Nat) :
    assignAt e name v depth s = (s.ancestor? e depth).elim (.error (.misresolved name) s) fun a =>
      if s.hasLocal a name then .ok () (s.define a name v) else .error (.undefinedVariable name) s := by
  rw [assignAt_apply, holderAt]
  cases s.ancestor? e depth with
  | none => rfl
  | some a =>
    rw [Option.elim_some]
    dsimp only
    cases s.hasLocal a name <;> rfl

/-- What there is to say about the chains of a store and about the searches along them. -/
structure Searchable (s : Store) : Prop where
  older : ∀ e p, s.parent? e = some p → p < e ∧ e < s.envs.size
  olderClass : ∀ r p, s.superclass? r = some p → p < r ∧ r < s.classes.size
  chain : ∀ e, ∃ n ≤ e, ∃ last, Climb s.parent? n e (some last) ∧ s.parent? last = none
  classChain : ∀ r, ∃ n ≤ r, ∃ last, Climb s.superclass? n r (some last) ∧ s.superclass? last = none
  get : ∀ e name, ∃ r, Search s.parent? (s.local? · name) e r ∧
    s.get e name = r.elim (.error (.undefinedVariable name)) .ok
  assign : ∀ e name v, ∃ r,
    Search s.parent? (fun a => if s.hasLocal a name then some (s.define a name v) else none) e r ∧
    Store.assign e name v s = r.elim (.error (.undefinedVariable name) s) (.ok ())
  getAt : ∀ e name depth, ∃ r, Climb s.parent? depth e r ∧
    s.getAt e name depth = r.elim (.error (.misresolved name)) fun a =>
      (s.local? a name).elim (.error (.undefinedVariable name)) .ok
  assignAt : ∀ e name v depth, ∃ r, Climb s.parent? depth e r ∧
    Store.assignAt e name v depth s = r.elim (.error (.misresolved name) s) fun a =>
      if s.hasLocal a name then .ok () (s.define a name v) else .error (.undefinedVariable name) s
  findMethod : ∀ r name,
    Search s.superclass? (fun c => (s.classAt c).methods.get? name) r (s.findMethod? r name)
  arity : ∀ r, ∃ init, Search s.superclass? (fun c => (s.classAt c).methods.get? "init") r init ∧
    s.arity? (.classRef r) = some (init.elim 0 (·.decl.params.length))

theorem holds?_eq_some {name : String} {e a : EnvRef} (h : s.holds? name e = some a) :
    a = e ∧ s.hasLocal e name = true := by
  rw [holds?] at h
  split at h
  · next hb => exact ⟨(Option.some.inj h).symm, hb⟩
  · exact nomatch h

theorem holds?_eq_none {name : String} {e : EnvRef} (h : s.holds? name e = none) :
    s.hasLocal e name = false := by
  rw [holds?] at h
  split at h
  · exact nomatch h
  · next hb => exact eq_false_of_ne_true hb

theorem Founded.searchable (h : s.Founded D) : s.Searchable where
  older e p hp := ⟨h.older hp, parent_lt_size hp⟩
  olderClass r p hp := ⟨h.olderClass hp, superclass?_lt hp⟩
  chain := climb_ends h.older
  classChain := climb_ends h.olderClass
  get e name := by
    -- the first scope with a variable of that name is the first in which looking it up succeeds
    refine ⟨(s.binder? e name).bind (s.local? · name),
      (h.binder? e name).bind (fun {a b} hb => ?_) (fun {a} hnone => ?_), ?_⟩
    · obtain ⟨rfl, hlocal⟩ := holds?_eq_some hb
      obtain ⟨v, hv⟩ := (hasLocal_iff s b name).1 hlocal
      exact ⟨v, hv, hv⟩
    · cases hv : s.local? a name with
      | none => rfl
      | some v =>
        exact nomatch (holds?_eq_none hnone).symm.trans ((hasLocal_iff s a name).2 ⟨v, hv⟩)
    · exact s.get_eq e name
  assign e name v := by
    refine ⟨(s.binder? e name).bind fun a => some (s.define a name v),
      (h.binder? e name).bind (fun hb => ?_) (fun hnone => ?_), ?_⟩
    · obtain ⟨rfl, hlocal⟩ := holds?_eq_some hb
      exact ⟨_, rfl, if_pos hlocal⟩
    · rw [holds?_eq_none hnone]
      rfl
    · rw [s.assign_eq e name v]
      cases s.binder? e name <;> rfl
  getAt e name depth := ⟨_, s.ancestor?_climb e depth, s.getAt_eq e name depth⟩
  assignAt e name v depth := ⟨_, s.ancestor?_climb e depth, s.assignAt_eq e name v depth⟩
  findMethod := h.findMethod?_search
  arity r := by
    refine ⟨s.findMethod? r "init", h.findMethod?_search r "init", ?_⟩
    rw [arity?]
    cases s.findMethod? r "init" <;> rfl

end Store

end Eleu
