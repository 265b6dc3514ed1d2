import Eleu.Proofs.Scope.Exact

/-! # What the uses of a variable find

    A reference is used to read a variable, to change one, or to take a method of the superclass. If
    the environments around it are instances of its scopes, its distance leads to the right one
    (`Chain.uses_right`): what is read is there, and what is assigned to is there unless its own
    initialiser is still being evaluated. -/

namespace Eleu

/-- How a reference is used. -/
inductive Use where
  | read | write
  /-- For the superclass, and with it for the instance one scope further in. -/
  | super

/-- What the rules ask of a reference that is used. -/
def Rules.allow (R : Rules) : Use → Reference → Option Nat → Prop
  | .read => R.reads
  | .write => R.writes
  | .super => R.supers

/-- The environments from `e` up to the one `n` scopes out are instances of the scopes of the
    context. -/
def Context.Instances (made : EnvRef → Site → Prop) (s : Store) (e : EnvRef) (n : Nat)
    (Γ : Context) : Prop :=
  ∀ k ≤ n, ∃ scope a, Γ[k]? = some scope ∧ s.ancestor? e k = some a ∧ scope.Instance made s a

/-- What a reference with the distance `n` finds from the environment `e` on. -/
def Use.Finds (s : Store) (e : EnvRef) (r : Reference) (n : Nat) : Use → Prop
  | .read => ∃ v, s.getAt e r.ident.name n = .ok v
  | .write =>
    (∃ a, s.holderAt e r.ident.name n = .ok a)
      ∨ s.holderAt e r.ident.name n = .error (.undefinedVariable r.ident.name)
        ∧ r.pending = some r.ident.name
  | .super =>
    ∃ k c i, n = k + 1 ∧ s.getAt e "super" (k + 1) = .ok (.callable (.classRef c))
      ∧ s.getAt e "this" k = .ok (.object i)

variable {H : History} {s : Store} {e : EnvRef} {Γ : Context} {n : Nat}
  {name : String}

/-- A name is declared in the scope at its distance. -/
theorem Context.mem_of_distance (h : Γ.distance? name = some n) :
    ∃ scope, Γ[n]? = some scope ∧ name ∈ scope.names := by
  induction Γ generalizing n with
  | nil => exact nomatch h
  | cons scope outer ih =>
    rw [Context.distance?] at h
    by_cases hmem : name ∈ scope.names
    · rw [if_pos hmem] at h
      cases h
      exact ⟨scope, rfl, hmem⟩
    · rw [if_neg hmem, Option.map_eq_some_iff] at h
      obtain ⟨k, hk, rfl⟩ := h
      exact ih hk

namespace Chain

theorem instances (h : Chain H s e Γ) {scope : StaticScope} (hn : Γ[n]? = some scope) :
    Γ.Instances H.made s e n := by
  intro k hk
  have hlt : k < Γ.length := Nat.lt_of_le_of_lt hk (List.getElem?_eq_some_iff.1 hn).1
  have hget : Γ[k]? = some Γ[k] := List.getElem?_eq_getElem hlt
  obtain ⟨a, ha, hi⟩ := h.instance_at hget
  exact ⟨Γ[k], a, hget, ha, hi⟩

/-- The variable at the distance of its name has a value. -/
theorem getAt_distance (h : Chain H s e Γ) (hd : Γ.distance? name = some n) :
    ∃ a v, s.ancestor? e n = some a ∧ s.local? a name = some v := by
  obtain ⟨scope, hscope, hmem⟩ := Context.mem_of_distance hd
  obtain ⟨a, ha, hi⟩ := h.instance_at hscope
  obtain ⟨v, hv⟩ := (Store.hasLocal_iff _ _ _).1 (hi.bound name hmem)
  exact ⟨a, v, ha, hv⟩

end Chain

theorem Store.getAt_of_local {a : EnvRef} {v : Value} (ha : s.ancestor? e n = some a)
    (hv : s.local? a name = some v) : s.getAt e name n = .ok v := by
  simp only [Store.getAt, ha, hv]

theorem Store.holderAt_of_local {a : EnvRef} {v : Value} (ha : s.ancestor? e n = some a)
    (hv : s.local? a name = some v) : s.holderAt e name n = .ok a := by
  have hl : s.hasLocal a name = true := (Store.hasLocal_iff _ _ _).2 ⟨v, hv⟩
  simp only [Store.holderAt, ha, hl, if_true]

variable {D : List FunctionDecl} {T : List Reference}

/-- Where the environments are instances of the scopes around a reference, its distance is right. -/
theorem Chain.uses_right {r : Reference} {use : Use}
    (h : (Rules.resolved D T).allow use r (some n)) (hc : Chain H s e r.context) :
    r ∈ T ∧ r.context.Instances H.made s e n ∧ use.Finds s e r n := by
  cases use with
  | read =>
    obtain ⟨hmem, hd⟩ := h
    obtain ⟨scope, hscope, -⟩ := Context.mem_of_distance hd.symm
    obtain ⟨a, v, ha, hv⟩ := hc.getAt_distance hd.symm
    exact ⟨hmem, hc.instances hscope, v, Store.getAt_of_local ha hv⟩
  | write =>
    obtain ⟨hmem, hd⟩ := h
    by_cases hp : r.pending = some r.ident.name ∧ r.context ≠ []
    · -- the variable of the initialiser: the innermost scope has it, or will have it
      rw [if_pos hp] at hd
      cases hd
      obtain ⟨scope, outer, hcons⟩ := List.exists_cons_of_ne_nil hp.2
      have hscope : r.context[0]? = some scope := by rw [hcons]; rfl
      refine ⟨hmem, hc.instances hscope, ?_⟩
      by_cases hl : s.hasLocal e r.ident.name = true
      · exact .inl ⟨e, by simp only [Store.holderAt, Store.ancestor?, hl, if_true]⟩
      · exact .inr ⟨by simp only [Store.holderAt, Store.ancestor?, if_neg hl], hp.1⟩
    · rw [if_neg hp] at hd
      obtain ⟨scope, hscope, -⟩ := Context.mem_of_distance hd.symm
      obtain ⟨a, v, ha, hv⟩ := hc.getAt_distance hd.symm
      exact ⟨hmem, hc.instances hscope, .inl ⟨a, Store.holderAt_of_local ha hv⟩⟩
  | super =>
    obtain ⟨hmem, -, k, span, hd, hthis, hsuper⟩ := h
    cases hd
    obtain ⟨a, ha, hi⟩ := hc.instance_at hsuper
    obtain ⟨b, hb, hj⟩ := hc.instance_at hthis
    obtain ⟨-, c, hc'⟩ := hi.opened
    obtain ⟨i, hi'⟩ := hj.opened
    exact ⟨hmem, hc.instances hsuper, k, c, i, rfl, Store.getAt_of_local ha hc',
      Store.getAt_of_local hb hi'⟩

end Eleu
