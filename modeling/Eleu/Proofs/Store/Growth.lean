import Eleu.Store.Declare

/-! # Stores only grow

    No operation removes an environment or a class, gives one another parent, or takes a variable
    away. `Store.Grows` says so for two stores, one of which came after the other; it also keeps the
    values of the names in a set `K` that nothing defines a second time. What was once found at
    the end of a chain of parents is therefore found there for ever (`ancestor?_grows`). -/

namespace Eleu

variable {name : String} {a e : EnvRef}

/-- The names that only the language itself binds. -/
def Reserved (name : String) : Prop := name = "this" ∨ name = "super"

namespace Store

variable {s t u : Store} {K : String → Prop}

/-- The scope around an environment. -/
def parent? (s : Store) (e : EnvRef) : Option EnvRef := (s.env e).parent

/-- The superclass of a class. -/
def superclass? (s : Store) (r : ClassRef) : Option ClassRef := (s.classAt r).parent

/-! ## Environments after an operation -/

theorem env_define (s : Store) (e a : EnvRef) (name : String) (v : Value) :
    (s.define e name v).env a =
      if e = a ∧ a < s.envs.size then
        { s.env a with bindings := (s.env a).bindings.insert name v }
      else s.env a := by
  unfold env define
  rw [Array.getElem?_modify]
  by_cases h : e = a
  · subst h
    by_cases hs : e < s.envs.size
    · simp [hs]
    · simp [hs]
  · simp [h]

theorem env_newEnv (s : Store) (p : Option EnvRef) (a : EnvRef) :
    (s.newEnv p).2.env a = if a = s.envs.size then { parent := p } else s.env a := by
  unfold env newEnv
  rw [Array.getElem?_push]
  by_cases h : a = s.envs.size
  · simp [h]
  · simp [h]

@[simp] theorem newEnv_fst (s : Store) (p : Option EnvRef) : (s.newEnv p).1 = s.envs.size := rfl

@[simp] theorem envs_size_define (s : Store) (e : EnvRef) (name : String) (v : Value) :
    (s.define e name v).envs.size = s.envs.size := by
  simp [define]

@[simp] theorem envs_size_newEnv (s : Store) (p : Option EnvRef) :
    (s.newEnv p).2.envs.size = s.envs.size + 1 := by
  simp [newEnv]

@[simp] theorem parent_define (s : Store) (e a : EnvRef) (name : String) (v : Value) :
    ((s.define e name v).env a).parent = (s.env a).parent := by
  rw [env_define]
  split <;> rfl

theorem local?_define (s : Store) (e a : EnvRef) (name other : String) (v : Value) :
    (s.define e name v).local? a other =
      if e = a ∧ a < s.envs.size ∧ name = other then some v else s.local? a other := by
  unfold local?
  rw [env_define]
  by_cases h : e = a ∧ a < s.envs.size
  · rw [if_pos h]
    by_cases hn : name = other
    · simp [h, hn]
    · simp [hn]
  · rw [if_neg h, if_neg (fun hc => h ⟨hc.1, hc.2.1⟩)]

theorem local?_newEnv (s : Store) (p : Option EnvRef) (a : EnvRef) (name : String) :
    (s.newEnv p).2.local? a name = if a = s.envs.size then none else s.local? a name := by
  unfold local?
  rw [env_newEnv]
  split <;> rfl

/-- An environment that is not there yet has neither variables nor a parent. -/
theorem env_of_size_le (h : s.envs.size ≤ a) : s.env a = {} := by
  simp [env, Array.getElem?_eq_none h]

theorem local?_of_size_le (h : s.envs.size ≤ a) (name : String) : s.local? a name = none := by
  unfold local?
  rw [env_of_size_le h]
  rfl

theorem parent_lt_size {p : EnvRef} (h : (s.env a).parent = some p) : a < s.envs.size := by
  rcases Nat.lt_or_ge a s.envs.size with hlt | hge
  · exact hlt
  · rw [env_of_size_le hge] at h
    exact nomatch h

theorem hasLocal_iff (s : Store) (a : EnvRef) (name : String) :
    s.hasLocal a name = true ↔ ∃ v, s.local? a name = some v := by
  rw [show s.hasLocal a name = (s.local? a name).isSome from rfl, Option.isSome_iff_exists]

theorem lt_size_of_local? {v : Value} (h : s.local? a name = some v) : a < s.envs.size := by
  rcases Nat.lt_or_ge a s.envs.size with hlt | hge
  · exact hlt
  · rw [local?_of_size_le hge] at h
    exact nomatch h

theorem hasLocal_define {other : String} {v : Value}
    (h : (s.define e name v).hasLocal a other = true) :
    s.hasLocal a other = true ∨ a = e ∧ other = name := by
  obtain ⟨x, hx⟩ := (hasLocal_iff _ _ _).1 h
  rw [local?_define] at hx
  split at hx
  · next hc => exact .inr ⟨hc.1.symm, hc.2.2.symm⟩
  · exact .inl ((hasLocal_iff _ _ _).2 ⟨x, hx⟩)

theorem hasLocal_newEnv {p : Option EnvRef} (h : (s.newEnv p).2.hasLocal a name =
    true) : s.hasLocal a name = true := by
  obtain ⟨x, hx⟩ := (hasLocal_iff _ _ _).1 h
  rw [local?_newEnv] at hx
  split at hx
  · exact nomatch hx
  · exact (hasLocal_iff _ _ _).2 ⟨x, hx⟩

theorem lt_size_of_hasLocal (h : s.hasLocal a name = true) : a < s.envs.size := by
  obtain ⟨v, hv⟩ := (hasLocal_iff _ _ _).1 h
  exact lt_size_of_local? hv

/-! ## Growth -/

/-- `t` came after `s`: the environments of `s` are there, with their parents and at least their
    variables, and the variables in `K` of an environment inside another have the values they had.
    The classes of `s` are there, with their superclasses. -/
structure Grows (K : String → Prop) (s t : Store) : Prop where
  size : s.envs.size ≤ t.envs.size
  parent : ∀ a, a < s.envs.size → (t.env a).parent = (s.env a).parent
  bound : ∀ a name, s.hasLocal a name = true → t.hasLocal a name = true
  fixed : ∀ {a p}, (s.env a).parent = some p → ∀ name, K name → t.local? a name = s.local? a name
  classes : s.classes.size ≤ t.classes.size
  superclass : ∀ r, r < s.classes.size → (t.classAt r).parent = (s.classAt r).parent

namespace Grows

theorem refl (K : String → Prop) (s : Store) : Grows K s s :=
  ⟨Nat.le_refl _, fun _ _ => rfl, fun _ _ h => h, fun _ _ _ => rfl, Nat.le_refl _, fun _ _ => rfl⟩

theorem trans (h : Grows K s t) (g : Grows K t u) : Grows K s u := by
  refine ⟨Nat.le_trans h.size g.size, fun a ha => ?_, fun a name hb => ?_, fun {a p} hp name hk => ?_,
    Nat.le_trans h.classes g.classes, fun r hr => ?_⟩
  · rw [g.parent a (Nat.lt_of_lt_of_le ha h.size), h.parent a ha]
  · exact g.bound a name (h.bound a name hb)
  · have hp' : (t.env a).parent = some p := by rw [h.parent a (parent_lt_size hp), hp]
    rw [g.fixed hp' name hk, h.fixed hp name hk]
  · rw [g.superclass r (Nat.lt_of_lt_of_le hr h.classes), h.superclass r hr]

/-- Where the environments are the same, only the classes may have grown. -/
theorem of_envs_eq (h : t.envs = s.envs) (hc : s.classes.size ≤ t.classes.size)
    (hs : ∀ r, r < s.classes.size → (t.classAt r).parent = (s.classAt r).parent) : Grows K s t := by
  have henv : ∀ a, t.env a = s.env a := fun a => by simp [env, h]
  refine ⟨by simp [h], fun a _ => by rw [henv], fun a name hb => ?_, fun _ name _ => ?_, hc, hs⟩
  · rw [← hb]
    simp [hasLocal, henv]
  · simp [local?, henv]

/-- Where the classes are the same, too, each store came after the other. -/
theorem of_eq (h : t.envs = s.envs) (hc : t.classes = s.classes) : Grows K s t :=
  .of_envs_eq h (Nat.le_of_eq (congrArg Array.size hc.symm)) fun r _ => by simp [classAt, hc]

/-- A variable in `K` must not be given another value, unless the environment is an outermost one. -/
theorem define (s : Store) (e : EnvRef) (hn : ¬ K name ∨ (s.env e).parent = none) (v : Value) :
    Grows K s (s.define e name v) := by
  refine ⟨by simp, fun a _ => by simp, fun a other hb => ?_, fun {a p} hp other hk => ?_,
    Nat.le_refl _, fun _ _ => rfl⟩
  · obtain ⟨x, hx⟩ := (hasLocal_iff _ _ _).1 hb
    rw [hasLocal_iff, local?_define]
    split
    · exact ⟨v, rfl⟩
    · exact ⟨x, hx⟩
  · rw [local?_define, if_neg]
    rintro ⟨rfl, -, rfl⟩
    rcases hn with hn | hn
    · exact hn hk
    · exact nomatch hn.symm.trans hp

/-- A variable of an environment that `s` does not have may have any name. -/
theorem define_new (h : Grows K s t) (he : s.envs.size ≤ e) (name : String) (v : Value) :
    Grows K s (t.define e name v) := by
  refine ⟨by simpa using h.size, fun a ha => by simpa using h.parent a ha,
    fun a other hb => ?_, fun {a p} hp other hk => ?_, h.classes, h.superclass⟩
  · obtain ⟨x, hx⟩ := (hasLocal_iff _ _ _).1 (h.bound a other hb)
    rw [hasLocal_iff, local?_define]
    split
    · exact ⟨v, rfl⟩
    · exact ⟨x, hx⟩
  · rw [local?_define, if_neg, h.fixed hp other hk]
    rintro ⟨rfl, -, -⟩
    exact Nat.not_lt_of_ge he (parent_lt_size hp)

theorem newEnv (s : Store) (p : Option EnvRef) : Grows K s (s.newEnv p).2 := by
  refine ⟨by simp, fun a ha => ?_, fun a name hb => ?_, fun hp name _ => ?_, Nat.le_refl _,
    fun _ _ => rfl⟩
  · rw [env_newEnv, if_neg (Nat.ne_of_lt ha)]
  · obtain ⟨x, hx⟩ := (hasLocal_iff _ _ _).1 hb
    rw [hasLocal_iff, local?_newEnv, if_neg (Nat.ne_of_lt (lt_size_of_local? hx))]
    exact ⟨x, hx⟩
  · rw [local?_newEnv, if_neg (Nat.ne_of_lt (parent_lt_size hp))]

theorem defineAll_new (names : List String) (vs : List Value) :
    ∀ {t : Store} {e : EnvRef}, Grows K s t → s.envs.size ≤ e →
      Grows K s (t.defineAll e names vs) := by
  induction names generalizing vs with
  | nil => intro t e h _; exact h
  | cons name names ih =>
    intro t e h he
    cases vs with
    | nil => exact h
    | cons v vs => exact ih vs (h.define_new he name v) he

end Grows

/-- `t` came after `s`, and in the environments of `s` that are inside others it has no variable that was
    not there. -/
structure Keeps (K : String → Prop) (s t : Store) : Prop extends Grows K s t where
  names : ∀ {a p name}, (s.env a).parent = some p → t.hasLocal a name = true →
    s.hasLocal a name = true

namespace Keeps

theorem refl (K : String → Prop) (s : Store) : Keeps K s s := ⟨.refl K s, fun _ h => h⟩

theorem trans (h : Keeps K s t) (g : Keeps K t u) : Keeps K s u :=
  ⟨h.toGrows.trans g.toGrows,
    fun hp hu => h.names hp (g.names ((h.parent _ (parent_lt_size hp)).trans hp) hu)⟩

theorem of_eq (h : t.envs = s.envs) (hc : t.classes = s.classes) : Keeps K s t :=
  ⟨.of_eq h hc, fun _ ht => by simpa [hasLocal, env, h] using ht⟩

theorem newEnv (s : Store) (p : Option EnvRef) : Keeps K s (s.newEnv p).2 :=
  ⟨.newEnv s p, fun _ => hasLocal_newEnv⟩

theorem define_new (h : Keeps K s t) (he : s.envs.size ≤ e) (name : String) (v : Value) :
    Keeps K s (t.define e name v) :=
  ⟨h.toGrows.define_new he name v, fun hp ht => h.names hp ((hasLocal_define ht).resolve_right
    fun hc => Nat.not_lt_of_ge he (hc.1 ▸ parent_lt_size hp))⟩

/-- A variable that is there may be given another value. -/
theorem define (hn : ¬ K name) (he : s.hasLocal e name = true) (v : Value) :
    Keeps K s (s.define e name v) :=
  ⟨.define s e (.inl hn) v, fun _ ht => (hasLocal_define ht).elim id fun hc => hc.1 ▸ hc.2 ▸ he⟩

end Keeps

/-- The environment is there and is an outermost one. -/
def Root (s : Store) (e : EnvRef) : Prop := e < s.envs.size ∧ (s.env e).parent = none

theorem Root.grows (h : s.Root e) (hg : s.Grows K t) : t.Root e :=
  ⟨Nat.lt_of_lt_of_le h.1 hg.size, by rw [hg.parent e h.1, h.2]⟩

/-! ## Ancestors -/

theorem ancestor?_succ (s : Store) (e : EnvRef) (n : Nat) :
    s.ancestor? e (n + 1) = ((s.env e).parent).bind (s.ancestor? · n) := by
  rw [ancestor?]
  cases (s.env e).parent <;> rfl

/-- The way outwards may be taken in two parts. -/
theorem ancestor?_add (s : Store) (e : EnvRef) (m n : Nat) :
    s.ancestor? e (m + n) = (s.ancestor? e m).bind (s.ancestor? · n) := by
  induction m generalizing e with
  | zero => simp [ancestor?]
  | succ m ih =>
    rw [Nat.add_right_comm, ancestor?_succ, ancestor?_succ]
    cases (s.env e).parent with
    | none => rfl
    | some p => exact ih p

/-- What is found on the way outwards stays there. -/
theorem ancestor?_grows (h : Grows K s t) {n : Nat} (ha : s.ancestor? e n = some a) :
    t.ancestor? e n = some a := by
  induction n generalizing e with
  | zero => exact ha
  | succ n ih =>
    rw [ancestor?_succ] at ha ⊢
    cases hp : (s.env e).parent with
    | none => rw [hp] at ha; exact nomatch ha
    | some p =>
      rw [h.parent e (parent_lt_size hp), hp]
      rw [hp] at ha
      exact ih ha

/-- From a new environment the way outwards goes on where its parent's does. -/
theorem ancestor?_newEnv (s : Store) (p : EnvRef) (n : Nat) (ha : s.ancestor? p n = some a) :
    (s.newEnv (some p)).2.ancestor? s.envs.size (n + 1) = some a := by
  rw [ancestor?_succ, env_newEnv, if_pos rfl]
  exact ancestor?_grows (Grows.newEnv (K := fun _ => False) s (some p)) ha

end Store

end Eleu
