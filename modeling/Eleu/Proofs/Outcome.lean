import Eleu.World

/-! # Outcomes of computations

    The walker, the machine, the parser and the natives are all computations with a state that
    survives an error. Two things are said about them here once: how each primitive acts on a
    state (`bind_apply` and its neighbours, all of them `rfl`), and how a property of all
    outcomes of a composed computation follows from those of its parts (`Ends.bind`). -/

namespace Eleu

namespace Outcome

variable {ε σ α β : Type}

theorem bind_apply (x : EStateM ε σ α) (f : α → EStateM ε σ β) (s : σ) :
    (x >>= f) s =
      match x s with
      | .ok a s => f a s
      | .error e s => .error e s := by
  show EStateM.bind x f s = _
  unfold EStateM.bind
  cases x s <;> rfl

theorem map_apply (f : α → β) (x : EStateM ε σ α) (s : σ) :
    (f <$> x) s =
      match x s with
      | .ok a s => .ok (f a) s
      | .error e s => .error e s := by
  show EStateM.map f x s = _
  unfold EStateM.map
  cases x s <;> rfl

theorem pure_apply (a : α) (s : σ) : (pure a : EStateM ε σ α) s = .ok a s := rfl

theorem get_apply (s : σ) : (get : EStateM ε σ σ) s = .ok s s := rfl

theorem set_apply (t s : σ) : (set t : EStateM ε σ PUnit) s = .ok ⟨⟩ t := rfl

theorem throw_apply (e : ε) (s : σ) : (throw e : EStateM ε σ α) s = .error e s := rfl

/-- A computation that may fail gives a result if both its parts do. -/
theorem except_bind_eq_ok {x : Except ε α} {f : α → Except ε β} {b : β} :
    (x >>= f) = .ok b ↔ ∃ a, x = .ok a ∧ f a = .ok b := by
  cases x with
  | error e => exact ⟨fun h => (nomatch h), fun ⟨_, h, _⟩ => (nomatch h)⟩
  | ok a => exact ⟨fun h => ⟨a, rfl, h⟩, fun ⟨_, h, hf⟩ => Except.ok.inj h ▸ hf⟩

theorem toOption_eq_some {x : Except ε α} {a : α} : x.toOption = some a ↔ x = .ok a := by
  cases x with
  | error e => exact ⟨nofun, nofun⟩
  | ok b => exact ⟨fun h => congrArg _ (Option.some.inj h), fun h => congrArg _ (Except.ok.inj h)⟩

/-- A check that holds of the result. -/
theorem any_toOption {x : Except ε α} {p : α → Bool} :
    x.toOption.any p = true ↔ ∃ a, x = .ok a ∧ p a = true := by
  simp only [Option.any_eq_true, toOption_eq_some]

/-- The result of a computation and the state after it, if it has a result. -/
def result? : EStateM.Result ε σ α → Option (α × σ)
  | .ok a s => some (a, s)
  | .error _ _ => none

theorem result?_eq_some {r : EStateM.Result ε σ α} {a : α} {s : σ} :
    result? r = some (a, s) ↔ r = .ok a s := by
  cases r <;> simp [result?]

/-- The error of a computation and the state after it, if it has one. -/
def error? : EStateM.Result ε σ α → Option (ε × σ)
  | .ok _ _ => none
  | .error e s => some (e, s)

theorem error?_eq_some {r : EStateM.Result ε σ α} {e : ε} {s : σ} :
    error? r = some (e, s) ↔ r = .error e s := by
  cases r <;> simp [error?]

theorem except_ok_bind (a : α) (f : α → Except ε β) : (Except.ok a >>= f) = f a := rfl

end Outcome

/-- A result satisfies `P`, and an error satisfies `E`. -/
def Yields {ε α : Type} (r : Except ε α) (P : α → Prop) (E : ε → Prop) : Prop :=
  match r with
  | .ok a => P a
  | .error e => E e

namespace Yields

variable {ε α β : Type} {P : α → Prop} {Q : β → Prop} {E : ε → Prop}

theorem bind {x : Except ε α} {f : α → Except ε β} (hx : Yields x P E)
    (hf : ∀ a, P a → Yields (f a) Q E) : Yields (x >>= f) Q E := by
  cases x with
  | ok a => exact hf a hx
  | error e => exact hx

theorem map {x : Except ε α} {f : α → β} (hx : Yields x (fun a => Q (f a)) E) :
    Yields (x.map f) Q E := by
  cases x with
  | ok a => exact hx
  | error e => exact hx

theorem mono {R : α → Prop} {x : Except ε α} (hx : Yields x P E) (h : ∀ a, P a → R a) :
    Yields x R E := by
  cases x with
  | ok a => exact h a hx
  | error e => exact hx

theorem of_ok {x : Except ε α} (hx : Yields x P E) {a : α} (h : x = .ok a) : P a := by
  subst h
  exact hx

end Yields

/-- An outcome with a result satisfies `P`, and one with an error satisfies `E`. -/
def Ends {ε σ α : Type} (r : EStateM.Result ε σ α) (P : α → σ → Prop) (E : ε → σ → Prop) : Prop :=
  match r with
  | .ok a s => P a s
  | .error e s => E e s

/-- The state in which a computation has ended. -/
def Outcome.state {ε σ α : Type} : EStateM.Result ε σ α → σ
  | .ok _ s => s
  | .error _ s => s

namespace Ends

/-- What holds of the state however a computation ends. -/
theorem state {ε σ α : Type} {r : EStateM.Result ε σ α} {P : σ → Prop} :
    Ends r (fun _ s => P s) (fun _ s => P s) ↔ P (Outcome.state r) := by
  cases r <;> exact Iff.rfl

variable {ε σ α β : Type} {P Q : α → σ → Prop} {R : β → σ → Prop} {E F : ε → σ → Prop}

theorem mono {r : EStateM.Result ε σ α} (h : Ends r P E) (hP : ∀ a s, P a s → Q a s)
    (hE : ∀ e s, E e s → F e s) : Ends r Q F := by
  cases r with
  | ok a s => exact hP a s h
  | error e s => exact hE e s h

/-- A composed computation ends well if its second part does after every result of the first. -/
theorem bind {x : EStateM ε σ α} {f : α → EStateM ε σ β} {s : σ} (hx : Ends (x s) P E)
    (hf : ∀ a t, P a t → Ends (f a t) R E) : Ends ((x >>= f) s) R E := by
  rw [Outcome.bind_apply]
  cases h : x s with
  | ok a t =>
    rw [h] at hx
    exact hf a t hx
  | error e t =>
    rw [h] at hx
    exact hx

theorem map {x : EStateM ε σ α} {f : α → β} {s : σ} (hx : Ends (x s) (fun a t => R (f a) t) E) :
    Ends ((f <$> x) s) R E := by
  rw [Outcome.map_apply]
  cases h : x s with
  | ok a t =>
    rw [h] at hx
    exact hx
  | error e t =>
    rw [h] at hx
    exact hx

end Ends

/-! ## Two computations -/

/-- Both fail with the same error, or both succeed with results that `A` relates. -/
inductive YieldAlike {ε α β : Type} (A : α → β → Prop) : Except ε α → Except ε β → Prop where
  | ok {a : α} {b : β} (h : A a b) : YieldAlike A (.ok a) (.ok b)
  | error (e : ε) : YieldAlike A (.error e) (.error e)

namespace YieldAlike

variable {ε α α' β β' : Type} {A : α → β → Prop} {B : α' → β' → Prop}

theorem bind {x : Except ε α} {y : Except ε β} {f : α → Except ε α'} {g : β → Except ε β'}
    (h : YieldAlike A x y) (hf : ∀ a b, A a b → YieldAlike B (f a) (g b)) :
    YieldAlike B (x >>= f) (y >>= g) := by
  cases h with
  | ok h => exact hf _ _ h
  | error e => exact .error e

theorem mono {C : α → β → Prop} {x : Except ε α} {y : Except ε β} (h : YieldAlike A x y)
    (hC : ∀ a b, A a b → C a b) : YieldAlike C x y := by
  cases h with
  | ok h => exact .ok (hC _ _ h)
  | error e => exact .error e

theorem refl (x : Except ε α) : YieldAlike Eq x x := by
  cases x with
  | ok a => exact .ok rfl
  | error e => exact .error e

theorem of_eq {x y : Except ε α} (h : y = x) : YieldAlike Eq x y := h ▸ refl x

/-- A computation beside itself, with what holds of its result. -/
theorem diagonal {P : α → Prop} {x : Except ε α} (h : ∀ a, x = .ok a → P a) :
    YieldAlike (fun a b => b = a ∧ P a) x x := by
  cases x with
  | ok a => exact .ok ⟨rfl, h a rfl⟩
  | error e => exact .error e

end YieldAlike

/-- Related options are both there or both missing. -/
theorem rel_cases {α β : Type} {A : α → β → Prop} {x : Option α} {y : Option β}
    (h : Option.Rel A x y) : (x = none ∧ y = none) ∨ ∃ a b, x = some a ∧ y = some b ∧ A a b := by
  cases h with
  | some h => exact .inr ⟨_, _, rfl, rfl, h⟩
  | none => exact .inl ⟨rfl, rfl⟩

/-- Both end in states that `S` relates, with results that `A` relates there or with the same error,
    which satisfies `E`. -/
inductive BothEnd {ε σ α β : Type} (S : σ → σ → Prop) (A : σ → α → β → Prop) (E : ε → Prop) :
    EStateM.Result ε σ α → EStateM.Result ε σ β → Prop where
  | ok {s t : σ} {a : α} {b : β} (hs : S s t) (ha : A s a b) : BothEnd S A E (.ok a s) (.ok b t)
  | error {s t : σ} {e : ε} (hs : S s t) (he : E e) : BothEnd S A E (.error e s) (.error e t)

end Eleu
