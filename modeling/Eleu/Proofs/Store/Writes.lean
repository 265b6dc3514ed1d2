import Eleu.Proofs.Outcome

/-! # What the writes of the store do

    Declarations, assignments and class statements are computations on the store that may fail.
    Each of them finds out first whether it can be done, and then changes the store. This is said
    once for each (`declare_apply`, `assignAt_apply`, `assign_apply`, `openClass_ends`,
    `declareClass_apply`), and with it that a write that fails has left the store as it was. -/

namespace Eleu

namespace Store

variable {s t : Store}

/-! ## Variables -/

theorem declare_apply (s : Store) (e : EnvRef) (name : String) (v : Value) :
    declare e name v s =
      if s.hasLocal e name then .error (.alreadyDeclared name) s else .ok () (s.define e name v) := by
  unfold declare
  rw [Outcome.bind_apply, Outcome.get_apply]
  dsimp only
  cases s.hasLocal e name <;> rfl

/-- The environment `depth` scopes out, which must have the variable `name`. -/
def holderAt (s : Store) (e : EnvRef) (name : String) (depth : Nat) : Except Cause EnvRef :=
  match s.ancestor? e depth with
  | none => .error (.misresolved name)
  | some a => if s.hasLocal a name then .ok a else .error (.undefinedVariable name)

/-- The environment that holds the variable that `name` denotes in the environment `e`. -/
def holder (s : Store) (e : EnvRef) (name : String) : Except Cause EnvRef :=
  match s.binder? e name with
  | some b => .ok b
  | none => .error (.undefinedVariable name)

/-- A write to the environment that was looked for, if there is one. -/
def writeTo (s : Store) (name : String) (v : Value) : Except Cause EnvRef → EStateM.Result Cause Store Unit
  | .ok a => .ok () (s.define a name v)
  | .error c => .error c s

/-- The walk outwards changes nothing on its way. -/
theorem assignAt_apply (s : Store) (e : EnvRef) (name : String) (v : Value) (depth : Nat) :
    assignAt e name v depth s = s.writeTo name v (s.holderAt e name depth) := by
  induction depth generalizing e with
  | zero =>
    rw [assignAt, Outcome.bind_apply]
    show (if s.hasLocal e name = true then _ else _ : StoreM Unit) s = _
    rw [holderAt, ancestor?]
    dsimp only
    cases s.hasLocal e name <;> rfl
  | succ depth ih =>
    rw [assignAt, Outcome.bind_apply, holderAt, ancestor?]
    show (match (s.env e).parent with
      | some p => assignAt p name v depth
      | none => throw (.misresolved name) : StoreM Unit) s = _
    cases (s.env e).parent with
    | none => rfl
    | some p => exact ih p

theorem assignWithin_apply (s : Store) (name : String) (v : Value) (steps : Nat) (e : EnvRef) :
    assignWithin name v steps e s
      = s.writeTo name v ((s.binderWithin name steps e).elim (.error (.undefinedVariable name)) .ok) := by
  induction steps generalizing e with
  | zero => rfl
  | succ steps ih =>
    rw [assignWithin, Outcome.bind_apply, binderWithin]
    show (if s.hasLocal e name = true then _ else _ : StoreM Unit) s = _
    cases s.hasLocal e name with
    | true => rfl
    | false =>
      rw [if_neg Bool.false_ne_true, if_neg Bool.false_ne_true, Outcome.bind_apply]
      show (match (s.env e).parent with
        | some p => assignWithin name v steps p
        | none => throw (.undefinedVariable name) : StoreM Unit) s = _
      cases (s.env e).parent with
      | none => rfl
      | some p => exact ih p

theorem assign_apply (s : Store) (e : EnvRef) (name : String) (v : Value) :
    assign e name v s = s.writeTo name v (s.holder e name) := by
  unfold assign
  rw [Outcome.bind_apply]
  show assignWithin name v s.envs.size e s = _
  rw [assignWithin_apply, holder, binder?]
  cases s.binderWithin name s.envs.size e <;> rfl

/-! ## Class statements -/

/-- Either the name was free and there is a new class, or the name's class is opened again. -/
theorem openClass_ends (s : Store) (e : EnvRef) (name : String) (p : Option ClassRef) :
    Ends (openClass e name p s)
      (fun r t => s.local? e name = none ∧ r = s.classes.size ∧ t = (s.newClass name p).2
        ∨ s.local? e name = some (.callable (.classRef r)) ∧ (s.classAt r).parent = p ∧ t = s)
      (fun c t => (s.local? e name).isSome
        ∧ (∀ r, s.local? e name = some (.callable (.classRef r)) → (s.classAt r).parent ≠ p) ∧ t = s
        ∧ (c = .superclassChanged name ∨ c = .alreadyDeclared name)) := by
  simp only [openClass, Outcome.bind_apply, show (MonadState.get : StoreM Store) s = .ok s s from rfl]
  cases s.local? e name with
  | none => exact .inl ⟨rfl, rfl, rfl⟩
  | some v =>
    cases v with
    | callable c =>
      cases c with
      | classRef r =>
        show Ends ((if (s.classAt r).parent = p then pure r
          else throw (.superclassChanged name) : StoreM ClassRef) s) _ _
        split
        · next hp => exact .inr ⟨rfl, hp, rfl⟩
        · next hp => exact ⟨rfl, by rintro _ ⟨⟩; exact hp, rfl, .inl rfl⟩
      | native | closure => exact ⟨rfl, by rintro _ ⟨⟩, rfl, .inr rfl⟩
    | nil | bool | number | string | list | object => exact ⟨rfl, by rintro _ ⟨⟩, rfl, .inr rfl⟩

/-- The store after a class statement in the environment `e` for the class `r`, which has been found
    or made. -/
def withClass (s : Store) (e : EnvRef) (name : String) (p : Option ClassRef) (r : ClassRef)
    (methods : List FunctionDecl) : Store :=
  ((s.methodScope e p).2.addMethods r (s.methodScope e p).1 methods).define e name
    (.callable (.classRef r))

/-- What can be wrong with a class statement is found before anything is changed but the class made. -/
theorem declareClass_apply (s : Store) (e : EnvRef) (name : String) (superclass : Option Value)
    (methods : List FunctionDecl) :
    declareClass e name superclass methods s =
      match s.superclassOf superclass with
      | .error c => .error c s
      | .ok p =>
        match openClass e name p s with
        | .error c t => .error c t
        | .ok r t => .ok () (t.withClass e name p r methods) := by
  unfold declareClass
  rw [Outcome.bind_apply]
  show ((MonadExcept.ofExcept (s.superclassOf superclass) : StoreM (Option ClassRef)) >>= _) s = _
  rw [Outcome.bind_apply]
  cases s.superclassOf superclass with
  | error c => rfl
  | ok p =>
    dsimp only
    show ((openClass e name p : StoreM ClassRef) >>= _) s = _
    rw [Outcome.bind_apply]
    cases openClass e name p s <;> rfl

/-! ## Writes that fail -/

/-- A write that fails leaves the store as it was. -/
def Atomic (act : StoreM Unit) : Prop := ∀ {s t : Store} {c : Cause}, act s = .error c t → t = s

/-- The superclass and the class are looked at before the first method is added. -/
theorem declareClass_atomic (e : EnvRef) (name : String) (superclass : Option Value)
    (methods : List FunctionDecl) : Atomic (declareClass e name superclass methods) := by
  intro s t c h
  rw [declareClass_apply] at h
  cases hp : s.superclassOf superclass with
  | error c' =>
    rw [hp] at h
    cases h
    rfl
  | ok p =>
    have hopen := s.openClass_ends e name p
    rw [hp] at h
    dsimp only at h
    cases hr : openClass e name p s with
    | ok r s₁ =>
      rw [hr] at h
      cases h
    | error c' s₁ =>
      rw [hr] at h hopen
      cases h
      exact hopen.2.2.1

end Store

end Eleu
