import Eleu.Proofs.Isolation.Likeness

/-! # Computations side by side

    `Parallel` relates two computations that, started in related states, end in related states
    with the same error or with related results. Compositions of parallel computations are
    parallel, and so are the writes of the store. The natives of the library are parallel when they
    are given alike arguments in worlds that differ only in their stores, which are alike;
    `Options.OpaqueHost` asks the same of the natives of the host. -/

namespace Eleu

/-- Both computations end in states that `S` relates, with the same error or with results that `A`
    relates. -/
inductive EndAlike {ε σ α β : Type} (S : σ → σ → Prop) (A : α → β → Prop) :
    EStateM.Result ε σ α → EStateM.Result ε σ β → Prop where
  | ok {a : α} {b : β} {s t : σ} (h : A a b) (hs : S s t) : EndAlike S A (.ok a s) (.ok b t)
  | error {s t : σ} (e : ε) (hs : S s t) : EndAlike S A (.error e s) (.error e t)

theorem EndAlike.both {ε σ α β : Type} {S T : σ → σ → Prop} {A : α → β → Prop} {C : σ → α → β → Prop}
    {E : ε → Prop} {r : EStateM.Result ε σ α} {r' : EStateM.Result ε σ β} (h : EndAlike S A r r')
    (hS : ∀ s t, S s t → T s t) (hA : ∀ s a b, A a b → C s a b) (hE : ∀ e, E e) : BothEnd T C E r r' := by
  cases h with
  | ok ha hs => exact .ok (hS _ _ hs) (hA _ _ _ ha)
  | error e hs => exact .error (hS _ _ hs) (hE e)

/-- Started in related states, both computations end alike. -/
def Parallel {ε σ α β : Type} (S : σ → σ → Prop) (A : α → β → Prop) (x : EStateM ε σ α)
    (y : EStateM ε σ β) : Prop :=
  ∀ s t, S s t → EndAlike S A (x s) (y t)

namespace Parallel

variable {ε σ α α' β β' : Type} {S : σ → σ → Prop} {A : α → β → Prop} {B : α' → β' → Prop}

/-- Two computations one after the other. -/
theorem bind {x : EStateM ε σ α} {y : EStateM ε σ β} {f : α → EStateM ε σ α'}
    {g : β → EStateM ε σ β'} (h : Parallel S A x y)
    (hf : ∀ a b, A a b → Parallel S B (f a) (g b)) : Parallel S B (x >>= f) (y >>= g) := by
  intro s t hs
  rw [Outcome.bind_apply, Outcome.bind_apply]
  have hxy := h s t hs
  generalize x s = p at hxy ⊢
  generalize y t = q at hxy ⊢
  cases hxy with
  | ok h hs => exact hf _ _ h _ _ hs
  | error e hs => exact .error e hs

theorem map {x : EStateM ε σ α} {y : EStateM ε σ β} {f : α → α'} {g : β → β'}
    (h : Parallel S A x y) (hf : ∀ a b, A a b → B (f a) (g b)) : Parallel S B (f <$> x) (g <$> y) := by
  intro s t hs
  rw [Outcome.map_apply, Outcome.map_apply]
  have hxy := h s t hs
  generalize x s = p at hxy ⊢
  generalize y t = q at hxy ⊢
  cases hxy with
  | ok h hs => exact .ok (hf _ _ h) hs
  | error e hs => exact .error e hs

theorem pure {a : α} {b : β} (h : A a b) :
    Parallel S A (pure a : EStateM ε σ α) (pure b) := fun _ _ hs => .ok h hs

theorem throw (e : ε) : Parallel S A (throw e : EStateM ε σ α) (throw e : EStateM ε σ β) :=
  fun _ _ hs => .error e hs

theorem get : Parallel S S (get : EStateM ε σ σ) get := fun _ _ hs => .ok hs hs

theorem set {s t : σ} (h : S s t) : Parallel S Eq (set s : EStateM ε σ PUnit) (set t) :=
  fun _ _ _ => .ok rfl h

theorem modify {f g : σ → σ} (h : ∀ s t, S s t → S (f s) (g t)) :
    Parallel S Eq (modify f : EStateM ε σ PUnit) (modify g) :=
  fun s t hs => .ok rfl (h s t hs)

end Parallel

/-! ## Writes of the store -/

namespace Store

variable {P : Pairing} {s s' : Store}

theorem declare_parallel (e : EnvRef) (name : String) {v v' : Value} (hv : v.Like P v') :
    Parallel (Store.Like P) Eq (declare e name v) (declare e name v') := by
  intro s s' hs
  rw [declare_apply, declare_apply, hs.hasLocal]
  split
  · exact .error _ hs
  · exact .ok rfl (hs.define e name hv)

theorem Like.writeTo (hs : s.Like P s') (name : String) {v v' : Value} (hv : v.Like P v')
    (found : Except Cause EnvRef) :
    EndAlike (Store.Like P) Eq (s.writeTo name v found) (s'.writeTo name v' found) := by
  cases found with
  | ok a => exact .ok rfl (hs.define a name hv)
  | error c => exact .error c hs

theorem assignAt_parallel (e : EnvRef) (name : String) {v v' : Value} (hv : v.Like P v') (depth : Nat) :
    Parallel (Store.Like P) Eq (assignAt e name v depth) (assignAt e name v' depth) := by
  intro s s' hs
  rw [assignAt_apply, assignAt_apply, hs.holderAt]
  exact hs.writeTo name hv _

theorem assign_parallel (e : EnvRef) (name : String) {v v' : Value} (hv : v.Like P v') :
    Parallel (Store.Like P) Eq (assign e name v) (assign e name v') := by
  intro s s' hs
  rw [assign_apply, assign_apply, hs.holder]
  exact hs.writeTo name hv _

theorem openClass_parallel (e : EnvRef) (name : String) (p : Option ClassRef) :
    Parallel (Store.Like P) Eq (openClass e name p) (openClass e name p) := by
  refine Parallel.get.bind fun s s' hs => ?_
  obtain ⟨hx, hy⟩ | ⟨v, v', hx, hy, hv⟩ := rel_cases (hs.local? e name)
  · rw [hx, hy]
    exact fun t t' ht => .ok ht.classes.size.symm (ht.newClass name p)
  · rw [hx, hy]
    cases hv with
    | closure _ => exact .throw _
    | plain _ =>
      cases v with
      | callable c =>
        cases c with
        | classRef r =>
          refine Parallel.get.bind fun t t' ht => ?_
          rw [(ht.classAt r).parent]
          split
          · exact .pure rfl
          · exact .throw _
        | _ => exact .throw _
      | _ => exact .throw _

theorem Like.withClass (hs : s.Like P s') (hP : P.Faithful) (e : EnvRef) (name : String)
    (p : Option ClassRef) (r : ClassRef) {methods methods' : List FunctionDecl}
    (hms : List.Forall₂ P methods methods') :
    (s.withClass e name p r methods).Like P (s'.withClass e name p r methods') := by
  cases p with
  | none => exact (hs.addMethods hP r e hms).define e name (.plain (v := .callable (.classRef r)) trivial)
  | some q =>
    have hsize : (s'.newEnv (some e)).1 = (s.newEnv (some e)).1 := hs.envs.size
    have hscope := (hs.newEnv (some e)).define (s.newEnv (some e)).1 "super"
      (.plain (v := .callable (.classRef q)) trivial)
    unfold Store.withClass Store.methodScope
    dsimp only
    rw [hsize]
    exact (hscope.addMethods hP r _ hms).define e name (.plain (v := .callable (.classRef r)) trivial)

/-- Class statements whose methods are paired. -/
theorem declareClass_parallel (hP : P.Faithful) (e : EnvRef) (name : String) {x x' : Option Value}
    (hx : Option.Rel (Value.Like P) x x') {methods methods' : List FunctionDecl}
    (hms : List.Forall₂ P methods methods') :
    Parallel (Store.Like P) Eq (declareClass e name x methods) (declareClass e name x' methods') := by
  intro s s' hs
  rw [declareClass_apply, declareClass_apply, hs.superclassOf hP hx]
  cases s.superclassOf x with
  | error c => exact .error c hs
  | ok p =>
    have hopen := openClass_parallel (P := P) e name p s s' hs
    dsimp only
    generalize openClass e name p s = y at hopen ⊢
    generalize openClass e name p s' = z at hopen ⊢
    cases hopen with
    | ok hr ht =>
      cases hr
      exact .ok rfl (ht.withClass hP e name p _ hms)
    | error c ht => exact .error c ht

end Store

/-! ## What the host may see -/

/-- The natives of the host see of a function no more than a script does. -/
def Options.OpaqueHost (o : Options) : Prop :=
  ∀ (P : Pairing), P.Faithful → ∀ (name : String) (args args' : List Value),
    List.Forall₂ (Value.Like P) args args' →
    Parallel (World.Alike (Store.Like P)) (Value.Like P) (o.host name args) (o.host name args')

/-! ## Arguments of natives -/

namespace Store.Like

variable {P : Pairing} {s s' : Store} {args args' : List Value}

/-- The first argument, or nil in its place. -/
theorem headD_like (hargs : List.Forall₂ (Value.Like P) args args') :
    (args.headD .nil).Like P (args'.headD .nil) := by
  cases hargs with
  | nil => exact .plain trivial
  | cons hv _ => exact hv

theorem foundText (h : s.Like P s') (hP : P.Faithful) {x x' : Option Value}
    (hx : Option.Rel (Value.Like P) x x') : s'.foundText x' = s.foundText x := by
  cases hx with
  | none => rfl
  | some hv => simp only [Store.foundText, h.repr hP hv]

variable (h : s.Like P s') (hP : P.Faithful) (hargs : List.Forall₂ (Value.Like P) args args')
include h hP hargs

/-- A kind of argument that no function is of is read alike, and refused in the same words. -/
theorem argument {α : Type} {read : Value → Option α} (hread : ∀ c, read (.callable (.closure c)) = none)
    (what name : String) (i : Nat) :
    s'.argument read what name args' i = s.argument read what name args i := by
  unfold Store.argument Store.wrongArgument
  rw [h.foundText hP (rel_getElem? hargs i)]
  obtain ⟨hx, hy⟩ | ⟨v, v', hx, hy, hv⟩ := rel_cases (rel_getElem? hargs i)
  · rw [hx, hy]
  · rw [hx, hy]
    cases hv with
    | plain _ => rfl
    | closure _ => rw [Option.bind_some, Option.bind_some, hread, hread]

theorem numberArgument (name : String) (i : Nat) :
    s'.numberArgument name args' i = s.numberArgument name args i :=
  h.argument hP hargs (fun _ => rfl) ..

theorem intArgument (name : String) (i : Nat) :
    s'.intArgument name args' i = s.intArgument name args i :=
  h.argument hP hargs (fun _ => rfl) ..

theorem stringArgument (name : String) (i : Nat) :
    s'.stringArgument name args' i = s.stringArgument name args i :=
  h.argument hP hargs (fun _ => rfl) ..

theorem listArgument (name : String) (i : Nat) :
    s'.listArgument name args' i = s.listArgument name args i :=
  h.argument hP hargs (fun _ => rfl) ..

theorem indexArgument (name : String) (i limit : Nat) :
    s'.indexArgument name args' i limit = s.indexArgument name args i limit := by
  unfold Store.indexArgument
  rw [h.intArgument hP hargs]

/-! ## Natives that only look at their arguments -/

theorem lengthNative : s'.lengthNative args' = s.lengthNative args := by
  have hv := headD_like hargs
  have ht := h.repr hP hv
  unfold Store.lengthNative checkCount
  rw [hargs.length_eq]
  generalize args.headD .nil = v at hv ht ⊢
  generalize args'.headD .nil = v' at hv ht ⊢
  cases hv with
  | closure _ => simp only [ht]
  | plain _ =>
    cases v with
    | list r => simp only [(h.list r).size]
    | _ => simp only [ht]

theorem elementAtNative :
    YieldAlike (Value.Like P) (s.elementAtNative args) (s'.elementAtNative args') := by
  unfold Store.elementAtNative checkCount
  rw [hargs.length_eq, h.listArgument hP hargs]
  refine (YieldAlike.refl _).bind ?_
  rintro - - rfl
  refine (YieldAlike.refl _).bind ?_
  rintro r _ rfl
  rw [h.indexArgument hP hargs, (h.list r).size]
  refine (YieldAlike.refl _).bind ?_
  rintro i _ rfl
  obtain ⟨hx, hy⟩ | ⟨v, v', hx, hy, hv⟩ := rel_cases ((h.list r).get? i)
  · rw [hx, hy]
    exact .error _
  · rw [hx, hy]
    exact .ok hv

end Store.Like

/-! ## Calling a native -/

namespace NativeM

variable {P : Pairing} {args args' : List Value}

theorem look_parallel {f g : Store → Except Cause Value}
    (h : ∀ s s', s.Like P s' → YieldAlike (Value.Like P) (f s) (g s')) :
    Parallel (World.Alike (Store.Like P)) (Value.Like P) (look f) (look g) := by
  refine Parallel.get.bind fun w w' hw => ?_
  have hfg := h w.store w'.store hw.store
  generalize f w.store = x at hfg ⊢
  generalize g w'.store = y at hfg ⊢
  cases hfg with
  | ok hv => exact .pure hv
  | error c => exact .throw _

/-- A native that gives the same inert value for alike arguments. -/
theorem look_same {f g : Store → Except Cause Value} {E : Cause → Prop}
    (heq : ∀ s s', s.Like P s' → g s' = f s) (hf : ∀ s, Yields (f s) Value.Inert E) :
    Parallel (World.Alike (Store.Like P)) (Value.Like P) (look f) (look g) :=
  look_parallel fun s s' hs => Store.Like.yieldAlike (heq s s' hs) (hf s)

theorem count_parallel (hargs : List.Forall₂ (Value.Like P) args args') (name : String) (n : Nat) :
    Parallel (World.Alike (Store.Like P)) Eq (count name args n) (count name args' n) := by
  unfold count checkCount
  rw [hargs.length_eq]
  split
  · exact .pure rfl
  · exact .throw _

theorem print_parallel (hP : P.Faithful) (hargs : List.Forall₂ (Value.Like P) args args') :
    Parallel (World.Alike (Store.Like P)) (Value.Like P) (print args) (print args') := by
  refine (count_parallel hargs _ _).bind fun _ _ _ => ?_
  refine (Parallel.modify ?_).bind fun _ _ _ => .pure (.plain trivial)
  rintro w _ ⟨s', hs, rfl⟩
  show World.Alike (Store.Like P) _ (World.print { w with store := s' } (s'.text _))
  rw [hs.text hP (Store.Like.headD_like hargs)]
  exact ⟨s', hs, rfl⟩

theorem push_parallel (hP : P.Faithful) (hargs : List.Forall₂ (Value.Like P) args args') :
    Parallel (World.Alike (Store.Like P)) (Value.Like P) (push args) (push args') := by
  refine (count_parallel hargs _ _).bind fun _ _ _ => Parallel.get.bind ?_
  rintro w _ ⟨s', hs, rfl⟩
  have hlast : (args.getLastD .nil).Like P (args'.getLastD .nil) := by
    rw [List.getLastD_eq_getLast?, List.getLastD_eq_getLast?, List.getLast?_eq_getElem?,
      List.getLast?_eq_getElem?, ← hargs.length_eq]
    obtain ⟨hx, hy⟩ | ⟨v, v', hx, hy, hv⟩ := rel_cases (rel_getElem? hargs (args.length - 1))
    · rw [hx, hy]
      exact .plain trivial
    · rw [hx, hy]
      exact hv
  dsimp only
  rw [hs.listArgument hP hargs]
  cases w.store.listArgument "push" args 0 with
  | error c => exact .throw _
  | ok r =>
    refine (Parallel.set ⟨_, hs.pushTo r hlast, rfl⟩).bind fun _ _ _ => ?_
    exact .pure (.plain trivial)

theorem makeList_parallel (hargs : List.Forall₂ (Value.Like P) args args') :
    Parallel (World.Alike (Store.Like P)) (Value.Like P) (makeList args) (makeList args') := by
  refine Parallel.get.bind ?_
  rintro w _ ⟨s', hs, rfl⟩
  refine (Parallel.set ⟨_, hs.newList hargs, rfl⟩).bind fun _ _ _ => ?_
  show Parallel _ _ (pure (Value.list w.store.lists.size)) (pure (Value.list s'.lists.size))
  rw [hs.lists.size]
  exact .pure (.plain trivial)

/-- Every native does alike with alike arguments. -/
theorem call_parallel {o : Options} (ho : o.OpaqueHost) (hP : P.Faithful) (f : Native)
    (hargs : List.Forall₂ (Value.Like P) args args') :
    Parallel (World.Alike (Store.Like P)) (Value.Like P) (call o f args) (call o f args') := by
  have hlen := hargs.length_eq
  obtain ⟨name, params, op, serial⟩ := f
  cases op with
  | print => exact print_parallel hP hargs
  | clock =>
    dsimp only [call]
    refine (count_parallel hargs _ _).bind fun _ _ _ => Parallel.get.bind ?_
    rintro w _ ⟨s', hs, rfl⟩
    exact (Parallel.set ⟨s', hs, rfl⟩).bind fun _ _ _ => .pure (.plain trivial)
  | random =>
    dsimp only [call]
    refine (count_parallel hargs _ _).bind fun _ _ _ => Parallel.get.bind ?_
    rintro w _ ⟨s', hs, rfl⟩
    exact (Parallel.set ⟨s', hs, rfl⟩).bind fun _ _ _ => .pure (.plain trivial)
  | typeOf =>
    dsimp only [call]
    refine (count_parallel hargs _ _).bind fun _ _ _ => look_parallel fun s s' hs => ?_
    rw [hs.typeName (Store.Like.headD_like hargs)]
    exact .ok (.plain trivial)
  | toString =>
    dsimp only [call]
    refine (count_parallel hargs _ _).bind fun _ _ _ => look_parallel fun s s' hs => ?_
    rw [hs.text hP (Store.Like.headD_like hargs)]
    exact .ok (.plain trivial)
  | math m =>
    dsimp only [call]
    refine look_same (fun s s' hs => ?_) fun s => s.mathNative_inert m args
    simp only [Store.mathNative, checkCount, hlen, hs.numberArgument hP hargs]
  | pow =>
    dsimp only [call]
    refine look_same (fun s s' hs => ?_) fun s => s.powNative_inert args
    simp only [Store.powNative, checkCount, hlen, hs.numberArgument hP hargs]
  | toFixed =>
    dsimp only [call]
    refine look_same (fun s s' hs => ?_) fun s => s.toFixedNative_inert args
    simp only [Store.toFixedNative, checkCount, hlen, hs.numberArgument hP hargs,
      hs.intArgument hP hargs]
  | parseInt =>
    dsimp only [call]
    refine look_same (fun s s' hs => ?_) fun s => s.parseIntNative_inert args
    simp only [Store.parseIntNative, checkCount, hlen, hs.stringArgument hP hargs]
  | parseFloat =>
    dsimp only [call]
    refine look_same (fun s s' hs => ?_) fun s => s.parseNative_inert _ args
    simp only [Store.parseNative, checkCount, hlen, hs.stringArgument hP hargs]
  | parseNum =>
    dsimp only [call]
    refine look_same (fun s s' hs => ?_) fun s => s.parseNative_inert _ args
    simp only [Store.parseNative, checkCount, hlen, hs.stringArgument hP hargs]
  | length =>
    dsimp only [call]
    exact look_same (fun s s' hs => hs.lengthNative hP hargs) fun s => s.lengthNative_inert args
  | charAt =>
    dsimp only [call]
    refine look_same (fun s s' hs => ?_) fun s => s.charAtNative_inert args
    simp only [Store.charAtNative, checkCount, hlen, hs.stringArgument hP hargs,
      hs.indexArgument hP hargs]
  | substring =>
    dsimp only [call]
    refine look_same (fun s s' hs => ?_) fun s => s.substringNative_inert args
    simp only [Store.substringNative, checkCount, hlen, hs.stringArgument hP hargs,
      hs.indexArgument hP hargs]
  | indexOf =>
    dsimp only [call]
    refine look_same (fun s s' hs => ?_) fun s => s.indexOfNative_inert args
    simp only [Store.indexOfNative, checkCount, hlen, hs.stringArgument hP hargs,
      hs.indexArgument hP hargs]
  | lastIndexOf =>
    dsimp only [call]
    refine look_same (fun s s' hs => ?_) fun s => s.lastIndexOfNative_inert args
    simp only [Store.lastIndexOfNative, checkCount, hlen, hs.stringArgument hP hargs,
      hs.indexArgument hP hargs]
  | toLowerCase =>
    dsimp only [call]
    refine look_same (fun s s' hs => ?_) fun s => s.caseNative_inert _ _ args
    simp only [Store.caseNative, checkCount, hlen, hs.stringArgument hP hargs]
  | toUpperCase =>
    dsimp only [call]
    refine look_same (fun s s' hs => ?_) fun s => s.caseNative_inert _ _ args
    simp only [Store.caseNative, checkCount, hlen, hs.stringArgument hP hargs]
  | push => exact push_parallel hP hargs
  | elementAt =>
    dsimp only [call]
    exact look_parallel fun s s' hs => hs.elementAtNative hP hargs
  | makeList => exact makeList_parallel hargs
  | host => exact ho P hP name args args' hargs

end NativeM

end Eleu
