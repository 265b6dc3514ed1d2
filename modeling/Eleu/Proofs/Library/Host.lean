import Eleu.Proofs.Library.Results

/-! # Natives and the store

    The natives of the library leave environments and classes alone; they may make a list or add
    to one. The natives of the host are not part of the library, and the host can hand them every
    means it has itself. What is proved of a run therefore says what it asks of them:
    `Options.TameHost` leaves them free to make environments, classes and globals and to change
    variables, but the scopes of the script stay what they are, and no function comes in that the
    script has not made; `Options.SafeHost` asks only that no chain of scopes gets shorter and that
    functions come from declarations that could stand in a program. `NativeM.call_keeps` takes what
    is asked of the host over to all natives. -/

namespace Eleu

variable {args : List Value} {o : Options}

/-- `P` holds of every function that is a value somewhere in the store. -/
structure Store.Functions (P : Closure → Prop) (s : Store) : Prop where
  locals : ∀ {a : EnvRef} {name : String} {v : Value}, s.local? a name = some v → v.IfFunction P
  elements : ∀ {r : ListRef} {v : Value}, v ∈ s.list r → v.IfFunction P
  fields : ∀ {r : InstanceRef} {name : String} {v : Value},
    (s.instanceAt r).fields.get? name = some v → v.IfFunction P

/-- The two stores have the same environments and the same classes. -/
def Store.SameScopes (s t : Store) : Prop := t.envs = s.envs ∧ t.classes = s.classes

/-- `t` came after `s`, and what belongs to the script is as it was: its scopes have no new variables
    and keep `this` and `super`, and no class has got a method. -/
structure Store.Spares (s t : Store) : Prop extends s.Keeps Reserved t where
  methods : ∀ r, (t.classAt r).methods = (s.classAt r).methods

/-- What the natives of the host may do to a store: spare what belongs to the script, and give and
    keep only functions that were there. Their errors are their own. -/
structure Options.TameHost (o : Options) : Prop where
  scopes : ∀ name args (w : World), w.store.Spares (Outcome.state (o.host name args w)).store
  functions : ∀ name args w (P : Closure → Prop), (∀ v ∈ args, v.IfFunction P) →
    w.store.Functions P → Ends (o.host name args w)
      (fun v t => v.IfFunction P ∧ t.store.Functions P) (fun _ t => t.store.Functions P)
  errors : ∀ name args w, Ends (o.host name args w) (fun _ _ => True) (fun f _ => f.cause.Sound)

/-- No native of the host reports a static error. -/
def Options.DynamicHost (o : Options) : Prop :=
  ∀ name args w, Ends (o.host name args w) (fun _ _ => True) fun f _ => f.cause.kind ≠ .resolve

/-- The law that functions come from declarations in `D`. -/
def StoreLaw.declared (K : String → Prop) (D : FunctionDecl → Prop) : StoreLaw K where
  value _ v := v.IfFunction fun c => D c.decl
  method _ _ c := D c.decl
  value_grows _ h := h
  method_grows _ h := h
  inert h := h.plain.ifFunction _
  newClass _ _ _ := trivial
  value_bind _ h := h

variable {K : String → Prop} {L : StoreLaw K}

namespace Store

variable {s t : Store}

theorem SameScopes.refl (s : Store) : s.SameScopes s := ⟨rfl, rfl⟩

theorem SameScopes.grows (h : s.SameScopes t) : s.Grows K t := .of_eq h.1 h.2

theorem SameScopes.spares (h : s.SameScopes t) : s.Spares t :=
  ⟨.of_eq h.1 h.2, fun r => by simp [classAt, h.2]⟩

end Store

namespace NativeM

variable {w : World} {G : Store → Store → Prop} {E : Fault → Prop}

/-- Outcomes of a native that started in the world `w`: the value and the store are as the law wants
    them, `G` holds between the stores before and after, and an error satisfies `E`. -/
abbrev Keeps (L : StoreLaw K) (G : Store → Store → Prop) (E : Fault → Prop) (w : World)
    (r : EStateM.Result Fault World Value) : Prop :=
  Ends r (fun v t => v.Obeys L t.store ∧ t.store.Obeys L ∧ G w.store t.store)
    (fun f t => E f ∧ t.store.Obeys L ∧ G w.store t.store)

section Keeps

-- what is asked of the host must hold of natives that leave environments and classes alone
variable (hG : ∀ {s t : Store}, s.SameScopes t → G s t) (hE : ∀ c : Cause, c.Dynamic → E { cause := c })

include hG hE

theorem look_keeps (hs : w.store.Obeys L) (f : Store → Except Cause Value)
    (hf : Yields (f w.store) (fun v => v.Obeys L w.store) Cause.Dynamic) :
    Keeps L G E w (look f w) := by
  unfold look
  rw [Outcome.bind_apply, Outcome.get_apply]
  dsimp only
  cases hv : f w.store with
  | ok v =>
    rw [hv] at hf
    exact ⟨hf, hs, hG (.refl _)⟩
  | error c =>
    rw [hv] at hf
    exact ⟨hE c hf, hs, hG (.refl _)⟩

theorem look_inert_keeps (hs : w.store.Obeys L) {f : Store → Except Cause Value}
    (hf : ∀ s, Yields (f s) Value.Inert Cause.Dynamic) : Keeps L G E w (look f w) :=
  look_keeps hG hE hs f ((hf w.store).mono fun _ h => h.obeys)

/-- The number of arguments is checked first. -/
theorem count_keeps (hs : w.store.Obeys L) (name : String) (args : List Value) (n : Nat)
    {act : Unit → NativeM Value} (h : Keeps L G E w (act () w)) :
    Keeps L G E w ((count name args n >>= act) w) := by
  rw [Outcome.bind_apply]
  unfold count
  have hc := Store.checkCount_sound name args n n
  cases hn : checkCount name args n n with
  | ok u => exact h
  | error c =>
    rw [hn] at hc
    exact ⟨hE c hc, hs, hG (.refl _)⟩

theorem push_keeps (hs : w.store.Obeys L) (hargs : ∀ v ∈ args, v.Obeys L w.store) :
    Keeps L G E w (push args w) := by
  refine count_keeps hG hE hs "push" args 2 ?_
  have hl : Yields (w.store.listArgument "push" args 0) _ _ := w.store.argument_sound ..
  rw [Outcome.bind_apply, Outcome.get_apply]
  dsimp only
  cases h : w.store.listArgument "push" args 0 with
  | error c =>
    rw [h] at hl
    exact ⟨hE c hl, hs, hG (.refl _)⟩
  | ok r =>
    have hlast : (args.getLastD .nil).Obeys L w.store := by
      cases args with
      | nil => exact L.inert trivial
      | cons a as =>
        rw [List.getLastD_cons]
        exact hargs _ (List.getLastD_mem_cons ..)
    exact ⟨L.inert trivial, hs.pushTo r hlast, hG ⟨rfl, rfl⟩⟩

/-- Every call of a native keeps a law that the natives of the host keep. -/
theorem call_keeps (f : Native) (hs : w.store.Obeys L) (hargs : ∀ v ∈ args, v.Obeys L w.store)
    (ho : ∀ name, Keeps L G E w (o.host name args w)) : Keeps L G E w (call o f args w) := by
  obtain ⟨name, params, op, serial⟩ := f
  have plain : Keeps L G E w (.ok .nil w) := ⟨L.inert trivial, hs, hG (.refl _)⟩
  cases op with
  | print => exact count_keeps hG hE hs "print" args 1 plain
  | clock => exact count_keeps hG hE hs "clock" args 0 ⟨L.inert trivial, hs, hG (.refl _)⟩
  | random => exact count_keeps hG hE hs "random" args 0 ⟨L.inert trivial, hs, hG (.refl _)⟩
  | typeOf => exact count_keeps hG hE hs "typeof" args 1 (look_inert_keeps hG hE hs fun _ => trivial)
  | toString => exact count_keeps hG hE hs "toString" args 1 (look_inert_keeps hG hE hs fun _ => trivial)
  | math m => exact look_inert_keeps hG hE hs fun s => s.mathNative_inert m args
  | pow => exact look_inert_keeps hG hE hs fun s => s.powNative_inert args
  | toFixed => exact look_inert_keeps hG hE hs fun s => s.toFixedNative_inert args
  | parseInt => exact look_inert_keeps hG hE hs fun s => s.parseIntNative_inert args
  | parseFloat => exact look_inert_keeps hG hE hs fun s => s.parseNative_inert _ args
  | parseNum => exact look_inert_keeps hG hE hs fun s => s.parseNative_inert _ args
  | length => exact look_inert_keeps hG hE hs fun s => s.lengthNative_inert args
  | charAt => exact look_inert_keeps hG hE hs fun s => s.charAtNative_inert args
  | substring => exact look_inert_keeps hG hE hs fun s => s.substringNative_inert args
  | indexOf => exact look_inert_keeps hG hE hs fun s => s.indexOfNative_inert args
  | lastIndexOf => exact look_inert_keeps hG hE hs fun s => s.lastIndexOfNative_inert args
  | toLowerCase => exact look_inert_keeps hG hE hs fun s => s.caseNative_inert _ _ args
  | toUpperCase => exact look_inert_keeps hG hE hs fun s => s.caseNative_inert _ _ args
  | push => exact push_keeps hG hE hs hargs
  | elementAt =>
    have he := (w.store.elementAtNative_yields args).mono
      fun v (hv : ∃ r, v ∈ w.store.list r) => hs.elements hv.choose_spec
    exact look_keeps hG hE hs (·.elementAtNative args) he
  | makeList =>
    exact ⟨L.inert trivial, hs.newList fun v hv => hargs v (by simpa using hv), hG ⟨rfl, rfl⟩⟩
  | host => exact ho name

end Keeps

/-- All natives do to the store what those of the host may do. -/
theorem call_scopes (hG : ∀ {s t : Store}, s.SameScopes t → G s t)
    (ho : ∀ name, G w.store (Outcome.state (o.host name args w)).store) (f : Native) :
    G w.store (Outcome.state (call o f args w)).store := by
  have hhost (name : String) : Keeps .any G (fun _ => True) w (o.host name args w) :=
    (Ends.state.2 (ho name)).mono (fun _ _ h => ⟨trivial, .any, h⟩) fun _ _ h => ⟨trivial, .any, h⟩
  have hcall := call_keeps hG (fun _ _ => trivial) f .any (fun _ _ => trivial) hhost
  exact Ends.state.1 (hcall.mono (fun _ _ h => h.2.2) fun _ _ h => h.2.2)

/-- What belongs to the script is spared by all natives of a tame host. -/
theorem call_spares (ho : o.TameHost) (f : Native) (args : List Value) (w : World) :
    w.store.Spares (Outcome.state (call o f args w)).store :=
  call_scopes (G := Store.Spares) Store.SameScopes.spares (fun name => ho.scopes name args w) f

/-- No native reports a static error if none of the host's does. -/
theorem call_dynamic (ho : o.DynamicHost) (f : Native) (args : List Value) (w : World) :
    Ends (call o f args w) (fun _ _ => True) fun f _ => f.cause.kind ≠ .resolve := by
  have h : Keeps (K := fun _ => False) .any (fun _ _ => True) (·.cause.kind ≠ .resolve) w
      (call o f args w) :=
    call_keeps (fun _ => trivial) (fun c hc => hc.kind_ne) f .any (fun _ _ => trivial) fun name =>
      (ho name args w).mono (fun _ _ _ => ⟨trivial, .any, trivial⟩) fun _ _ h => ⟨h, .any, trivial⟩
  exact h.mono (fun _ _ _ => trivial) fun _ _ h => h.1

/-- A tame host keeps every law on functions. -/
theorem call_tame {L : StoreLaw Reserved} (ho : o.TameHost) (hL : L.OnFunctions) (f : Native)
    (hs : w.store.Obeys L) (hargs : ∀ v ∈ args, v.Obeys L w.store) :
    Keeps L Store.Spares (·.cause.Sound) w (call o f args w) := by
  refine call_keeps Store.SameScopes.spares (fun _ h => h.sound) f hs hargs fun name => ?_
  obtain ⟨P, hP⟩ := hL
  have hvalue : ∀ {t : Store}, w.store.Spares t → ∀ {v : Value}, v.IfFunction (P w.store) →
      v.Obeys L t := fun ht _ hv => L.value_grows ht.toGrows (hP .. ▸ hv)
  have hobeys : ∀ {t : Store}, w.store.Spares t → t.Functions (P w.store) → t.Obeys L := by
    refine fun {t} ht hf => hs.of_changes ht.toGrows (fun hx => .inr (hvalue ht (hf.locals hx)))
      (fun hx => .inr (hvalue ht (hf.elements hx))) (fun hx => .inr (hvalue ht (hf.fields hx)))
      fun {r name c} hx => .inl ?_
    rwa [ht.methods] at hx
  have hfunctions : w.store.Functions (P w.store) :=
    ⟨fun hx => hP .. ▸ hs.locals hx, fun hx => hP .. ▸ hs.elements hx, fun hx => hP .. ▸ hs.fields hx⟩
  have h₁ := ho.scopes name args w
  have h₂ := ho.functions name args w (P w.store) (fun v hv => hP .. ▸ hargs v hv) hfunctions
  have h₃ := ho.errors name args w
  cases h : o.host name args w with
  | ok v t =>
    rw [h] at h₁ h₂
    exact ⟨hvalue h₁ h₂.1, hobeys h₁ h₂.2, h₁⟩
  | error c t =>
    rw [h] at h₁ h₂ h₃
    exact ⟨h₃, hobeys h₁ h₂, h₁⟩

end NativeM

/-- A host whose natives do nothing is tame. -/
theorem tameHost_default : ({} : Options).TameHost :=
  ⟨fun _ _ w => Store.SameScopes.spares (.refl w.store), fun _ _ _ _ _ h => ⟨trivial, h⟩,
    fun _ _ _ => trivial⟩

theorem dynamicHost_default : ({} : Options).DynamicHost := fun _ _ _ => trivial

/-- The host is asked whether to stop without being shown the store. -/
theorem World.store_poll (w : World) (o : Options) : (w.poll o).2.store = w.store := by
  unfold World.poll
  split <;> rfl

theorem World.store_complainAll (w : World) (lines : List String) :
    (w.complainAll lines).store = w.store := by
  induction lines generalizing w with
  | nil => rfl
  | cons line lines ih => exact ih (w.complain line)

theorem World.store_reportFault (w : World) (o : Options) (f : Fault) (calls : List String) :
    (w.reportFault o f calls).store = w.store := by
  unfold World.reportFault
  dsimp only
  split
  · rw [store_complainAll]
    rfl
  · rfl

/-! ## Worlds side by side -/

/-- Worlds that differ at most in their stores, which `R` relates. -/
def World.Alike (R : Store → Store → Prop) (w w' : World) : Prop :=
  ∃ s', R w.store s' ∧ w' = { w with store := s' }

namespace World.Alike

variable {R : Store → Store → Prop} {w w' : World}

theorem store (h : w.Alike R w') : R w.store w'.store := by
  obtain ⟨s', hs, rfl⟩ := h
  exact hs

theorem journal (h : w.Alike R w') : w'.journal = w.journal := by
  obtain ⟨s', -, rfl⟩ := h
  rfl

theorem withStore (h : w.Alike R w') {s s' : Store} (hs : R s s') :
    World.Alike R { w with store := s } { w' with store := s' } := by
  obtain ⟨_, -, rfl⟩ := h
  exact ⟨s', hs, rfl⟩

theorem poll (h : w.Alike R w') (o : Options) :
    (w'.poll o).1 = (w.poll o).1 ∧ (w.poll o).2.Alike R (w'.poll o).2 := by
  obtain ⟨s', hs, rfl⟩ := h
  unfold World.poll
  cases o.cancel with
  | none => exact ⟨rfl, s', hs, rfl⟩
  | some stop => exact ⟨rfl, s', hs, rfl⟩

theorem complain (h : w.Alike R w') (line : String) :
    (w.complain line).Alike R (w'.complain line) := by
  obtain ⟨s', hs, rfl⟩ := h
  exact ⟨s', hs, rfl⟩

theorem writeDump (h : w.Alike R w') (o : Options) (line : String) :
    (w.writeDump o line).Alike R (w'.writeDump o line) := by
  obtain ⟨s', hs, rfl⟩ := h
  unfold World.writeDump
  split
  · exact ⟨s', hs, rfl⟩
  · exact ⟨s', hs, rfl⟩

theorem complainAll (h : w.Alike R w') (lines : List String) :
    (w.complainAll lines).Alike R (w'.complainAll lines) := by
  induction lines generalizing w w' with
  | nil => exact h
  | cons line lines ih => exact ih (h.complain line)

theorem reportFault (h : w.Alike R w') (o : Options) (f : Fault) (calls : List String) :
    (w.reportFault o f calls).Alike R (w'.reportFault o f calls) := by
  unfold World.reportFault
  dsimp only
  split
  · exact ((h.complain _).complain _).complainAll _
  · exact h.complain _

end World.Alike

/-! ## Stores that hold natives only -/

namespace Store

variable {s : Store} {e : EnvRef}

/-- What the definition of a native does to the environments. -/
theorem Grows.defineNative (he : s.Root e) (name : String) (params : List String) (op : NativeOp) :
    s.Grows K (s.defineNative e name params op) := by
  have hnew : s.Grows K (s.newNative name params op).2 := .of_eq rfl rfl
  exact hnew.trans (.define (s.newNative name params op).2 e (.inr (he.grows hnew).2) _)

theorem Keeps.defineNative (he : s.Root e) (name : String) (params : List String) (op : NativeOp) :
    s.Keeps K (s.defineNative e name params op) := by
  refine ⟨.defineNative he name params op, fun {a p x} hp hx => ?_⟩
  -- the environment is outermost, and so not the one that is looked at
  exact (hasLocal_define hx).resolve_right fun hc => nomatch (hc.1 ▸ he.2).symm.trans hp

theorem Obeys.defineNative (h : s.Obeys L) (he : s.Root e) (name : String) (params : List String)
    (op : NativeOp) : (s.defineNative e name params op).Obeys L := by
  have hnew : s.Grows K (s.newNative name params op).2 := .of_eq rfl rfl
  exact (h.of_changes hnew .inl .inl .inl .inl).define (.define _ e (.inr (he.grows hnew).2) _)
    (L.inert trivial)

/-- A store obeys the law, and an environment is an outermost one. -/
def Ready (L : StoreLaw K) (e : EnvRef) (s : Store) : Prop := s.Obeys L ∧ s.Root e

theorem Ready.defineNatives (ns : List (String × List String × NativeOp)) (h : s.Ready L e) :
    (ns.foldl (fun s (name, params, op) => s.defineNative e name params op) s).Ready L e := by
  induction ns generalizing s with
  | nil => exact h
  | cons n ns ih =>
    exact ih ⟨h.1.defineNative h.2 _ _ _, h.2.grows (K := K) (.defineNative h.2 _ _ _)⟩

theorem Ready.installLibrary (h : s.Ready L e) : (s.installLibrary e).Ready L e := by
  obtain ⟨hobeys, hroot⟩ := h.defineNatives natives
  have hg := Grows.define (K := K) _ e (.inr hroot.2 : ¬ K "PI" ∨ _) (.number pi)
  exact ⟨hobeys.define hg (L.inert trivial), hroot.grows hg⟩

theorem obeys_empty : ({} : Store).Obeys L := by
  refine ⟨fun {a name v} h => ?_, fun {r v} h => ?_, fun {r name v} h => ?_, fun {r name c} h => ?_⟩
  · rw [local?_of_size_le (Nat.zero_le a)] at h
    cases h
  · simp [list] at h
  · simp [instanceAt] at h
    cases h
  · simp [classAt] at h
    cases h

/-- The store that every executor starts with. -/
theorem ready_library : ((({} : Store).newEnv none).2.installLibrary 0).Ready L 0 :=
  Ready.installLibrary ⟨obeys_empty.newEnv none, by decide, rfl⟩

end Store

end Eleu
