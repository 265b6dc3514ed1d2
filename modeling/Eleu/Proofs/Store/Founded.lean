import Eleu.Proofs.Library.Host
import Eleu.Proofs.Tree.Origin

/-! # Chains of parents and of superclasses

    Environments hold functions, classes and instances that refer back to environments, and the
    variable that holds a class can be given any other value. The two chains that are followed,
    from a scope to the scope around it and from a class to its superclass, have no cycles all the
    same: a new environment or class refers only to what was there before it, and the reference is
    never changed (`Store.Extends`). For this all references that values hold must be to something
    that is there (`Store.Closed`). `Store.Evolves` puts the two together; every operation on stores
    is shown to be such a change.

    Along with this goes where functions come from: `D` has the declarations of all functions that
    values and classes hold. -/

namespace Eleu

/-- The function is one of those in `D`, and closes over an environment that is there. -/
def Closure.Present (D : FunctionDecl → Prop) (s : Store) (c : Closure) : Prop :=
  D c.decl ∧ c.env < s.envs.size

/-- The value refers to environments and classes that are there, and to no function but those in
    `D`. -/
def Value.Present (D : FunctionDecl → Prop) (s : Store) : Value → Prop
  | .callable (.closure c) => c.Present D s
  | .callable (.classRef r) => r < s.classes.size
  | _ => True

variable {D : FunctionDecl → Prop}

theorem Value.Inert.present {s : Store} {v : Value} (h : v.Inert) : v.Present D s := by
  match v, h with
  | .nil, _ | .bool _, _ | .number _, _ | .string _, _ | .list _, _ | .object _, _
  | .callable (.native _), _ => trivial

namespace Store

variable {s t u : Store}

/-! ## What is there stays there -/

/-- `t` came after `s`: the environments and classes of `s` are there, and their parents and
    superclasses are the ones they had. -/
structure Extends (s t : Store) : Prop where
  envs : s.envs.size ≤ t.envs.size
  classes : s.classes.size ≤ t.classes.size
  parent : ∀ e, e < s.envs.size → t.parent? e = s.parent? e
  superclass : ∀ r, r < s.classes.size → t.superclass? r = s.superclass? r

namespace Extends

theorem refl (s : Store) : s.Extends s :=
  ⟨Nat.le_refl _, Nat.le_refl _, fun _ _ => rfl, fun _ _ => rfl⟩

theorem trans (h : s.Extends t) (g : t.Extends u) : s.Extends u := by
  refine ⟨Nat.le_trans h.envs g.envs, Nat.le_trans h.classes g.classes, fun e he => ?_, fun r hr => ?_⟩
  · rw [g.parent e (Nat.lt_of_lt_of_le he h.envs), h.parent e he]
  · rw [g.superclass r (Nat.lt_of_lt_of_le hr h.classes), h.superclass r hr]

theorem closure (h : s.Extends t) {c : Closure} (hc : c.Present D s) : c.Present D t :=
  ⟨hc.1, Nat.lt_of_lt_of_le hc.2 h.envs⟩

theorem present (h : s.Extends t) {v : Value} (hv : v.Present D s) : v.Present D t := by
  match v, hv with
  | .callable (.closure c), hv => exact h.closure hv
  | .callable (.classRef r), hv => exact Nat.lt_of_lt_of_le hv h.classes
  | .nil, _ | .bool _, _ | .number _, _ | .string _, _ | .list _, _ | .object _, _
  | .callable (.native _), _ => trivial

end Extends

theorem Grows.extends (h : s.Grows (fun _ => False) t) : s.Extends t :=
  ⟨h.size, h.classes, h.parent, h.superclass⟩

/-- The new scope of a bound method is there. -/
theorem bind_present (s : Store) (c : Closure) (i : InstanceRef) :
    (s.bind c i).1.env < (s.bind c i).2.envs.size := by
  show s.envs.size < ((s.newEnv (some c.env)).2.define _ _ _).envs.size
  rw [envs_size_define, envs_size_newEnv]
  exact Nat.lt_succ_self _

/-! ## References lead somewhere, and chains lead downwards -/

/-- All references that values and methods hold are to something that is there. -/
structure Closed (D : FunctionDecl → Prop) (s : Store) : Prop where
  locals : ∀ {e : EnvRef} {name : String} {v : Value}, s.local? e name = some v → v.Present D s
  elements : ∀ {r : ListRef} {v : Value}, v ∈ s.list r → v.Present D s
  fields : ∀ {r : InstanceRef} {name : String} {v : Value},
    (s.instanceAt r).fields.get? name = some v → v.Present D s
  methods : ∀ {r : ClassRef} {name : String} {c : Closure},
    (s.classAt r).methods.get? name = some c → c.Present D s

/-- That references are to something that is there, as a law. -/
def presence (D : FunctionDecl → Prop) : StoreLaw fun _ => False where
  value s v := v.Present D s
  method s _ c := c.Present D s
  value_grows hg := hg.extends.present
  method_grows hg := hg.extends.closure
  inert := Value.Inert.present
  newClass s name p := by simp [Value.Present, Store.newClass]
  value_bind {s _ c} i hc := ⟨hc.1, s.bind_present c i⟩

theorem closed_iff : s.Closed D ↔ s.Obeys (presence D) :=
  ⟨fun h => ⟨h.locals, h.elements, h.fields, h.methods⟩,
    fun h => ⟨h.locals, h.elements, h.fields, h.methods⟩⟩

/-- A store in which, besides, every parent and every superclass came before what refers to it. -/
structure Founded (D : FunctionDecl → Prop) (s : Store) : Prop extends Closed D s where
  older : ∀ {e p : EnvRef}, s.parent? e = some p → p < e
  olderClass : ∀ {r p : ClassRef}, s.superclass? r = some p → p < r

theorem Founded.obeys (h : s.Founded D) : s.Obeys (presence D) := closed_iff.1 h.toClosed

/-- What an operation comes to. -/
structure Evolves (D : FunctionDecl → Prop) (s t : Store) : Prop where
  «extends» : s.Extends t
  founded : t.Founded D

namespace Evolves

theorem refl (h : s.Founded D) : s.Evolves D s := ⟨.refl s, h⟩

theorem trans (h : s.Evolves D t) (g : t.Evolves D u) : s.Evolves D u :=
  ⟨h.extends.trans g.extends, g.founded⟩

/-- New environments and classes refer to older ones. -/
theorem of_obeys (h : s.Founded D) (hg : s.Grows (fun _ => False) t) (ht : t.Obeys (presence D))
    (older : ∀ {e p}, s.envs.size ≤ e → t.parent? e = some p → p < e)
    (olderClass : ∀ {r p}, s.classes.size ≤ r → t.superclass? r = some p → p < r) :
    s.Evolves D t := by
  refine ⟨hg.extends, closed_iff.2 ht, fun {e p} hp => ?_, fun {r p} hp => ?_⟩
  · rcases Nat.lt_or_ge e s.envs.size with he | he
    · exact h.older ((hg.extends.parent e he).symm.trans hp)
    · exact older he hp
  · rcases Nat.lt_or_ge r s.classes.size with hr | hr
    · exact h.olderClass ((hg.extends.superclass r hr).symm.trans hp)
    · exact olderClass hr hp

/-- No environments and no classes are made. -/
theorem of_sizes (h : s.Founded D) (hg : s.Grows (fun _ => False) t) (ht : t.Obeys (presence D))
    (henvs : t.envs.size = s.envs.size) (hclasses : t.classes.size = s.classes.size) :
    s.Evolves D t := by
  refine of_obeys h hg ht (fun he hp => ?_) fun hr hp => ?_
  · exact absurd (henvs ▸ parent_lt_size hp) (Nat.not_lt_of_ge he)
  · rw [superclass?, classAt_of_size_le (hclasses ▸ hr)] at hp
    cases hp

theorem of_sameScopes (h : s.Founded D) (hs : s.SameScopes t) (ht : t.Closed D) : s.Evolves D t :=
  of_sizes h hs.grows (closed_iff.1 ht) (congrArg Array.size hs.1) (congrArg Array.size hs.2)

/-! ### Environments -/

theorem define (h : s.Founded D) (e : EnvRef) (name : String) {v : Value} (hv : v.Present D s) :
    s.Evolves D (s.define e name v) := by
  have hg : s.Grows (fun _ => False) (s.define e name v) := .define s e (.inl id) v
  exact of_sizes h hg (h.obeys.define hg (hg.extends.present hv)) (by simp) rfl

theorem newEnv (h : s.Founded D) {p : EnvRef} (hp : p < s.envs.size) :
    s.Evolves D (s.newEnv (some p)).2 := by
  refine of_obeys h (.newEnv s (some p)) (h.obeys.newEnv _) (fun {e q} _ hq => ?_)
    fun _ hq => h.olderClass hq
  unfold parent? at hq
  rw [env_newEnv] at hq
  split at hq
  · next he =>
      cases hq
      exact he ▸ hp
  · exact h.older hq

theorem defineAll (h : s.Founded D) (e : EnvRef) (names : List String) {vs : List Value}
    (hvs : ∀ v ∈ vs, v.Present D s) : s.Evolves D (s.defineAll e names vs) := by
  induction names generalizing s vs with
  | nil => exact .refl h
  | cons name names ih =>
    cases vs with
    | nil => exact .refl h
    | cons v vs =>
      have hd := define h e name (hvs v (.head _))
      exact hd.trans (ih hd.founded fun x hx => hd.extends.present (hvs x (.tail _ hx)))

/-- The environment of a call. -/
theorem callStore (h : s.Founded D) {c : Closure} (hc : c.Present D s) {args : List Value}
    (hargs : ∀ v ∈ args, v.Present D s) : s.Evolves D (s.callStore c args) := by
  have hn := newEnv h hc.2
  exact hn.trans (defineAll hn.founded _ _ fun v hv => hn.extends.present (hargs v hv))

theorem bind (h : s.Founded D) {c : Closure} (hc : c.Present D s) (i : InstanceRef) :
    s.Evolves D (s.bind c i).2 := by
  have hn := newEnv h hc.2
  exact hn.trans (define (v := .object i) hn.founded s.envs.size "this" trivial)

/-! ### Lists and instances -/

theorem newList (h : s.Founded D) {xs : Array Value} (hxs : ∀ v ∈ xs, v.Present D s) :
    s.Evolves D (s.newList xs).2 :=
  of_sizes h (.of_eq rfl rfl) (h.obeys.newList hxs) rfl rfl

theorem newInstance (h : s.Founded D) (c : ClassRef) : s.Evolves D (s.newInstance c).2 :=
  of_sizes h (.of_eq rfl rfl) (h.obeys.newInstance c) rfl rfl

theorem setField (h : s.Founded D) (r : InstanceRef) (name : String) {v : Value} (hv : v.Present D s) :
    s.Evolves D (s.setField r name v) :=
  of_sizes h (.of_eq rfl rfl) (h.obeys.setField r name hv) rfl rfl

end Evolves

/-! ### Classes -/

theorem superclass?_newClass (s : Store) (name : String) (p : Option ClassRef) (r : ClassRef) :
    (s.newClass name p).2.superclass? r = if r = s.classes.size then p else s.superclass? r := by
  unfold superclass?
  rw [classAt_newClass]
  split <;> rfl

theorem superclass?_addMethods (s : Store) (q r : ClassRef) (e : EnvRef) (methods : List FunctionDecl) :
    (s.addMethods q e methods).superclass? r = s.superclass? r := by
  induction methods generalizing s with
  | nil => rfl
  | cons d ds ih =>
    refine (ih _).trans ?_
    unfold superclass?
    rw [classAt_setMethod]
    split <;> rfl

/-- What a class statement does to the scopes and to the classes, its methods apart. -/
theorem declareClass_chains {e : EnvRef} {name : String} {superclass : Option Value}
    {methods : List FunctionDecl} (hd : Store.declareClass e name superclass methods s = .ok () t) :
    (∀ a q, t.parent? a = some q → s.parent? a = some q ∨ a = s.envs.size ∧ q = e)
      ∧ ∀ r q, t.superclass? r = some q → s.superclass? r = some q
        ∨ r = s.classes.size ∧ superclass = some (.callable (.classRef q)) := by
  obtain ⟨p, r, s₁, hp, hr, rfl⟩ := declareClass_eq_ok hd
  have hparent : ∀ a, (s₁.env a).parent = s.parent? a := fun a => by
    rw [env, openClass_envs hr, parent?, env]
  refine ⟨fun a q hq => ?_, fun c q hq => ?_⟩
  · rw [parent?, env, addMethods_envs, ← env, parent_define] at hq
    cases p with
    | none => exact .inl ((hparent a).symm.trans hq)
    | some p =>
      rw [methodScope, parent_define, env_newEnv] at hq
      split at hq
      · next ha => exact .inr ⟨ha.trans (congrArg Array.size (openClass_envs hr)), (Option.some.inj hq).symm⟩
      · exact .inl ((hparent a).symm.trans hq)
  · have hq : s₁.superclass? c = some q := by
      rw [superclass?_addMethods] at hq
      cases p <;> exact hq
    rcases openClass_eq_ok hr with ⟨-, -, rfl⟩ | ⟨-, -, rfl⟩
    · rw [superclass?_newClass] at hq
      split at hq
      · next hc =>
          cases hq
          exact .inr ⟨hc, superclassOf_eq_ok hp⟩
      · exact .inl hq
    · exact .inl hq

theorem Evolves.declareClass (h : s.Founded D) {e : EnvRef} (he : e < s.envs.size) {name : String}
    {superclass : Option Value} (hv : ∀ v ∈ superclass, v.Present D s) {methods : List FunctionDecl}
    (hms : ∀ d ∈ methods, D d) (hd : Store.declareClass e name superclass methods s = .ok () t) :
    s.Evolves D t := by
  obtain ⟨hparents, hsuperclasses⟩ := declareClass_chains hd
  refine of_obeys h (.declareClass id hd) ?_ (fun {a q} _ hq => ?_) fun {r q} _ hq => ?_
  · refine h.obeys.declareClass id hv hd fun p r s₁ _ hr _ d hd' => ⟨hms d hd', ?_⟩
    show (s₁.methodScope e p).1 < ((s₁.methodScope e p).2.define e name _).envs.size
    rw [envs_size_define]
    cases p with
    | none => exact Nat.lt_of_lt_of_le he (Nat.le_of_eq (congrArg Array.size (openClass_envs hr).symm))
    | some q => simp [Store.methodScope]
  · rcases hparents a q hq with hq | ⟨rfl, rfl⟩
    · exact h.older hq
    · exact he
  · rcases hsuperclasses r q hq with hq | ⟨rfl, hsuper⟩
    · exact h.olderClass hq
    · exact hv _ hsuper

/-! ## What is found is there -/

namespace Founded

theorem getAt (h : s.Founded D) (e : EnvRef) (name : String) (d : Nat) :
    Yields (s.getAt e name d) (·.Present D s) Cause.Dynamic :=
  h.obeys.getAt e name d

theorem get (h : s.Founded D) (e : EnvRef) (name : String) :
    Yields (s.get e name) (·.Present D s) Cause.Dynamic :=
  h.obeys.get e name

theorem findMethod? (h : s.Founded D) {name : String} {r : ClassRef} {c : Closure}
    (hc : s.findMethod? r name = some c) : c.Present D s :=
  (h.obeys.findMethod? hc).elim fun _ h => h

end Founded

theorem Evolves.take (h : s.Founded D) {m : Member} (hm : m.Obeys (presence D) s) :
    s.Evolves D (s.take m).2 ∧ (s.take m).1.Present D (s.take m).2 := by
  refine ⟨?_, Obeys.value_take hm⟩
  cases m with
  | value v => exact .refl h
  | method c i =>
    obtain ⟨r, hc⟩ := hm
    exact .bind h hc i

end Store

/-! ## Natives -/

namespace NativeM

/-- Outcomes of a native that was given `args` in the world `w`: what is there stays there, and
    references are handed out and kept only to what is there. -/
def Honest (D : FunctionDecl → Prop) (args : List Value) (w : World)
    (r : EStateM.Result Fault World Value) : Prop :=
  Ends r
    (fun v t => w.store.Grows (fun _ => False) t.store ∧
      ((∀ a ∈ args, a.Present D w.store) → w.store.Founded D → v.Present D t.store ∧ t.store.Founded D))
    fun _ t => w.store.Grows (fun _ => False) t.store ∧
      ((∀ a ∈ args, a.Present D w.store) → w.store.Founded D → t.store.Founded D)

end NativeM

/-- All natives of the host are honest. -/
def Options.HonestHost (o : Options) : Prop :=
  ∀ D name args w, NativeM.Honest D args w (o.host name args w)

/-- The host without natives. -/
theorem honest_default : ({} : Options).HonestHost :=
  fun _ _ _ _ => ⟨.refl _ _, fun _ hs => ⟨trivial, hs⟩⟩

/-- Where the natives of the host say that something went wrong there is a place of the origin. -/
def Origin.Admits (O : Origin) (o : Options) : Prop :=
  ∀ name args w, Ends (o.host name args w) (fun _ _ => True) fun f _ => f.From O

theorem Origin.all_admits (o : Options) : Origin.all.Admits o := by
  intro name args w
  cases o.host name args w with
  | ok v t => trivial
  | error f t => exact f.from_all

namespace NativeM

variable {w : World} {args : List Value}

/-- The errors of all natives have places of the origin, if those of the host's have. -/
theorem call_from {O : Origin} {o : Options} (ha : O.Admits o) (f : Native) (args : List Value)
    (w : World) : Ends (call o f args w) (fun _ _ => True) fun f _ => f.From O := by
  have h : Keeps (K := fun _ => False) .any (fun _ _ => True) (·.From O) w (call o f args w) :=
    call_keeps (fun _ => trivial) (fun c _ => Fault.from_unplaced c) f .any (fun _ _ => trivial)
      fun name => (ha name args w).mono (fun _ _ _ => ⟨trivial, .any, trivial⟩)
        fun _ _ h => ⟨h, .any, trivial⟩
  exact h.mono (fun _ _ _ => trivial) fun _ _ h => h.1

/-- What is there stays there, whichever native is called. -/
theorem call_grows {o : Options} (ho : o.HonestHost) (f : Native) (args : List Value) (w : World) :
    w.store.Grows (fun _ => False) (Outcome.state (call o f args w)).store :=
  call_scopes (G := Store.Grows fun _ => False) Store.SameScopes.grows
    (fun name => Ends.state.1 ((ho (fun _ => True) name args w).mono (fun _ _ h => h.1) fun _ _ h => h.1)) f

/-- All natives are honest, if those of the host are. -/
theorem call_honest {o : Options} (ho : o.HonestHost) (f : Native) :
    Honest D args w (call o f args w) := by
  have hgrows := call_grows ho f args w
  have hkeeps : (∀ a ∈ args, a.Present D w.store) → w.store.Founded D →
      Keeps (Store.presence D) (fun s t => s.Founded D → t.Closed D → t.Founded D) (fun _ => True) w
        (call o f args w) := fun hargs hs => by
    refine call_keeps (fun h hs ht => (Store.Evolves.of_sameScopes hs h ht).founded) (fun _ _ => trivial) f
      hs.obeys hargs fun name => ?_
    have h := ho D name args w
    cases hr : o.host name args w with
    | ok v t =>
      rw [hr] at h
      obtain ⟨hv, ht⟩ := h.2 hargs hs
      exact ⟨hv, ht.obeys, fun _ _ => ht⟩
    | error c t =>
      rw [hr] at h
      have ht := h.2 hargs hs
      exact ⟨trivial, ht.obeys, fun _ _ => ht⟩
  cases hr : call o f args w with
  | ok v t =>
    rw [hr] at hgrows hkeeps
    refine ⟨hgrows, fun hargs hs => ?_⟩
    obtain ⟨hv, hobeys, hfounded⟩ := hkeeps hargs hs
    exact ⟨hv, hfounded hs (Store.closed_iff.2 hobeys)⟩
  | error c t =>
    rw [hr] at hgrows hkeeps
    refine ⟨hgrows, fun hargs hs => ?_⟩
    obtain ⟨-, hobeys, hfounded⟩ := hkeeps hargs hs
    exact hfounded hs (Store.closed_iff.2 hobeys)

/-- In a founded store, an honest native lets the store evolve. -/
theorem Honest.evolves {r : EStateM.Result Fault World Value} (h : Honest D args w r)
    (hs : w.store.Founded D) (hargs : ∀ v ∈ args, v.Present D w.store) :
    Ends r (fun v t => w.store.Evolves D t.store ∧ v.Present D t.store) fun _ t => w.store.Evolves D t.store := by
  cases r with
  | ok v t =>
    obtain ⟨hv, ht⟩ := h.2 hargs hs
    exact ⟨⟨h.1.extends, ht⟩, hv⟩
  | error c t => exact ⟨h.1.extends, h.2 hargs hs⟩

end NativeM

/-! ## Executors before their first program -/

namespace Store

variable {s : Store}

theorem Evolves.defineNative (h : s.Founded D) (e : EnvRef) (name : String) (params : List String)
    (op : NativeOp) : s.Evolves D (s.defineNative e name params op) := by
  have hn : s.Evolves D (s.newNative name params op).2 :=
    .of_sameScopes h ⟨rfl, rfl⟩ ⟨h.locals, h.elements, h.fields, h.methods⟩
  exact hn.trans (.define hn.founded e name trivial)

/-- The first environment. -/
theorem founded_first : (({} : Store).newEnv none).2.Founded D := by
  refine ⟨closed_iff.2 (obeys_empty.newEnv none), fun {e p} hp => ?_, fun {r p} hp => nomatch hp⟩
  unfold parent? at hp
  rw [env_newEnv] at hp
  split at hp
  · exact nomatch hp
  · exact nomatch hp

/-- The library is put into it. -/
theorem Evolves.installLibrary (h : s.Founded D) (e : EnvRef) : s.Evolves D (s.installLibrary e) := by
  have hnatives : ∀ (ns : List (String × List String × NativeOp)) {s : Store}, s.Founded D →
      s.Evolves D (ns.foldl (fun s n => s.defineNative e n.1 n.2.1 n.2.2) s) := by
    intro ns
    induction ns with
    | nil => exact fun h => .refl h
    | cons n ns ih =>
      intro s h
      have hn := defineNative h e n.1 n.2.1 n.2.2
      exact hn.trans (ih hn.founded)
  have hall := hnatives natives h
  exact hall.trans (define (v := .number pi) hall.founded e "PI" trivial)

/-- What every executor starts with. -/
theorem library_founded : ((({} : Store).newEnv none).2.installLibrary 0).Founded D
    ∧ 0 < ((({} : Store).newEnv none).2.installLibrary 0).envs.size := by
  have h := Evolves.installLibrary (D := D) founded_first 0
  exact ⟨h.founded, Nat.lt_of_lt_of_le Nat.one_pos h.extends.envs⟩

end Store

end Eleu
