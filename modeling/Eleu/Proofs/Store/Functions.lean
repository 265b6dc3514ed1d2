import Eleu.Proofs.Store.Growth
import Eleu.Proofs.Store.Writes

/-! # Laws for what a store holds

    A `StoreLaw` asks one thing of every value and another of every function in the method table of
    a class, which becomes a value only when it is bound to an instance. `Store.Obeys` says that
    all values and methods in a store keep the law. Every operation on stores preserves it as long
    as what it brings in keeps it, so that a law needs to be checked only where functions and
    classes are made: by function statements, class statements and `bind`. -/

namespace Eleu

variable {name : String} {p : Option ClassRef} {methods : List FunctionDecl}
  {superclass : Option Value} {e : EnvRef} {r : ClassRef} {v : Value} {s : Store} {c : Closure}

/-- The value is neither a function of the script nor a class. -/
def Value.Inert : Value → Prop
  | .callable (.closure _) | .callable (.classRef _) => False
  | _ => True

/-- `P` holds of the value if it is a function of the script. -/
def Value.IfFunction (P : Closure → Prop) : Value → Prop
  | .callable (.closure c) => P c
  | _ => True

/-- What is asked of the values in a store, and of the methods of its classes. A growing store may
    not break it. -/
structure StoreLaw (K : String → Prop) where
  value : Store → Value → Prop
  method : Store → ClassRef → Closure → Prop
  value_grows : ∀ {s t : Store} {v : Value}, s.Grows K t → value s v → value t v
  method_grows : ∀ {s t : Store} {r : ClassRef} {c : Closure},
    s.Grows K t → method s r c → method t r c
  inert : ∀ {s : Store} {v : Value}, v.Inert → value s v
  newClass : ∀ (s : Store) (name : String) (p : Option ClassRef),
    value (s.newClass name p).2 (.callable (.classRef s.classes.size))
  value_bind : ∀ {s : Store} {r : ClassRef} {c : Closure} (i : InstanceRef), method s r c →
    value (s.bind c i).2 (.callable (.closure (s.bind c i).1))

variable {K : String → Prop}

/-- The value keeps the law. -/
def Value.Obeys (L : StoreLaw K) (s : Store) (v : Value) : Prop := L.value s v

/-- All values and methods in a store keep the law. -/
structure Store.Obeys (L : StoreLaw K) (s : Store) : Prop where
  locals : ∀ {a : EnvRef} {name : String} {v : Value}, s.local? a name = some v → v.Obeys L s
  elements : ∀ {r : ListRef} {v : Value}, v ∈ s.list r → v.Obeys L s
  fields : ∀ {r : InstanceRef} {name : String} {v : Value},
    (s.instanceAt r).fields.get? name = some v → v.Obeys L s
  methods : ∀ {r : ClassRef} {name : String} {c : Closure},
    (s.classAt r).methods.get? name = some c → L.method s r c

/-- The law asks something of functions only, apart from methods. -/
def StoreLaw.OnFunctions (L : StoreLaw K) : Prop :=
  ∃ P : Store → Closure → Prop, ∀ s v, L.value s v = v.IfFunction (P s)

/-- The law that asks nothing. -/
def StoreLaw.any : StoreLaw fun _ => False :=
  ⟨fun _ _ => True, fun _ _ _ => True, fun _ _ => trivial, fun _ _ => trivial, fun _ => trivial,
    fun _ _ _ => trivial, fun _ _ => trivial⟩

/-- Every store obeys the law that asks nothing. -/
theorem Store.Obeys.any : s.Obeys .any :=
  ⟨fun _ => trivial, fun _ => trivial, fun _ => trivial, fun _ => trivial⟩

theorem Value.Obeys.grows {L : StoreLaw K} {t : Store} (h : s.Grows K t) (hv : v.Obeys L s) :
    v.Obeys L t :=
  L.value_grows h hv

theorem Value.Inert.obeys {L : StoreLaw K} (h : v.Inert) : v.Obeys L s :=
  L.inert h

namespace Store

variable {L : StoreLaw K} {s t : Store}

/-! ## What an operation leaves alone -/

theorem list_newList (s : Store) (xs : Array Value) (r : ListRef) :
    (s.newList xs).2.list r = if r = s.lists.size then xs else s.list r := by
  unfold list newList
  rw [Array.getElem?_push]
  by_cases h : r = s.lists.size
  · simp [h]
  · simp [h]

theorem mem_list_pushTo {r q : ListRef} {x : Value} (h : x ∈ (s.pushTo r v).list q) :
    x ∈ s.list q ∨ x = v := by
  unfold list pushTo at h
  rw [Array.getElem?_modify] at h
  by_cases hr : r = q
  · subst hr
    unfold list
    rcases hx : s.lists[r]? with - | xs
    · simp [hx] at h
    · simpa [hx] using h
  · exact .inl (by simpa [hr, list] using h)

theorem fields_newInstance (s : Store) (c : ClassRef) (r : InstanceRef) (name : String) :
    ((s.newInstance c).2.instanceAt r).fields.get? name = (s.instanceAt r).fields.get? name := by
  unfold instanceAt newInstance
  rw [Array.getElem?_push]
  by_cases h : r = s.instances.size
  · subst h
    simp
  · simp [h]

/-- One field of one instance is changed. -/
theorem fields_setField (s : Store) (q r : InstanceRef) (field name : String) (v : Value) :
    ((s.setField q field v).instanceAt r).fields.get? name =
      if q = r ∧ r < s.instances.size ∧ field = name then some v
      else (s.instanceAt r).fields.get? name := by
  unfold instanceAt setField
  rw [Array.getElem?_modify]
  by_cases h : q = r
  · subst h
    by_cases hs : q < s.instances.size
    · by_cases hf : field = name <;> simp [hs, hf]
    · simp [hs]
  · simp [h]

theorem fields_newClass (s : Store) (className : String) (p : Option ClassRef) (r : InstanceRef)
    (name : String) :
    ((s.newClass className p).2.instanceAt r).fields.get? name =
      (s.instanceAt r).fields.get? name := by
  unfold instanceAt newClass
  cases s.instances[r]? <;> rfl

theorem fields_setMethod (s : Store) (q : ClassRef) (r : InstanceRef) (method name : String)
    (c : Closure) :
    ((s.setMethod q method c).instanceAt r).fields.get? name =
      (s.instanceAt r).fields.get? name := by
  unfold instanceAt setMethod
  cases s.instances[r]? <;> rfl

theorem classAt_of_size_le (h : s.classes.size ≤ r) : s.classAt r = { name := "" } := by
  simp [classAt, Array.getElem?_eq_none h]

theorem classAt_newClass (s : Store) (name : String) (p : Option ClassRef) (r : ClassRef) :
    (s.newClass name p).2.classAt r =
      if r = s.classes.size then { name := name, parent := p } else s.classAt r := by
  unfold classAt newClass
  rw [Array.getElem?_push]
  split <;> rfl

theorem classAt_setMethod (s : Store) (q r : ClassRef) (method : String) (c : Closure) :
    (s.setMethod q method c).classAt r =
      if q = r ∧ r < s.classes.size then
        { s.classAt r with methods := (s.classAt r).methods.insert method c }
      else s.classAt r := by
  unfold classAt setMethod
  rw [Array.getElem?_modify]
  by_cases h : q = r <;> by_cases hs : r < s.classes.size <;> simp [h, hs]

theorem methods_newClass (s : Store) (className : String) (p : Option ClassRef) (r : ClassRef)
    (name : String) :
    ((s.newClass className p).2.classAt r).methods.get? name =
      (s.classAt r).methods.get? name := by
  rw [classAt_newClass]
  split
  · next h => rw [classAt_of_size_le (Nat.le_of_eq h.symm)]
  · rfl

/-- One method of one class is changed. -/
theorem methods_setMethod (s : Store) (q r : ClassRef) (method name : String) (c : Closure) :
    ((s.setMethod q method c).classAt r).methods.get? name =
      if q = r ∧ r < s.classes.size ∧ method = name then some c
      else (s.classAt r).methods.get? name := by
  rw [classAt_setMethod]
  by_cases h : q = r <;> by_cases hs : r < s.classes.size <;> by_cases hm : method = name <;>
    simp [h, hs, hm]

/-! ## Operations that bring in values -/

theorem Grows.newClass (s : Store) (name : String) (p : Option ClassRef) :
    s.Grows K (s.newClass name p).2 := by
  refine .of_envs_eq rfl (by simp [Store.newClass]) fun r hr => ?_
  rw [classAt_newClass, if_neg (Nat.ne_of_lt hr)]

theorem Grows.setMethod (s : Store) (r : ClassRef) (name : String) (c : Closure) :
    s.Grows K (s.setMethod r name c) := by
  refine .of_envs_eq rfl (by simp [Store.setMethod]) fun q _ => ?_
  rw [classAt_setMethod]
  split <;> rfl

/-- The two stores differ in their environments only. -/
def SameHeap (s t : Store) : Prop :=
  t.lists = s.lists ∧ t.instances = s.instances ∧ t.classes = s.classes

namespace Obeys

/-- The law goes over to a later store if what was not there before keeps it. -/
theorem of_changes (h : s.Obeys L) (hg : s.Grows K t)
    (locals : ∀ {a name v}, t.local? a name = some v → s.local? a name = some v ∨ v.Obeys L t)
    (elements : ∀ {r v}, v ∈ t.list r → v ∈ s.list r ∨ v.Obeys L t)
    (fields : ∀ {r name v}, (t.instanceAt r).fields.get? name = some v →
      (s.instanceAt r).fields.get? name = some v ∨ v.Obeys L t)
    (methods : ∀ {r name c}, (t.classAt r).methods.get? name = some c →
      (s.classAt r).methods.get? name = some c ∨ L.method t r c) : t.Obeys L := by
  refine ⟨fun hx => ?_, fun hx => ?_, fun hx => ?_, fun hx => ?_⟩
  · exact (locals hx).elim (fun hx => (h.locals hx).grows hg) id
  · exact (elements hx).elim (fun hx => (h.elements hx).grows hg) id
  · exact (fields hx).elim (fun hx => (h.fields hx).grows hg) id
  · exact (methods hx).elim (fun hx => L.method_grows hg (h.methods hx)) id

theorem of_locals (h : s.Obeys L) (hg : s.Grows K t) (hs : SameHeap s t)
    (hl : ∀ {a name v}, t.local? a name = some v → s.local? a name = some v ∨ v.Obeys L t) :
    t.Obeys L := by
  obtain ⟨hlists, hinstances, hclasses⟩ := hs
  refine h.of_changes hg hl (fun {r v} hx => ?_) (fun {r name v} hx => ?_) fun {r name c} hx => ?_
  · exact .inl (by simpa [list, hlists] using hx)
  · exact .inl (by simpa [instanceAt, hinstances, hclasses] using hx)
  · exact .inl (by simpa [classAt, hclasses] using hx)

theorem define (h : s.Obeys L) (hg : s.Grows K (s.define e name v))
    (hv : v.Obeys L (s.define e name v)) : (s.define e name v).Obeys L := by
  refine h.of_changes hg (fun hx => ?_) .inl .inl .inl
  rw [local?_define] at hx
  split at hx
  · exact .inr (Option.some.inj hx ▸ hv)
  · exact .inl hx

theorem newEnv (h : s.Obeys L) (p : Option EnvRef) : (s.newEnv p).2.Obeys L := by
  refine h.of_changes (.newEnv s p) (fun hx => ?_) .inl .inl .inl
  rw [local?_newEnv] at hx
  split at hx
  · exact nomatch hx
  · exact .inl hx

theorem newList (h : s.Obeys L) {xs : Array Value} (hxs : ∀ v ∈ xs, v.Obeys L s) :
    (s.newList xs).2.Obeys L := by
  have hg : s.Grows K (s.newList xs).2 := .of_eq rfl rfl
  refine h.of_changes hg .inl (fun {r v} hx => ?_) .inl .inl
  rw [list_newList] at hx
  split at hx
  · exact .inr ((hxs v hx).grows hg)
  · exact .inl hx

theorem pushTo (h : s.Obeys L) (r : ListRef) (hv : v.Obeys L s) : (s.pushTo r v).Obeys L := by
  have hg : s.Grows K (s.pushTo r v) := .of_eq rfl rfl
  refine h.of_changes hg .inl (fun hx => ?_) .inl .inl
  rcases mem_list_pushTo hx with hx | rfl
  · exact .inl hx
  · exact .inr (hv.grows hg)

theorem newInstance (h : s.Obeys L) (c : ClassRef) : (s.newInstance c).2.Obeys L := by
  refine h.of_changes (.of_eq rfl rfl) .inl .inl (fun hx => ?_) .inl
  rw [fields_newInstance] at hx
  exact .inl hx

theorem setField (h : s.Obeys L) (r : InstanceRef) (name : String) (hv : v.Obeys L s) :
    (s.setField r name v).Obeys L := by
  have hg : s.Grows K (s.setField r name v) := .of_eq rfl rfl
  refine h.of_changes hg .inl .inl (fun hx => ?_) .inl
  rw [fields_setField] at hx
  split at hx
  · exact .inr (Option.some.inj hx ▸ hv.grows hg)
  · exact .inl hx

theorem newClass (h : s.Obeys L) (name : String) (p : Option ClassRef) :
    (s.newClass name p).2.Obeys L := by
  refine h.of_changes (.newClass s name p) .inl .inl (fun hx => ?_) fun hx => ?_
  · rw [fields_newClass] at hx
    exact .inl hx
  · rw [methods_newClass] at hx
    exact .inl hx

theorem setMethod (h : s.Obeys L) (r : ClassRef) (name : String)
    (hc : r < s.classes.size → L.method s r c) : (s.setMethod r name c).Obeys L := by
  have hg : s.Grows K (s.setMethod r name c) := .setMethod s r name c
  refine h.of_changes hg .inl .inl (fun hx => ?_) fun {q other d} hx => ?_
  · rw [fields_setMethod] at hx
    exact .inl hx
  · rw [methods_setMethod] at hx
    split at hx
    · next hq =>
        obtain rfl : r = q := hq.1
        exact .inr (Option.some.inj hx ▸ L.method_grows hg (hc hq.2.1))
    · exact .inl hx

end Obeys

/-! ## Calls -/

theorem local?_defineAll {a : EnvRef} {x : Value} (names : List String) {vs : List Value}
    (h : (s.defineAll e names vs).local? a name = some x) :
    s.local? a name = some x ∨ (a = e ∧ name ∈ names) ∧ x ∈ vs := by
  induction names generalizing s vs with
  | nil => exact .inl h
  | cons n names ih =>
    cases vs with
    | nil => exact .inl h
    | cons v vs =>
      rcases ih h with h | h
      · rw [local?_define] at h
        split at h
        · next hc => exact .inr ⟨⟨hc.1.symm, hc.2.2 ▸ .head _⟩, by simp [← Option.some.inj h]⟩
        · exact .inl h
      · exact .inr ⟨⟨h.1.1, .tail _ h.1.2⟩, .tail _ h.2⟩

theorem sameHeap_defineAll (s : Store) (e : EnvRef) (names : List String) (vs : List Value) :
    SameHeap s (s.defineAll e names vs) := by
  induction names generalizing s vs with
  | nil => exact ⟨rfl, rfl, rfl⟩
  | cons n names ih =>
    cases vs with
    | nil => exact ⟨rfl, rfl, rfl⟩
    | cons v vs => exact ih (s.define e n v) vs

/-- The store after a call has made its environment and bound its parameters there. -/
def callStore (s : Store) (c : Closure) (args : List Value) : Store :=
  (s.newEnv (some c.env)).2.defineAll s.envs.size c.decl.params args

theorem Grows.callStore (s : Store) (c : Closure) (args : List Value) :
    s.Grows K (s.callStore c args) :=
  Grows.defineAll_new c.decl.params args (.newEnv s (some c.env)) (Nat.le_refl _)

theorem envs_size_defineAll (s : Store) (e : EnvRef) (names : List String) (vs : List Value) :
    (s.defineAll e names vs).envs.size = s.envs.size := by
  induction names generalizing s vs with
  | nil => rfl
  | cons name names ih =>
    cases vs with
    | nil => rfl
    | cons v vs => exact (ih (s.define e name v) vs).trans (envs_size_define ..)

/-- The environment of a call is there. -/
theorem callStore_present (s : Store) (c : Closure) (args : List Value) :
    s.envs.size < (s.callStore c args).envs.size := by
  show s.envs.size < ((s.newEnv (some c.env)).2.defineAll _ _ _).envs.size
  rw [envs_size_defineAll, envs_size_newEnv]
  exact Nat.lt_succ_self _

/-- The new environment has the parameters, and the others have what they had. -/
theorem parent_defineAll (s : Store) (e a : EnvRef) (names : List String) (vs : List Value) :
    ((s.defineAll e names vs).env a).parent = (s.env a).parent := by
  induction names generalizing s vs with
  | nil => rfl
  | cons n names ih =>
    cases vs with
    | nil => rfl
    | cons v vs => exact (ih _ _).trans (parent_define s e a n v)

theorem parent_callStore (s : Store) (c : Closure) (args : List Value) :
    ((s.callStore c args).env s.envs.size).parent = some c.env := by
  rw [callStore, parent_defineAll, env_newEnv, if_pos rfl]

theorem hasLocal_callStore {args : List Value} {a : EnvRef}
    (h : (s.callStore c args).hasLocal a name = true) :
    s.hasLocal a name = true ∨ a = s.envs.size ∧ name ∈ c.decl.params := by
  obtain ⟨x, hx⟩ := (hasLocal_iff _ _ _).1 h
  rcases local?_defineAll c.decl.params hx with hx | hx
  · exact .inl (hasLocal_newEnv ((hasLocal_iff _ _ _).2 ⟨x, hx⟩))
  · exact .inr hx.1

theorem Keeps.callStore (s : Store) (c : Closure) (args : List Value) :
    s.Keeps K (s.callStore c args) :=
  ⟨.callStore s c args, fun hp h => (hasLocal_callStore h).resolve_right
    fun hc => Nat.lt_irrefl _ (hc.1 ▸ parent_lt_size hp)⟩

/-- Binding arguments that obey the law. -/
theorem Obeys.callStore (h : s.Obeys L) (c : Closure) {args : List Value}
    (hargs : ∀ v ∈ args, v.Obeys L s) : (s.callStore c args).Obeys L := by
  refine h.of_locals (.callStore s c args)
    (sameHeap_defineAll (s.newEnv (some c.env)).2 _ _ args) fun hx => ?_
  rcases local?_defineAll c.decl.params hx with hx | hx
  · rw [local?_newEnv] at hx
    split at hx
    · exact nomatch hx
    · exact .inl hx
  · exact .inr ((hargs _ hx.2).grows (.callStore s c args))

/-! ## Methods -/

theorem findMethod?_newInstance (s : Store) (q r : ClassRef) (name : String) :
    (s.newInstance q).2.findMethod? r name = s.findMethod? r name := by
  have hwithin : ∀ n r, (s.newInstance q).2.methodWithin name n r = s.methodWithin name n r := by
    intro n
    induction n with
    | zero => intro r; rfl
    | succ n ih =>
      intro r
      unfold methodWithin
      rw [show (s.newInstance q).2.classAt r = s.classAt r from rfl]
      cases (s.classAt r).methods.get? name with
      | some c => rfl
      | none =>
        cases (s.classAt r).parent with
        | none => rfl
        | some p => exact ih p
  exact hwithin _ r

/-- A method that is found along the chain of superclasses stands in some method table. -/
theorem Obeys.methodWithin (h : s.Obeys L) {n : Nat} (hc : s.methodWithin name n r = some c) :
    ∃ q, L.method s q c := by
  induction n generalizing r with
  | zero => exact nomatch hc
  | succ n ih =>
    unfold Store.methodWithin at hc
    split at hc
    · next m hm => exact ⟨r, Option.some.inj hc ▸ h.methods hm⟩
    · split at hc
      · exact ih hc
      · exact nomatch hc

/-- A method that is found was declared in some class. -/
theorem Obeys.findMethod? (h : s.Obeys L) (hc : s.findMethod? r name = some c) :
    ∃ q, L.method s q c :=
  h.methodWithin hc

theorem Grows.bind (s : Store) (c : Closure) (i : InstanceRef) : s.Grows K (s.bind c i).2 :=
  (Grows.newEnv s (some c.env)).define_new (Nat.le_refl _) "this" (.object i)

theorem Keeps.bind (s : Store) (c : Closure) (i : InstanceRef) : s.Keeps K (s.bind c i).2 :=
  (Keeps.newEnv s (some c.env)).define_new (Nat.le_refl _) "this" (.object i)

/-- A scope that holds one variable keeps the law if the value does. -/
theorem Obeys.newScope (h : s.Obeys L) (e : EnvRef) (name : String) (hv : v.Obeys L s) :
    ((s.newEnv (some e)).2.define s.envs.size name v).Obeys L := by
  have hg : s.Grows K ((s.newEnv (some e)).2.define s.envs.size name v) :=
    (Grows.newEnv s (some e)).define_new (Nat.le_refl _) name v
  refine h.of_changes hg (fun hx => ?_) .inl .inl .inl
  rw [local?_define, local?_newEnv] at hx
  split at hx
  · exact .inr (Option.some.inj hx ▸ hv.grows hg)
  · split at hx
    · exact nomatch hx
    · exact .inl hx

theorem Obeys.bind (h : s.Obeys L) (c : Closure) (i : InstanceRef) : (s.bind c i).2.Obeys L :=
  h.newScope c.env "this" (L.inert (v := .object i) trivial)

end Store

/-- A member keeps the law. -/
def Member.Obeys (L : StoreLaw K) (s : Store) : Member → Prop
  | .value v => v.Obeys L s
  | .method c _ => ∃ r, L.method s r c

namespace Store

variable {L : StoreLaw K} {s t : Store}

theorem Obeys.findMember (h : s.Obeys L) {r : InstanceRef} {m : Member}
    (hm : s.findMember r name = .ok m) : m.Obeys L s := by
  unfold Store.findMember at hm
  split at hm
  · next v hv =>
      cases hm
      exact h.fields hv
  · split at hm
    · next c hc =>
        cases hm
        exact h.findMethod? hc
    · exact nomatch hm

theorem Obeys.findSuper (h : s.Obeys L) {d : Nat} {m : Member} (hm : s.findSuper e d name = .ok m) :
    m.Obeys L s := by
  obtain ⟨parent, -, hm⟩ := Outcome.except_bind_eq_ok.1 hm
  cases d with
  | zero => exact nomatch hm
  | succ d =>
    obtain ⟨this, -, hm⟩ := Outcome.except_bind_eq_ok.1 hm
    dsimp only at hm
    split at hm
    · split at hm
      · next c hc =>
          cases hm
          exact h.findMethod? hc
      · exact nomatch hm
    · exact nomatch hm

theorem Grows.take (s : Store) (m : Member) : s.Grows K (s.take m).2 := by
  cases m with
  | value v => exact .refl K s
  | method c i => exact .bind s c i

theorem Keeps.take (s : Store) (m : Member) : s.Keeps K (s.take m).2 := by
  cases m with
  | value v => exact .refl K s
  | method c i => exact .bind s c i

theorem Obeys.take (h : s.Obeys L) (m : Member) : (s.take m).2.Obeys L := by
  cases m with
  | value v => exact h
  | method c i => exact h.bind c i

theorem Obeys.value_take {m : Member} (hm : m.Obeys L s) : (s.take m).1.Obeys L (s.take m).2 := by
  cases m with
  | value v => exact hm
  | method c i =>
    obtain ⟨r, hc⟩ := hm
    exact L.value_bind i hc

/-! ## Class statements -/

/-- The environment of the methods, which does not depend on whether the class is a new one. -/
theorem methodScope_fst {s₁ : Store} (h : s₁.envs = s.envs) (e : EnvRef) (p : Option ClassRef) :
    (s₁.methodScope e p).1 = (s.methodScope e p).1 := by
  cases p with
  | none => rfl
  | some p => exact congrArg Array.size h

/-- The scope that the methods of a class statement close over has `super` if there is a superclass. -/
theorem methodScope_super (s : Store) (e : EnvRef) (p : ClassRef) :
    (s.methodScope e (some p)).2.local? (s.methodScope e (some p)).1 "super"
        = some (.callable (.classRef p))
      ∧ (s.methodScope e (some p)).2.parent? (s.methodScope e (some p)).1 = some e := by
  refine ⟨?_, ?_⟩
  · show ((s.newEnv (some e)).2.define s.envs.size "super" _).local? s.envs.size "super" = _
    rw [local?_define, if_pos ⟨rfl, by simp, rfl⟩]
  · show (((s.newEnv (some e)).2.define s.envs.size "super" _).env s.envs.size).parent = _
    rw [parent_define, env_newEnv, if_pos rfl]

/-- A method of a class statement as a function. -/
def methodOf (e : EnvRef) (d : FunctionDecl) : Closure :=
  { decl := d, env := e, isInit := d.name == "init" }

theorem addMethods_define (s : Store) (r : ClassRef) (e a : EnvRef) (name : String) (v : Value)
    (methods : List FunctionDecl) :
    (s.addMethods r e methods).define a name v = (s.define a name v).addMethods r e methods := by
  induction methods generalizing s with
  | nil => rfl
  | cons d ds ih => exact ih _

theorem addMethods_envs (s : Store) (r : ClassRef) (e : EnvRef) (methods : List FunctionDecl) :
    (s.addMethods r e methods).envs = s.envs := by
  induction methods generalizing s with
  | nil => rfl
  | cons d ds ih => exact ih _

/-- The class is a new one, or the one of that name is opened again. -/
theorem openClass_eq_ok (h : openClass e name p s = .ok r t) :
    s.local? e name = none ∧ r = s.classes.size ∧ t = (s.newClass name p).2
      ∨ s.local? e name = some (.callable (.classRef r)) ∧ (s.classAt r).parent = p ∧ t = s := by
  have hends := s.openClass_ends e name p
  rw [h] at hends
  exact hends

theorem openClass_superclass (h : openClass e name p s = .ok r t) : t.superclass? r = p := by
  rcases openClass_eq_ok h with ⟨-, rfl, rfl⟩ | ⟨-, hp, rfl⟩
  · rw [superclass?, classAt_newClass, if_pos rfl]
  · exact hp

theorem openClass_envs {s₁ : Store} (h : openClass e name p s = .ok r s₁) : s₁.envs = s.envs := by
  rcases openClass_eq_ok h with ⟨-, -, rfl⟩ | ⟨-, -, rfl⟩ <;> rfl

/-- A class statement that succeeds has found or made its class, bound `super` if there is a
    superclass, bound the name, and added the methods. -/
theorem declareClass_eq_ok (h : declareClass e name superclass methods s = .ok () t) :
    ∃ p r s₁, s.superclassOf superclass = .ok p ∧ openClass e name p s = .ok r s₁ ∧
      t = ((s₁.methodScope e p).2.define e name (.callable (.classRef r))).addMethods r
        (s₁.methodScope e p).1 methods := by
  rw [declareClass_apply] at h
  cases hp : s.superclassOf superclass with
  | error c =>
    rw [hp] at h
    cases h
  | ok p =>
    rw [hp] at h
    dsimp only at h
    cases hr : openClass e name p s with
    | error c s₁ =>
      rw [hr] at h
      cases h
    | ok r s₁ =>
      rw [hr] at h
      cases h
      exact ⟨p, r, s₁, rfl, hr, addMethods_define ..⟩

theorem superclassOf_eq_ok (h : s.superclassOf superclass = .ok p) :
    superclass = p.map fun q => .callable (.classRef q) := by
  unfold superclassOf at h
  split at h
  · cases h
    rfl
  · cases h
    rfl
  · exact nomatch h

theorem Grows.openClass (h : openClass e name p s = .ok r t) : s.Grows K t := by
  rcases openClass_eq_ok h with ⟨-, -, rfl⟩ | ⟨-, -, rfl⟩
  · exact .newClass s name p
  · exact .refl K _

theorem Grows.addMethods (s : Store) (r : ClassRef) (e : EnvRef) (methods : List FunctionDecl) :
    s.Grows K (s.addMethods r e methods) := by
  induction methods generalizing s with
  | nil => exact .refl K s
  | cons d ds ih => exact (Grows.setMethod s r d.name (methodOf e d)).trans (ih _)

theorem Grows.methodScope (s : Store) (e : EnvRef) (p : Option ClassRef) :
    s.Grows K (s.methodScope e p).2 := by
  cases p with
  | none => exact .refl K s
  | some p => exact (Grows.newEnv s (some e)).define_new (Nat.le_refl _) "super" _

/-- A class statement makes the store grow. -/
theorem Grows.declareClass (hn : ¬ K name) (h : declareClass e name superclass methods s = .ok ()
    t) : s.Grows K t := by
  obtain ⟨p, r, s₁, -, hr, rfl⟩ := declareClass_eq_ok h
  have h₂ : s.Grows K (s₁.methodScope e p).2 := (Grows.openClass hr).trans (.methodScope s₁ e p)
  exact (h₂.trans (.define _ e (.inl hn) _)).trans (.addMethods ..)

/-- The scope of the methods binds nothing in the environments that are there. -/
theorem hasLocal_methodScope {a : EnvRef} {x : String} (ha : a < s.envs.size)
    (h : (s.methodScope e p).2.hasLocal a x = true) : s.hasLocal a x = true := by
  cases p with
  | none => exact h
  | some p => exact hasLocal_newEnv ((hasLocal_define h).resolve_right fun hc => Nat.ne_of_lt ha hc.1)

/-- In the environments that are there, a class statement binds no name but its own. -/
theorem hasLocal_declareClass {a : EnvRef} {other : String}
    (h : declareClass e name superclass methods s = .ok () t) (ha : a < s.envs.size)
    (ht : t.hasLocal a other = true) : s.hasLocal a other = true ∨ a = e ∧ other = name := by
  obtain ⟨p, r, s₁, -, hr, rfl⟩ := declareClass_eq_ok h
  have henvs := openClass_envs hr
  rw [hasLocal, env, addMethods_envs] at ht
  refine (hasLocal_define ht).imp_left fun ht => ?_
  have hs : s₁.hasLocal a other = true := hasLocal_methodScope (henvs ▸ ha) ht
  rwa [hasLocal, env, henvs] at hs

theorem Obeys.methodScope (h : s.Obeys L) (e : EnvRef)
    (hp : ∀ q ∈ p, Value.Obeys L s (.callable (.classRef q))) : (s.methodScope e p).2.Obeys L := by
  cases p with
  | none => exact h
  | some p => exact h.newScope e "super" (hp p rfl)

theorem Obeys.openClass (h : s.Obeys L) {s₁ : Store} (hr : openClass e name p s = .ok r s₁) :
    s₁.Obeys L ∧ Value.Obeys L s₁ (.callable (.classRef r)) := by
  rcases openClass_eq_ok hr with ⟨-, rfl, rfl⟩ | ⟨hl, -, rfl⟩
  · exact ⟨h.newClass name p, L.newClass s name p⟩
  · exact ⟨h, h.locals hl⟩

theorem Obeys.addMethods (h : s.Obeys L) (r : ClassRef) (e : EnvRef)
    (hm : r < s.classes.size → ∀ d ∈ methods, L.method s r (methodOf e d)) :
    (s.addMethods r e methods).Obeys L := by
  induction methods generalizing s with
  | nil => exact h
  | cons d ds ih =>
    refine ih (h.setMethod r d.name fun hr => hm hr d (by simp)) fun hr d' hd' => ?_
    have hr : r < s.classes.size := by simpa [Store.setMethod] using hr
    exact L.method_grows (.setMethod s r d.name (methodOf e d)) (hm hr d' (by simp [hd']))

/-- A class statement keeps the law if its methods do where they close over the new scope. -/
theorem Obeys.declareClass (h : s.Obeys L) (hn : ¬ K name) (hv : ∀ v ∈ superclass, v.Obeys L s)
    (hd : declareClass e name superclass methods s = .ok () t)
    (hm : ∀ p r s₁, s.superclassOf superclass = .ok p → Store.openClass e name p s = .ok r s₁ →
      r < s₁.classes.size → ∀ d ∈ methods, L.method ((s₁.methodScope e p).2.define e name (.callable (.classRef r))) r
        (methodOf (s₁.methodScope e p).1 d)) : t.Obeys L := by
  obtain ⟨p, r, s₁, hp, hr, rfl⟩ := declareClass_eq_ok hd
  refine Obeys.addMethods ?_ r _ fun hlt => hm p r s₁ hp hr ?_
  · obtain ⟨h₁, hclass⟩ := h.openClass hr
    have hsuper : ∀ q ∈ p, Value.Obeys L s₁ (.callable (.classRef q)) := by
      rintro q ⟨⟩
      exact (hv _ (superclassOf_eq_ok hp)).grows (.openClass hr)
    have hg := Grows.define (K := K) (s₁.methodScope e p).2 e (.inl hn) (.callable (.classRef r))
    exact (h₁.methodScope e hsuper).define hg ((hclass.grows (.methodScope s₁ e p)).grows hg)
  · cases p <;> exact hlt

end Store

end Eleu
