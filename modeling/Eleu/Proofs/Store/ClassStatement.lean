import Eleu.Proofs.Store.Search

/-! # What a class statement does to the store

    A class statement that succeeds changes one variable and the method table of one class
    (`Store.Declares`). Method lookup follows: it is a search along the chain of superclasses in the
    tables as they are now, so that instances and subclasses which were there before see the methods
    that a class gets when it is reopened, and nothing else changes for them.

    Chains are only asked to be well-founded here. -/

namespace Eleu

namespace Store

variable {s t : Store} {e : EnvRef} {name : String} {methods : List FunctionDecl}

/-! ## Chains of superclasses -/

/-- Every superclass is there, and no chain of superclasses goes on for ever. -/
structure ClassChains (s : Store) : Prop where
  there : ∀ {r p}, s.superclass? r = some p → p < s.classes.size
  wellFounded : WellFounded fun p r => s.superclass? r = some p

namespace ClassChains

/-- Method lookup is the search along the chain. -/
theorem findMethod?_search (h : s.ClassChains) (r : ClassRef) (name : String) :
    Search s.superclass? (fun c => (s.classAt c).methods.get? name) r (s.findMethod? r name) :=
  Store.findMethod?_search h.wellFounded r name

/-- Chains still end where no class has got a superclass but one of the classes that were there. -/
theorem «extends» (h : s.ClassChains) (hx : s.Extends t)
    (hold : ∀ {r p}, t.superclass? r = some p → p < s.classes.size) : t.ClassChains := by
  have hacc : ∀ r, r < s.classes.size → Acc (fun q r => t.superclass? r = some q) r := by
    intro r
    induction r using h.wellFounded.induction with
    | _ r ih => exact fun hr => ⟨r, fun q hq => ih q (hx.superclass r hr ▸ hq) (hold hq)⟩
  exact ⟨fun hp => Nat.lt_of_lt_of_le (hold hp) hx.classes, ⟨fun r => ⟨r, fun q hq => hacc q (hold hq)⟩⟩⟩

end ClassChains

/-- Where every superclass came before the class, chains end. -/
theorem Founded.classChains {D : FunctionDecl → Prop} (h : s.Founded D) : s.ClassChains :=
  ⟨fun hp => (h.olderClass hp).trans (superclass?_lt hp),
    Subrelation.wf (fun hp => h.olderClass hp) Nat.lt_wfRel.wf⟩

/-! ## The methods of a class statement -/

/-- The last declaration of `m` among methods. -/
def lastNamed (m : String) (methods : List FunctionDecl) : Option FunctionDecl :=
  methods.reverse.find? (·.name == m)

theorem lastNamed_cons (m : String) (d : FunctionDecl) (ds : List FunctionDecl) :
    lastNamed m (d :: ds) = (lastNamed m ds).or (if d.name = m then some d else none) := by
  unfold lastNamed
  rw [List.reverse_cons, List.find?_append]
  by_cases h : d.name = m <;> simp [h]

/-- Added methods touch the table of one class only. Of the methods of one name the last one stays, and
    a name that is not among them keeps what it had. -/
theorem classAt_addMethods {r : ClassRef} (hr : r < s.classes.size) (e : EnvRef)
    (methods : List FunctionDecl) :
    ∃ table, (∀ m, table.get? m
        = ((lastNamed m methods).map (methodOf e)).or ((s.classAt r).methods.get? m))
      ∧ ∀ q, (s.addMethods r e methods).classAt q
        = if q = r then { s.classAt r with methods := table } else s.classAt q := by
  induction methods generalizing s with
  | nil =>
    refine ⟨(s.classAt r).methods, fun m => rfl, fun q => ?_⟩
    split
    · next h => rw [h]; rfl
    · rfl
  | cons d ds ih =>
    have hset := fun q => s.classAt_setMethod r q d.name (methodOf e d)
    obtain ⟨table, htable, hclasses⟩ := ih (s := s.setMethod r d.name (methodOf e d))
      (by simpa [setMethod] using hr)
    refine ⟨table, fun m => ?_, fun q => (hclasses q).trans ?_⟩
    · rw [htable, methods_setMethod, lastNamed_cons]
      by_cases h : d.name = m <;> cases lastNamed m ds <;> simp [h, hr]
    · split
      · rw [hset, if_pos ⟨rfl, hr⟩]
      · next hne => rw [hset, if_neg (fun hc => hne hc.1.symm)]

theorem addMethods_heap (s : Store) (r : ClassRef) (e : EnvRef) (methods : List FunctionDecl) :
    (s.addMethods r e methods).classes.size = s.classes.size
      ∧ (s.addMethods r e methods).lists = s.lists
      ∧ (s.addMethods r e methods).instances = s.instances := by
  induction methods generalizing s with
  | nil => exact ⟨rfl, rfl, rfl⟩
  | cons d ds ih =>
    obtain ⟨hsize, hheap⟩ := ih (s.setMethod r d.name (methodOf e d))
    exact ⟨hsize.trans (by simp [setMethod]), hheap⟩

theorem env_addMethods (s : Store) (r : ClassRef) (e a : EnvRef) (methods : List FunctionDecl) :
    (s.addMethods r e methods).env a = s.env a := by
  unfold env
  rw [addMethods_envs]

theorem local?_methodScope {a : EnvRef} (ha : a < s.envs.size) (e : EnvRef) (p : Option ClassRef)
    (x : String) : (s.methodScope e p).2.local? a x = s.local? a x := by
  cases p with
  | none => rfl
  | some p =>
    show ((s.newEnv (some e)).2.define s.envs.size "super" _).local? a x = _
    rw [local?_define, if_neg (fun hc => Nat.ne_of_lt ha hc.1.symm), local?_newEnv,
      if_neg (Nat.ne_of_lt ha)]

/-! ## What a class statement changes -/

/-- The class statement `class name < p { methods }` in the environment `e` has changed `s` into `t`
    by opening the class `r`. -/
structure Declares (s : Store) (e : EnvRef) (name : String) (p : Option ClassRef)
    (methods : List FunctionDecl) (r : ClassRef) (t : Store) : Prop where
  /-- The name denotes the class. -/
  bound : t.local? e name = some (.callable (.classRef r))
  /-- It is the class that the name denoted in the same scope, or else a new one. -/
  opened : s.local? e name = some (.callable (.classRef r)) ∧ t.classes.size = s.classes.size
      ∧ (t.classAt r).name = (s.classAt r).name
    ∨ s.local? e name = none ∧ r = s.classes.size ∧ t.classes.size = s.classes.size + 1
      ∧ (t.classAt r).name = name
  superclass : t.superclass? r = p
  /-- Of its methods, the last declared one of a name counts, and else the one it had. -/
  own : ∀ m, (t.classAt r).methods.get? m
    = ((lastNamed m methods).map (methodOf (s.methodScope e p).1)).or
      ((s.classAt r).methods.get? m)
  others : ∀ q, q ≠ r → t.classAt q = s.classAt q
  locals : ∀ a x, a < s.envs.size → ¬ (a = e ∧ x = name) → t.local? a x = s.local? a x
  parents : ∀ a, a < s.envs.size → t.parent? a = s.parent? a
  /-- The scope that the new methods close over. -/
  scope : ∀ q ∈ p, t.local? (s.methodScope e p).1 "super" = some (.callable (.classRef q))
    ∧ t.parent? (s.methodScope e p).1 = some e
  lists : t.lists = s.lists
  instances : t.instances = s.instances

/-- What opening a class has done. -/
theorem openClass_classAt {D : FunctionDecl → Prop} {s₁ : Store} {p : Option ClassRef} {r : ClassRef}
    (hs : s.Closed D) (hr : Store.openClass e name p s = .ok r s₁) :
    r < s₁.classes.size ∧ s₁.superclass? r = p
      ∧ (s.local? e name = some (.callable (.classRef r)) ∧ s₁.classes.size = s.classes.size
          ∧ (s₁.classAt r).name = (s.classAt r).name
        ∨ s.local? e name = none ∧ r = s.classes.size ∧ s₁.classes.size = s.classes.size + 1
          ∧ (s₁.classAt r).name = name)
      ∧ (∀ m, (s₁.classAt r).methods.get? m = (s.classAt r).methods.get? m)
      ∧ (∀ q, q ≠ r → s₁.classAt q = s.classAt q)
      ∧ s₁.envs = s.envs ∧ s₁.lists = s.lists ∧ s₁.instances = s.instances := by
  rcases openClass_eq_ok hr with ⟨hfree, rfl, rfl⟩ | ⟨hbound, hclass, rfl⟩
  · have hat := s.classAt_newClass name p
    have hsize : (s.newClass name p).2.classes.size = s.classes.size + 1 := by simp [newClass]
    refine ⟨hsize ▸ Nat.lt_succ_self _, ?_, .inr ⟨hfree, rfl, hsize, ?_⟩, fun m => methods_newClass ..,
      fun q hq => (hat q).trans (if_neg hq), rfl, rfl, rfl⟩
    · rw [superclass?_newClass, if_pos rfl]
    · rw [hat, if_pos rfl]
  · exact ⟨hs.locals hbound, hclass, .inl ⟨hbound, rfl, rfl⟩, fun _ => rfl, fun _ _ => rfl, rfl, rfl, rfl⟩

/-- If no value refers to a class that is not there, a class statement that succeeds does just this. -/
theorem declareClass_declares {D : FunctionDecl → Prop} (hs : s.Closed D) (he : e < s.envs.size)
    {superclass : Option Value} (h : Store.declareClass e name superclass methods s = .ok () t) :
    ∃ p r, superclass = p.map (fun q => .callable (.classRef q)) ∧ s.Declares e name p methods r t := by
  obtain ⟨p, r, s₁, hp, hr, rfl⟩ := declareClass_eq_ok h
  obtain ⟨hr, hclass, hopened, hown, hothers, henvs, hlists, hinstances⟩ := openClass_classAt hs hr
  have hheap : SameHeap s₁ ((s₁.methodScope e p).2.define e name (.callable (.classRef r))) := by
    cases p <;> exact ⟨rfl, rfl, rfl⟩
  have hscope := methodScope_fst henvs e p
  have hlocal : ∀ a x, s₁.local? a x = s.local? a x := fun a x => by unfold local? env; rw [henvs]
  generalize hbase : (s₁.methodScope e p).2.define e name (.callable (.classRef r)) = base at hheap ⊢
  obtain ⟨hl, hi, hc⟩ := hheap
  have hat : ∀ q, base.classAt q = s₁.classAt q := fun q => by unfold classAt; rw [hc]
  obtain ⟨table, htable, hclasses⟩ := classAt_addMethods (s := base) (hc ▸ hr) (s₁.methodScope e p).1 methods
  obtain ⟨hsize', hlists', hinstances'⟩ := base.addMethods_heap r (s₁.methodScope e p).1 methods
  have hself := hclasses r
  rw [if_pos rfl, hat] at hself
  have hlocal' : ∀ a x, (base.addMethods r (s₁.methodScope e p).1 methods).local? a x = base.local? a x :=
    fun a x => by unfold local?; rw [env_addMethods]
  have hparent' : ∀ a, (base.addMethods r (s₁.methodScope e p).1 methods).parent? a
      = (s₁.methodScope e p).2.parent? a := fun a => by
    unfold parent?
    rw [env_addMethods, ← hbase, parent_define]
  have he₁ : e < s₁.envs.size := henvs ▸ he
  refine ⟨p, r, superclassOf_eq_ok hp, ?_, ?_, ?_, fun m => ?_, fun q hq => ?_, fun a x ha hne => ?_,
    fun a ha => ?_, fun q hq => ?_, hlists'.trans (hl.trans hlists),
    hinstances'.trans (hi.trans hinstances)⟩
  · rw [hlocal', ← hbase, local?_define,
      if_pos ⟨rfl, Nat.lt_of_lt_of_le he₁ (Grows.methodScope s₁ e p).extends.envs, rfl⟩]
  · rw [hsize', hc, hself]
    exact hopened
  · rw [superclass?, hself]
    exact hclass
  · rw [hself, ← hscope, ← hown, ← hat]
    exact htable m
  · rw [hclasses, if_neg hq, hat, hothers q hq]
  · rw [hlocal', ← hbase, local?_define, if_neg (fun hc => hne ⟨hc.1.symm, hc.2.2.symm⟩),
      local?_methodScope (henvs ▸ ha), hlocal]
  · rw [hparent', (Grows.methodScope s₁ e p).extends.parent a (henvs ▸ ha), parent?, env, henvs]
    rfl
  · cases hq
    obtain ⟨hsuper, hout⟩ := methodScope_super s₁ e q
    rw [← hscope]
    refine ⟨?_, (hparent' _).trans hout⟩
    rw [hlocal', ← hbase, local?_define, if_neg (fun hc => Nat.ne_of_lt he₁ hc.1), hsuper]

/-! ## Lookup after a class statement -/

/-- On the way from `q` along its chain to `a`, no class has a method `m` of its own. -/
def Passes (s : Store) (m : String) (q a : ClassRef) : Prop :=
  Relation.ReflTransGen
    (fun x y => (s.classAt x).methods.get? m = none ∧ s.superclass? x = some y) q a

namespace Declares

variable {p : Option ClassRef} {r : ClassRef}

/-- Chains still end. -/
theorem classChains (h : s.Declares e name p methods r t) (hx : s.Extends t) (hs : s.ClassChains)
    (hthere : ∀ q ∈ p, q < s.classes.size) : t.ClassChains := by
  refine hs.extends hx fun {q a} ha => ?_
  by_cases hq : q = r
  · rw [hq, h.superclass] at ha
    exact hthere a ha
  · rw [superclass?, h.others q hq] at ha
    exact hs.there ha

/-- A class whose chain comes to the opened class without a method `m` before it sees the new one. -/
theorem findMethod?_new (h : s.Declares e name p methods r t) (hx : s.Extends t) (ht : t.ClassChains)
    {q : ClassRef} {m : String} {d : FunctionDecl} (hq : Passes s m q r)
    (hd : lastNamed m methods = some d) :
    t.findMethod? q m = some (methodOf (s.methodScope e p).1 d) := by
  have hat : Search t.superclass? (fun c => (t.classAt c).methods.get? m) r
      (some (methodOf (s.methodScope e p).1 d)) := .here (by rw [h.own, hd]; rfl)
  refine (ht.findMethod?_search q m).unique ?_
  induction hq using Relation.ReflTransGen.head_induction_on with
  | refl => exact hat
  | @head x y hstep _ ih =>
    -- the opened class itself may lie on the way only if the chain starts over, and then it is
    -- where the search ends
    by_cases hxr : x = r
    · exact hxr ▸ hat
    · refine .further ?_ ((hx.superclass x (superclass?_lt hstep.2)).trans hstep.2) ih
      rw [h.others x hxr]
      exact hstep.1

/-- All other lookups give what they gave. -/
theorem findMethod?_old (h : s.Declares e name p methods r t) (hx : s.Extends t) (hs : s.ClassChains)
    (ht : t.ClassChains) {q : ClassRef} (hq : q < s.classes.size)
    {m : String} (hm : lastNamed m methods = none ∨ ¬ Passes s m q r) :
    t.findMethod? q m = s.findMethod? q m := by
  refine (ht.findMethod?_search q m).unique ?_
  -- the search in the old tables takes the same way through the new ones
  have hown : ∀ x, (lastNamed m methods = none ∨ ¬ Passes s m x r) →
      (t.classAt x).methods.get? m = (s.classAt x).methods.get? m := by
    intro x hx
    by_cases hxr : x = r
    · rw [hxr, h.own]
      rcases hx with hnone | hnot
      · rw [hnone]
        rfl
      · exact absurd (hxr ▸ .refl) hnot
    · rw [h.others x hxr]
  have hsearch := hs.findMethod?_search q m
  generalize s.findMethod? q m = found at hsearch ⊢
  induction hsearch with
  | here hfound => exact .here ((hown _ hm).trans hfound)
  | @further x y _ hmissing hnext _ ih =>
    refine .further ((hown _ hm).trans hmissing) ((hx.superclass x hq).trans hnext)
      (ih (hs.there hnext) (hm.imp_right fun hnot hy => hnot (.head ⟨hmissing, hnext⟩ hy)))
  | @nowhere x hmissing hlast =>
    exact .nowhere ((hown _ hm).trans hmissing) ((hx.superclass x hq).trans hlast)

/-- What an instance has under a name: its field, else the method that its class has now. -/
theorem findMember_eq (h : s.Declares e name p methods r t) {i : InstanceRef}
    (hi : i < s.instances.size) (m : String) :
    t.findMember i m = ((s.instanceAt i).fields.get? m).elim
      ((t.findMethod? (s.instanceAt i).classRef m).elim (.error (.undefinedProperty m))
        fun c => .ok (.method c i))
      fun v => .ok (.value v) := by
  have hinst : t.instanceAt i = s.instanceAt i := by simp [instanceAt, h.instances, hi]
  rw [findMember, hinst]
  cases (s.instanceAt i).fields.get? m with
  | some v => rfl
  | none => cases t.findMethod? (s.instanceAt i).classRef m <;> rfl

end Declares

end Store

end Eleu
