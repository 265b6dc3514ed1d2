import Eleu.Proofs.Declarations
import Eleu.Proofs.Machine.Recover
import Eleu.Proofs.Machine.Settled
import Eleu.Proofs.Store.ClassStatement
import Eleu.Proofs.Walker.Phases

/-! # Reopening a class

    A class statement takes effect as a whole or not at all, in either executor. One that opens a class
    again changes the method table of that class and nothing else; who looks up a method from now on,
    be it an instance or a subclass that was there before, sees the table as it is now.

    The class that it opens is whatever class its name denotes in the current scope, and it does not
    look at the name of that class. So it keeps to its own name just if the name does not denote a class
    of another name (`Store.Declares.keepsToName_iff`). -/

namespace Eleu

open Store

/-- A class statement succeeds if its superclass, if any, is a class and the name is free, or denotes a
    class with that superclass. -/
theorem Store.declareClass_isOk_iff {s : Store} {e : EnvRef} {name : String} {superclass : Option Value}
    {methods : List FunctionDecl} : (∃ t, Store.declareClass e name superclass methods s = .ok () t) ↔
      ∃ p, superclass = p.map (fun q => .callable (.classRef q)) ∧ (s.local? e name = none
        ∨ ∃ r, s.local? e name = some (.callable (.classRef r)) ∧ s.superclass? r = p) := by
  constructor
  · rintro ⟨t, h⟩
    obtain ⟨p, r, s₁, hp, hr, -⟩ := declareClass_eq_ok h
    refine ⟨p, superclassOf_eq_ok hp, ?_⟩
    rcases openClass_eq_ok hr with ⟨hnone, -⟩ | ⟨hr, hparent, -⟩
    · exact .inl hnone
    · exact .inr ⟨r, hr, hparent⟩
  · rintro ⟨p, rfl, hopens⟩
    have hp : s.superclassOf (p.map fun q => .callable (.classRef q)) = .ok p := by cases p <;> rfl
    have hends := s.openClass_ends e name p
    rw [declareClass_apply, hp]
    dsimp only
    cases hr : openClass e name p s with
    | ok r s₁ => exact ⟨_, rfl⟩
    | error c s₁ =>
      rw [hr] at hends
      obtain ⟨hbound, hother, -⟩ := hends
      rcases hopens with hnone | ⟨r, hclass, hparent⟩
      · rw [hnone] at hbound
        cases hbound
      · exact absurd hparent (hother r hclass)

/-- A class statement that fails leaves the store as it was. One that succeeds opens the class that the
    name denotes in the scope, or a new one, and changes its methods and that name only; lookup then
    finds the first method along the chain in the changed tables, which is the new one for every class
    whose chain comes to the opened class first. -/
theorem class_statement_atomic {s : Store} (closed : s.Closed fun _ => True) (chains : s.ClassChains)
    {e : EnvRef} (he : e < s.envs.size) (name : String) (superclass : Option Value)
    (present : ∀ v ∈ superclass, v.Present (fun _ => True) s) (methods : List FunctionDecl) :
    (∀ o n parent span (w : Walker), w.world.store = s →
        Ends (Walk.statement o (n + 1) (.class name parent methods span) w)
          (fun _ w' => ∃ superclass, Store.declareClass w.env name superclass methods s = .ok () w'.world.store)
          (fun _ w' => w'.world.store = s))
      ∧ (∀ o span (m : Machine), m.world.store = s →
        Ends (Exec.execute o ⟨.class name methods, span⟩ m)
          (fun _ m' => ∃ superclass, Store.declareClass m.env name superclass methods s = .ok () m'.world.store)
          (fun _ m' => m'.world.store = s))
      ∧ ((∃ t, Store.declareClass e name superclass methods s = .ok () t) ↔
        ∃ p, superclass = p.map (fun q => .callable (.classRef q)) ∧ (s.local? e name = none
          ∨ ∃ r, s.local? e name = some (.callable (.classRef r)) ∧ s.superclass? r = p))
      ∧ (∀ c t, Store.declareClass e name superclass methods s = .error c t → t = s)
      ∧ ∀ t, Store.declareClass e name superclass methods s = .ok () t →
        ∃ p r, superclass = p.map (fun q => .callable (.classRef q))
          ∧ s.Declares e name p methods r t
          ∧ (∀ q m, Search t.superclass? (fun c => (t.classAt c).methods.get? m) q (t.findMethod? q m))
          ∧ (∀ q m d, s.Passes m q r → lastNamed m methods = some d →
            t.findMethod? q m = some (methodOf (s.methodScope e p).1 d))
          ∧ (∀ q m, q < s.classes.size → lastNamed m methods = none ∨ ¬ s.Passes m q r →
            t.findMethod? q m = s.findMethod? q m)
          ∧ ∀ i m, i < s.instances.size →
            t.findMember i m = ((s.instanceAt i).fields.get? m).elim
              ((t.findMethod? (s.instanceAt i).classRef m).elim (.error (.undefinedProperty m))
                fun c => .ok (.method c i))
              fun v => .ok (.value v) := by
  refine ⟨fun o n parent span w hw => ?_, fun o span m hm => ?_, declareClass_isOk_iff,
    fun c t ht => declareClass_atomic e name superclass methods ht, fun t ht => ?_⟩
  · subst hw
    refine (Walk.statement_class_ends o n name parent methods span w).mono ?_ fun _ _ h => h.1 ▸ rfl
    rintro _ _ ⟨superclass, -, hd⟩
    exact ⟨superclass, hd⟩
  · subst hm
    exact (Exec.execute_class_ends o name methods span m).mono (fun _ _ h => h) fun _ _ h => h.1 ▸ rfl
  · obtain ⟨p, r, hp, hdeclares⟩ := declareClass_declares closed he ht
    have hthere : ∀ q ∈ p, q < s.classes.size := fun q hq => by
      obtain rfl := Option.mem_def.1 hq
      exact present (.callable (.classRef q)) hp
    have hx : s.Extends t := (Store.Grows.declareClass id ht).extends
    have hchains := hdeclares.classChains hx chains hthere
    exact ⟨p, r, hp, hdeclares, hchains.findMethod?_search,
      fun q m d hq hd => hdeclares.findMethod?_new hx hchains hq hd,
      fun q m hq hm => hdeclares.findMethod?_old hx chains hchains hq hm,
      fun i m hi => hdeclares.findMember_eq hi m⟩

/-- A superclass that is opened again, and declares one of its new methods twice. -/
theorem class_statement_atomic_twice :
    ∃ (s t : Store) (first second : FunctionDecl), s.Closed (fun _ => True) ∧ s.ClassChains
      ∧ first.name = "g" ∧ second.name = "g" ∧ second.id ≠ first.id
      ∧ s.superclass? 1 = some 0 ∧ (s.instanceAt 0).classRef = 1
      ∧ Store.declareClass 0 "A" none [first, second] s = .ok () t
      ∧ t.local? 0 "A" = some (.callable (.classRef 0))
      ∧ t.findMethod? 1 "g" = some (methodOf 0 second)
      ∧ t.findMethod? 1 "f" = s.findMethod? 1 "f" ∧ (s.findMethod? 1 "f").isSome
      ∧ t.findMember 0 "g" = .ok (.method (methodOf 0 second) 0) := by
  have hreachable : (Session.ofMachine.serveAll {} 60
      [.run "" "class A { f() {} } class B < A {} var b = B();"]).2.OnReachable {} :=
    .serveAll ⟨_, rfl, .fresh⟩ 60 _
  obtain ⟨m, hm, hreach⟩ := hreachable
  have hfacts :
      (fun s : Store => 0 < s.envs.size ∧ s.superclass? 1 = some 0 ∧ s.superclass? 0 = none
        ∧ (s.instanceAt 0).classRef = 1 ∧ 1 < s.classes.size ∧ 0 < s.instances.size
        ∧ ((s.instanceAt 0).fields.get? "g").isNone ∧ ((s.classAt 1).methods.get? "g").isNone
        ∧ (s.findMethod? 1 "f").isSome
        ∧ (s.superclassOf (s.local? 0 "A")).toOption = some (some 0))
      (Session.ofMachine.serveAll {} 60
        [.run "" "class A { f() {} } class B < A {} var b = B();"]).2.executor.world.store := by
    decide +kernel
  rw [hm] at hfacts
  obtain ⟨he, hclass₁, hclass₀, hinst, hsize, hi, hfield, hown, hf, hA⟩ := hfacts
  have hA := superclassOf_eq_ok (Outcome.toOption_eq_some.1 hA)
  have hfounded := (hreach.from honest_default).store
  obtain ⟨-, -, hok, -, heffect⟩ := class_statement_atomic hfounded.toClosed
    hfounded.classChains he "A" none (fun _ hv => nomatch hv)
    [⟨0, 1, .method, "g", [], [], .empty⟩, ⟨0, 2, .method, "g", [], [], .empty⟩]
  obtain ⟨t, ht⟩ := hok.2 ⟨none, rfl, .inr ⟨0, hA, hclass₀⟩⟩
  obtain ⟨p, r, hp, hdeclares, -, hnew, hold, hmember⟩ := heffect t ht
  obtain rfl : p = none := by cases p with | none => rfl | some q => exact nomatch hp
  obtain rfl : r = 0 := by
    rcases hdeclares.opened with ⟨hbound, -⟩ | ⟨hfree, -⟩
    · cases hA.symm.trans hbound
      rfl
    · exact nomatch hA.symm.trans hfree
  have hpasses : m.world.store.Passes "g" 1 0 := .single ⟨Option.isNone_iff_eq_none.1 hown, hclass₁⟩
  have hg := hnew 1 "g" ⟨0, 2, .method, "g", [], [], .empty⟩ hpasses rfl
  refine ⟨m.world.store, t, _, _, hfounded.toClosed, hfounded.classChains, rfl, rfl, by decide, hclass₁,
    hinst, ht, hdeclares.bound, hg, hold 1 "f" hsize (.inl rfl), hf, ?_⟩
  have hinst : (m.world.store.instanceAt 0).classRef = 1 := hinst
  have hfield : (m.world.store.instanceAt 0).fields.get? "g" = none := Option.isNone_iff_eq_none.1 hfield
  rw [hmember 0 "g" hi, hinst, hg, hfield]
  rfl

/-! ## Names of classes -/

namespace Store

variable {s t : Store} {e : EnvRef} {name : String}

/-- A class statement for `name`, executed in the environment `e`, has kept to its name: the name denotes
    a class that has it, and no class of another name has got methods. -/
structure KeepsToName (s : Store) (e : EnvRef) (name : String) (t : Store) : Prop where
  bound : ∃ r, t.local? e name = some (.callable (.classRef r)) ∧ (t.classAt r).name = name
  methods : ∀ q, (t.classAt q).name ≠ name → (t.classAt q).methods = (s.classAt q).methods

/-- It does so just if the name denoted no class of another name. -/
theorem Declares.keepsToName_iff {p : Option ClassRef} {methods : List FunctionDecl} {r : ClassRef}
    (h : s.Declares e name p methods r t) : s.KeepsToName e name t
      ↔ ∀ q, s.local? e name = some (.callable (.classRef q)) → (s.classAt q).name = name := by
  constructor
  · rintro ⟨⟨r', hbound, hname⟩, -⟩ q hq
    cases h.bound.symm.trans hbound
    rcases h.opened with ⟨hold, -, hsame⟩ | ⟨hnone, -⟩
    · cases hold.symm.trans hq
      exact hsame.symm.trans hname
    · exact nomatch hnone.symm.trans hq
  · intro hq
    have hname : (t.classAt r).name = name := by
      rcases h.opened with ⟨hold, -, hsame⟩ | ⟨-, -, -, hname⟩
      · exact hsame.trans (hq r hold)
      · exact hname
    refine ⟨⟨r, h.bound, hname⟩, fun q hne => ?_⟩
    have hqr : q ≠ r := fun heq => hne (heq ▸ hname)
    rw [h.others q hqr]

/-- What is true of a class statement for `name`, executed in the environment `e`: it opens one class
    and touches no other, and keeps to its name under the one condition. -/
def StatesClass (s : Store) (e : EnvRef) (name : String) (methods : List FunctionDecl) (t : Store) : Prop :=
  (∃ p r, s.Declares e name p methods r t)
    ∧ (s.KeepsToName e name t
      ↔ ∀ q, s.local? e name = some (.callable (.classRef q)) → (s.classAt q).name = name)

theorem StatesClass.of_declareClass {D : FunctionDecl → Prop} (hs : s.Closed D) (he : e < s.envs.size)
    {superclass : Option Value} {methods : List FunctionDecl}
    (h : Store.declareClass e name superclass methods s = .ok () t) : s.StatesClass e name methods t := by
  obtain ⟨p, r, -, hdeclares⟩ := declareClass_declares hs he h
  exact ⟨⟨p, r, hdeclares⟩, hdeclares.keepsToName_iff⟩

end Store

/-- A class statement that succeeds in a reachable state opens one class, and touches no other. It keeps
    to its own name just if the name does not denote a class of another name. -/
theorem class_statement_names (o : Options) (ho : o.HonestHost) :
    (∀ n name parent methods span w below flow w',
      (Phase.begun ⟨n, .statement (.class name parent methods span), w⟩ below).Reachable o →
      Walk.statement o n (.class name parent methods span) w = .ok flow w' →
      w.world.store.StatesClass w.env name methods w'.world.store)
      ∧ ∀ (m : Machine) frame frames name methods span m', m.Reachable o → m.frames = frame :: frames →
        frame.chunk.instr? frame.ip = some ⟨.class name methods, span⟩ →
        Exec.execute o ⟨.class name methods, span⟩ (m.ready o frame frames) = .ok () m' →
        m.world.store.StatesClass m.env name methods m'.world.store := by
  constructor
  · intro n name parent methods span w below flow w' hreach hok
    have hfrom := hreach.from ho _ (.head _)
    cases n with
    | zero => exact nomatch hok
    | succ n =>
      have hends := Walk.statement_class_ends o n name parent methods span w
      rw [hok] at hends
      obtain ⟨superclass, -, hd⟩ := hends
      exact .of_declareClass hfrom.store.toClosed hfrom.env hd
  · intro m frame frames name methods span m' hreach hframes hcode hok
    have hfrom := hreach.from ho
    have hends := Exec.execute_class_ends o name methods span (m.ready o frame frames)
    rw [hok] at hends
    obtain ⟨superclass, hd⟩ := hends
    obtain ⟨w, hw, hs⟩ := Machine.ready_eq o frame frames m
    rw [hw] at hd
    replace hd : Store.declareClass m.env name superclass methods w.store = .ok () m'.world.store := hd
    rw [hs] at hd
    exact .of_declareClass hfrom.store.toClosed hfrom.env.2 hd

/-- The name and the methods of a class statement. -/
def Op.class? : Op → Option (String × List FunctionDecl)
  | .class name methods => some (name, methods)
  | _ => none

theorem Op.class?_eq_some {op : Op} {c : String × List FunctionDecl} (h : op.class? = some c) :
    op = .class c.1 c.2 := by
  cases op <;> cases h
  rfl

/-- A class that is opened again under its own name. -/
theorem class_statement_names_again : ∃ (m : Machine) (frame : Frame) (frames : List Frame)
    (methods : List FunctionDecl) (span : Option Span) (m' : Machine), m.Reachable {}
      ∧ m.frames = frame :: frames ∧ frame.chunk.instr? frame.ip = some ⟨.class "A" methods, span⟩
      ∧ Exec.execute {} ⟨.class "A" methods, span⟩ (m.ready {} frame frames) = .ok () m'
      ∧ m.world.store.local? m.env "A" = some (.callable (.classRef 0))
      ∧ (m.world.store.classAt 0).name = "A" ∧ m.world.store.KeepsToName m.env "A" m'.world.store := by
  have hcheck : ((parseText .resume 0 "" "class A { f() {} } class A { g() {} }").toOption.any fun items =>
      (fun m : Machine => (m.world.store.superclassOf (m.world.store.local? m.env "A")).toOption
          == some (some 0) && (m.world.store.classAt 0).name == "A"
        && m.frames.head?.any fun frame => (frame.chunk.instr? frame.ip).any fun i =>
          (i.op.class?.map Prod.fst == some "A")
            && (Outcome.result? (Exec.execute {} i (m.ready {} frame m.frames.tail))).isSome)
        ((Machine.fresh.start items).2.after {} 3)) = true := by
    decide +kernel
  obtain ⟨items, hparsed, hcheck⟩ := (Option.any_eq_true _ _).1 hcheck
  have hreach : ((Machine.fresh.start items).2.after {} 3).Reachable {} :=
    (Machine.Reachable.next .fresh (.start (Outcome.toOption_eq_some.1 hparsed))).after 3
  generalize (Machine.fresh.start items).2.after {} 3 = m at hcheck hreach
  obtain ⟨hfacts, hcheck⟩ := (Bool.and_eq_true _ _).mp hcheck
  obtain ⟨hbound, hname⟩ := (Bool.and_eq_true _ _).mp hfacts
  have hbound := superclassOf_eq_ok (Outcome.toOption_eq_some.1 (beq_iff_eq.1 hbound))
  have hname : (m.world.store.classAt 0).name = "A" := beq_iff_eq.1 hname
  obtain ⟨frame, hframe, hcheck⟩ := (Option.any_eq_true _ _).1 hcheck
  obtain ⟨⟨op, span⟩, hcode, hcheck⟩ := (Option.any_eq_true _ _).1 hcheck
  obtain ⟨hop, hok⟩ := (Bool.and_eq_true _ _).mp hcheck
  obtain ⟨frames, hframes⟩ := List.head?_eq_some_iff.1 hframe
  obtain ⟨⟨_, methods⟩, hclass, rfl⟩ := Option.map_eq_some_iff.1 (beq_iff_eq.1 hop)
  obtain rfl := Op.class?_eq_some hclass
  rw [hframes, List.tail_cons] at hok
  obtain ⟨⟨u, m'⟩, hok⟩ := Option.isSome_iff_exists.1 hok
  replace hok := Outcome.result?_eq_some.1 hok
  have hstates := (class_statement_names {} honest_default).2 m frame frames _ methods span m' hreach
    hframes hcode hok
  refine ⟨m, frame, frames, methods, span, m', hreach, hframes, hcode, hok, hbound, hname,
    hstates.2.2 fun q hq => ?_⟩
  cases hbound.symm.trans hq
  exact hname

/-- A class statement for a name that a `var` statement has given another class: it adds a method to
    that class, which keeps its own name. -/
theorem class_statement_strays : ∃ items,
    parseText .resume 0 "" "class A {} var B = A; class B { m() { return 1; } } print(A().m());"
        = .ok items
      ∧ (Walker.fresh.run {} 40 items).1 = some .ok ∧ (Machine.fresh.run {} 40 items).1 = some .ok
      ∧ ∀ s t : Store,
        (s = (Walker.fresh.run {} 40 (items.take 2)).2.world.store
            ∧ t = (Walker.fresh.run {} 40 (items.take 3)).2.world.store
          ∨ s = (Machine.fresh.run {} 40 (items.take 2)).2.world.store
            ∧ t = (Machine.fresh.run {} 40 (items.take 3)).2.world.store) →
        t.local? 0 "B" = some (.callable (.classRef 0)) ∧ (t.classAt 0).name = "A"
          ∧ ((s.classAt 0).methods.get? "m").isNone ∧ ((t.classAt 0).methods.get? "m").isSome
          ∧ ¬ s.KeepsToName 0 "B" t := by
  have hcheck : ((parseText .resume 0 ""
      "class A {} var B = A; class B { m() { return 1; } } print(A().m());").toOption.any fun items =>
        (fun check : Store → Store → Bool =>
          (Walker.fresh.run {} 40 items).1 == some .ok && (Machine.fresh.run {} 40 items).1 == some .ok
          && check (Walker.fresh.run {} 40 (items.take 2)).2.world.store
            (Walker.fresh.run {} 40 (items.take 3)).2.world.store
          && check (Machine.fresh.run {} 40 (items.take 2)).2.world.store
            (Machine.fresh.run {} 40 (items.take 3)).2.world.store)
        fun s t => (t.superclassOf (t.local? 0 "B")).toOption == some (some 0)
          && (t.classAt 0).name == "A" && ((s.classAt 0).methods.get? "m").isNone
          && ((t.classAt 0).methods.get? "m").isSome) = true := by
    decide +kernel
  obtain ⟨items, hparsed, hcheck⟩ := (Option.any_eq_true _ _).1 hcheck
  simp only [Bool.and_eq_true, beq_iff_eq] at hcheck
  obtain ⟨⟨⟨hwalker, hmachine⟩, hw⟩, hm⟩ := hcheck
  refine ⟨items, Outcome.toOption_eq_some.1 hparsed, hwalker, hmachine, fun s t hst => ?_⟩
  obtain ⟨⟨⟨hbound, hname⟩, hbefore⟩, hafter⟩ :
      (((t.superclassOf (t.local? 0 "B")).toOption = some (some 0) ∧ (t.classAt 0).name = "A")
        ∧ ((s.classAt 0).methods.get? "m").isNone = true)
        ∧ ((t.classAt 0).methods.get? "m").isSome = true := by
    rcases hst with ⟨rfl, rfl⟩ | ⟨rfl, rfl⟩
    · exact hw
    · exact hm
  have hbound := superclassOf_eq_ok (Outcome.toOption_eq_some.1 hbound)
  refine ⟨hbound, hname, hbefore, hafter, fun hkeeps => ?_⟩
  obtain ⟨r, hr, hB⟩ := hkeeps.bound
  cases hbound.symm.trans hr
  exact absurd (hname.symm.trans hB) (by decide)

end Eleu
