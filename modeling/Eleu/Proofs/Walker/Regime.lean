import Eleu.Proofs.Library.Results
import Eleu.Proofs.Scope.Context
import Eleu.Proofs.Tree.Origin
import Eleu.Proofs.Walker.Visits

/-! # What every task of the walker keeps

    A `Walker.Regime` says what is asked of the visits of a walker, of the states before and after
    them, of the values they give, of what a declaration leaves behind and of faults: of their places
    and of their causes.
    It is lawful if each single thing that the walker does keeps to it, and if the calls of a visit
    that is made in a state that was kept belong to it. Then whole tasks keep to it, however they
    end (`Walker.Regime.Lawful.holds`), and so do the visits they lead to (`calls`). -/

namespace Eleu

variable {span : Span} {args : List Value} {flow : Flow}

namespace Task

/-- The places of a task. -/
def spans : Task → List Span
  | .expr e => e.spans
  | .exprs es => exprsSpans es
  | .call _ _ _ | .closure _ _ _ => []
  | .item i | .statement i => i.spans
  | .items is | .program is => itemsSpans is
  | .whileLoop c body increment => c.spans ++ (body.spans ++ optionSpans increment)
  | .repeatLoop _ body => body.spans

/-- The values that a task is about. -/
def values : Task → List Value
  | .call f args _ => f :: args
  | .closure c args _ => .callable (.closure c) :: args
  | _ => []

/-- Whether a task is done in a scope of its own. -/
def opens : Task → Bool
  | .closure _ _ _ | .statement (.block _ _) => true
  | _ => false

/-- The item that has been executed when a list of items comes to its rest. -/
def passed : Task → Task → Option Item
  | .items (i :: _), .items _ | .program (i :: _), .program _ => some i
  | _, _ => none

end Task

/-- What is asked of a walker. -/
structure Walker.Regime where
  visit : Visit → Prop
  /-- What holds between a state and a later one. -/
  kept : Walker → Walker → Prop
  value : Store → Value → Prop
  /-- What an item leaves behind that was executed between two states. -/
  leaves : Item → Walker → Walker → Prop
  origin : Origin
  cause : Cause → Prop

namespace Walker.Regime

variable {α β : Type}

/-- A value that is there in a state is as is asked. -/
def Fits (R : Regime) (v : Value) (w : Walker) : Prop := R.value w.world.store v

/-- A value that is returned is as is asked. -/
def Carries (R : Regime) : Flow → Walker → Prop
  | .return v, w => R.Fits v w
  | _, _ => True

/-- What a task gives that was started in the state `w`. -/
def Gives (R : Regime) (w : Walker) : (t : Task) → t.Result → Walker → Prop
  | .expr _, v, w' | .call _ _ _, v, w' | .closure _ _ _, v, w' => R.Fits v w'
  | .exprs _, vs, w' => ∀ v ∈ vs, R.Fits v w'
  | .item i, flow, w' | .statement i, flow, w' => R.Carries flow w' ∧ R.leaves i w w'
  | .items _, flow, w' | .whileLoop _ _ _, flow, w' | .repeatLoop _ _, flow, w' => R.Carries flow w'
  | .program _, _, _ => True

/-- A fault that interrupts the walker has its place, if any, in the origin, and its cause is as is
    asked. -/
structure Blames (R : Regime) (f : Fault) : Prop where
  place : f.From R.origin
  cause : R.cause f.cause

/-- An interruption is as is asked, if it is a fault. -/
def Allows (R : Regime) : Interrupt → Prop
  | .fault f => R.Blames f
  | .outOfFuel => True

/-- However a computation ends that was begun in the state `w`, the state is kept; a result satisfies
    `P`, and a fault is as is asked. -/
def Holds (R : Regime) (w : Walker) (P : α → Walker → Prop) (r : EStateM.Result Interrupt Walker α) :
    Prop :=
  Ends r (fun a w' => R.kept w w' ∧ P a w') (fun i w' => R.kept w w' ∧ R.Allows i)

/-- However a computation ends, the state is kept. -/
theorem Holds.kept {R : Regime} {w : Walker} {P : α → Walker → Prop}
    {r : EStateM.Result Interrupt Walker α} (h : R.Holds w P r) : R.kept w (Outcome.state r) :=
  Ends.state.1 (Ends.mono h (fun _ _ h => h.1) fun _ _ h => h.1)

/-- Every task with the given fuel keeps to what is asked. -/
def HoldsAt (R : Regime) (o : Options) (n : Nat) : Prop :=
  ∀ (t : Task) (w : Walker), R.visit ⟨n, t, w⟩ → R.Holds w (R.Gives w t) (t.run o n w)

/-- Each single thing that the walker does keeps to what is asked. -/
structure Lawful (o : Options) (R : Regime) : Prop where
  here {v : Visit} : R.visit v → R.kept v.state v.state
  last {w w' : Walker} : R.kept w w' → R.kept w' w'
  trans {w w' w'' : Walker} : R.kept w w' → R.kept w' w'' → R.kept w w''
  carry {w w' : Walker} {v : Value} : R.kept w w' → R.value w.world.store v → R.value w'.world.store v
  places {v : Visit} : R.visit v → ∀ p ∈ v.task.spans, R.origin.place p
  values {v : Visit} : R.visit v → ∀ x ∈ v.task.values, R.value v.state.world.store x
  -- where values come from
  inert {s : Store} {v : Value} : v.Inert → R.value s v
  getAt {w : Walker} (e : EnvRef) (name : String) (d : Nat) : R.kept w w →
    Yields (w.world.store.getAt e name d) (R.value w.world.store) Cause.Dynamic
  get {w : Walker} (e : EnvRef) (name : String) : R.kept w w →
    Yields (w.world.store.get e name) (R.value w.world.store) Cause.Dynamic
  member {w : Walker} {r : InstanceRef} {name : String} {m : Member} : R.kept w w →
    w.world.store.findMember r name = .ok m →
    R.kept w (w.setStore (w.world.store.take m).2)
      ∧ R.value (w.world.store.take m).2 (w.world.store.take m).1
  superMember {w : Walker} {e : EnvRef} {d : Nat} {name : String} {m : Member} : R.kept w w →
    w.world.store.findSuper e d name = .ok m →
    R.kept w (w.setStore (w.world.store.take m).2)
      ∧ R.value (w.world.store.take m).2 (w.world.store.take m).1
  native {w : Walker} (f : Native) {args : List Value} : R.kept w w →
    (∀ v ∈ args, R.value w.world.store v) →
    Ends (NativeM.call o f args w.world)
      (fun v world => R.kept w { w with world } ∧ R.value world.store v)
      (fun f world => R.kept w { w with world } ∧ R.Blames f)
  dynamic {c : Cause} : c.Dynamic → R.cause c
  -- what is added to the store
  list {w : Walker} {vs : List Value} : R.kept w w → (∀ v ∈ vs, R.value w.world.store v) →
    R.kept w (w.setStore (w.world.store.newList vs.toArray).2)
  field {w : Walker} {v : Value} (r : InstanceRef) (name : String) : R.kept w w →
    R.value w.world.store v → R.kept w (w.setStore (w.world.store.setField r name v))
  newInstance {w : Walker} (q : ClassRef) : R.kept w w →
    R.kept w (w.setStore (w.world.store.newInstance q).2)
  bound {w : Walker} {q : ClassRef} {m : Closure} : R.kept w w →
    (w.world.store.newInstance q).2.findMethod? q "init" = some m →
    R.kept w (w.setStore (w.bound q m).2)
      ∧ R.value (w.bound q m).2 (.callable (.closure (w.bound q m).1))
  assign {n : Nat} {w w' : Walker} {target : Ident} {e : Expr} {span : Span} {v : Value} {a : EnvRef} :
    w'.world.store.hasLocal a target.name = true →
    R.visit ⟨n, .expr (.assign target e span), w⟩ → R.kept w w' → R.value w'.world.store v →
    R.kept w' (w'.setStore (w'.world.store.define a target.name v))
  varItem {n : Nat} {w w' : Walker} {name : String} {init : Option Expr} {span : Span} {v : Value} :
    R.visit ⟨n, .statement (.var name init span), w⟩ → R.kept w w' → R.value w'.world.store v →
    R.kept w' (w'.setStore (w'.world.store.define w'.env name v))
      ∧ R.leaves (.var name init span) w' (w'.setStore (w'.world.store.define w'.env name v))
  functionItem {n : Nat} {w : Walker} {decl : FunctionDecl} {span : Span} {s : Store} :
    R.visit ⟨n, .statement (.function decl span), w⟩ →
    s = w.world.store.define w.env decl.name (.callable (.closure ⟨decl, w.env, false⟩)) →
    R.kept w (w.setStore s) ∧ R.leaves (.function decl span) w (w.setStore s)
  classItem {n : Nat} {w : Walker} {name : String} {parent : Option Ident} {methods : List FunctionDecl}
      {span : Span} {superclass : Option Value} {s : Store} :
    R.visit ⟨n + 1, .statement (.class name parent methods span), w⟩ →
    Option.Rel (fun ident v => Walk.lookup ident w = .ok v w) parent superclass →
    (∀ v ∈ superclass, R.value w.world.store v) →
    Store.declareClass w.env name superclass methods w.world.store = .ok () s →
    R.kept w (w.setStore s) ∧ R.leaves (.class name parent methods span) w (w.setStore s)
  unchanged {w w' : Walker} {i : Item} : i.declared? = none → R.kept w w' → R.leaves i w w'
  later {w w' w'' : Walker} {i : Item} : R.kept w w' → R.leaves i w' w'' → R.leaves i w w''
  -- the rest of the state
  poll {w : Walker} : R.kept w w → R.kept w { w with world := (w.world.poll o).2 }
  count {w w' : Walker} (k : Nat) : R.kept w w' → R.kept w { w' with count := k }
  trace {w w' : Walker} (t : Option (List CallSite)) : R.kept w w' → R.kept w { w' with trace := t }
  /-- A scope that is left again. -/
  scope {w w' : Walker} (e : EnvRef) : R.kept { w with env := e } w' → R.kept w { w' with env := w.env }
  /-- A call that is left again. -/
  call {w w' : Walker} (c : CallSite) : R.kept { w with calls := c :: w.calls } w' →
    R.kept w { w' with calls := w'.calls.tail }
  -- what visits call
  body {n : Nat} {w : Walker} {c : Closure} {args : List Value} {span : Span} :
    R.visit ⟨n + 1, .closure c args span, w⟩ → w.calls.length < o.maxCallDepth →
    R.kept w (w.setStore (w.world.store.callStore c args))
      ∧ R.visit ⟨n, .items c.decl.body, w.inBody c args span⟩
  block {n : Nat} {w : Walker} {items : List Item} {span : Span} :
    R.visit ⟨n + 1, .statement (.block items span), w⟩ →
    R.kept w (w.setStore (w.world.store.newEnv (some w.env)).2) ∧ R.visit ⟨n, .items items, w.inScope⟩
  part {n : Nat} {t t' : Task} {w w' : Walker} : R.visit ⟨n + 1, t, w⟩ →
    Visit.Calls o ⟨n + 1, t, w⟩ ⟨n, t', w'⟩ → t.opens = false → R.kept w w' →
    (∀ v ∈ t'.values, R.value w'.world.store v) → (∀ i ∈ t.passed t', R.leaves i w w') →
    R.visit ⟨n, t', w'⟩

namespace Lawful

variable {R : Regime} {o : Options} {n : Nat} {w w' w₀ : Walker} {P : α → Walker → Prop}
  {Q : β → Walker → Prop} (L : R.Lawful o)
include L

/-! ## How computations are composed -/

omit L in
/-- What a flow carries depends on the store alone. -/
theorem carries_of_store (h : R.Carries flow w) (hs : w'.world.store = w.world.store) :
    R.Carries flow w' := by
  cases flow with
  | «return» v =>
    show R.value w'.world.store v
    rw [hs]
    exact h
  | next | «break» | «continue» => trivial

/-- A computation goes on in the state in which another one has ended. -/
theorem after {r : EStateM.Result Interrupt Walker α} (hk : R.kept w w') (h : R.Holds w' P r) :
    R.Holds w P r :=
  Ends.mono h (fun _ _ ⟨hk', ha⟩ => ⟨L.trans hk hk', ha⟩) fun _ _ ⟨hk', hi⟩ => ⟨L.trans hk hk', hi⟩

theorem bind {x : Walk α} {f : α → Walk β} (hx : R.Holds w₀ P (x w))
    (hf : ∀ a w', x w = .ok a w' → R.kept w₀ w' → P a w' → R.Holds w' Q (f a w')) :
    R.Holds w₀ Q ((x >>= f) w) := by
  rw [Outcome.bind_apply]
  cases h : x w with
  | ok a w' =>
    rw [h] at hx
    exact L.after hx.1 (hf a w' h hx.1 hx.2)
  | error i w' =>
    rw [h] at hx
    exact hx

omit L in
/-- What comes first has succeeded. -/
theorem followed {x : Walk α} {f : α → Walk β} {a : α} (hx : x w = .ok a w')
    (h : R.Holds w₀ Q (f a w')) : R.Holds w₀ Q ((x >>= f) w) := by
  rw [Outcome.bind_apply, hx]
  exact h

omit L in
theorem mono {P' : α → Walker → Prop} {r : EStateM.Result Interrupt Walker α} (h : R.Holds w P r)
    (hP : ∀ a w', R.kept w w' → P a w' → P' a w') : R.Holds w P' r :=
  Ends.mono h (fun a w' ⟨hk, ha⟩ => ⟨hk, hP a w' hk ha⟩) fun _ _ h => h

omit L in
theorem located (hs : R.origin.place span) {act : Walk α} (h : R.Holds w₀ P (act w)) :
    R.Holds w₀ P (Walk.located span act w) := by
  unfold Walk.located
  cases hr : act w with
  | ok a w' =>
    rw [hr] at h
    exact h
  | error i w' =>
    rw [hr] at h
    cases i with
    | fault f => exact ⟨h.1, (h.2.place.locate ⟨_, rfl, hs⟩).from, h.2.cause⟩
    | outOfFuel => exact h

/-- A result that changes nothing. -/
theorem pure (hk : R.kept w₀ w) {a : α} (ha : P a w) : R.Holds w P (.ok a w) := ⟨L.last hk, ha⟩

/-- A fault without a place that changes nothing. -/
theorem fault (hk : R.kept w₀ w) {c : Cause} (hc : c.Dynamic) :
    R.Holds w P (.error (.fault { cause := c }) w) :=
  ⟨L.last hk, Fault.from_unplaced c, L.dynamic hc⟩

/-- A fault that has its place from the start. -/
theorem placed (hk : R.kept w₀ w) {c : Cause} (hc : c.Dynamic) (hspan : R.origin.place span) :
    R.Holds w P (.error (.fault { cause := c, span := span }) w) :=
  ⟨L.last hk, Fault.from_placed c hspan, L.dynamic hc⟩

theorem lift (hk : R.kept w₀ w) {x : Except Cause α} {A : α → Prop} (hx : Yields x A Cause.Dynamic)
    (ha : ∀ a, A a → P a w) : R.Holds w P (Walk.lift x w) := by
  cases x with
  | ok a => exact L.pure hk (ha a hx)
  | error c => exact L.fault hk hx

/-- Nothing is asked of the value on the way. -/
theorem lift_bind (hk : R.kept w₀ w) {x : Except Cause α} {A : α → Prop}
    (hx : Yields x A Cause.Dynamic) {f : α → Walk β}
    (hf : ∀ a, x = .ok a → R.Holds w Q (f a w)) : R.Holds w Q ((Walk.lift x >>= f) w) := by
  cases x with
  | ok a => exact hf a rfl
  | error c => exact L.fault hk hx

/-- A write of the store, which leaves it alone if it fails. -/
theorem onStore (hk : R.kept w₀ w) {act : StoreM Unit} {Q : Unit → Walker → Prop}
    {A : Unit → Store → Prop} (ha : Ends (act w.world.store) A (fun c t => c.Dynamic ∧ t = w.world.store))
    (hs : ∀ s, act w.world.store = .ok () s → R.kept w (w.setStore s) ∧ Q () (w.setStore s)) :
    R.Holds w Q (Walk.onStore act w) := by
  rw [Walk.onStore_apply]
  cases h : act w.world.store with
  | ok u s => exact hs s h
  | error c s =>
    rw [h] at ha
    obtain ⟨hc, rfl⟩ := ha
    exact L.fault hk hc

omit L in
/-- A scope that is left again. -/
theorem inEnv {e : EnvRef} {act : Walk Flow}
    (leave : ∀ {v}, R.kept w₀ v → R.kept w' { v with env := w.env })
    (h : R.Holds w₀ R.Carries (act { w with env := e })) : R.Holds w' R.Carries (Walk.inEnv e act w) := by
  unfold Walk.inEnv
  cases hr : act { w with env := e } with
  | ok flow v =>
    rw [hr] at h
    exact ⟨leave h.1, carries_of_store h.2 rfl⟩
  | error i v =>
    rw [hr] at h
    exact ⟨leave h.1, h.2⟩

/-- A call that is left again. -/
theorem inCall {c : CallSite} {act : Walk Flow}
    (leave : ∀ {v}, R.kept w₀ v → R.kept w' { v with calls := v.calls.tail })
    (h : R.Holds w₀ R.Carries (act { w with calls := c :: w.calls })) :
    R.Holds w' R.Carries (Walk.inCall c act w) := by
  unfold Walk.inCall
  cases hr : act { w with calls := c :: w.calls } with
  | ok flow v =>
    rw [hr] at h
    exact ⟨leave h.1, carries_of_store h.2 rfl⟩
  | error i v =>
    rw [hr] at h
    cases i with
    | fault f => exact ⟨L.trace _ (leave h.1), h.2⟩
    | outOfFuel => exact ⟨leave h.1, h.2⟩

theorem attempt {act : Walk α} (h : R.Holds w₀ P (act w)) :
    R.Holds w₀ (fun _ _ => True) (Walk.attempt act w) := by
  unfold Walk.attempt
  cases hr : act w with
  | ok a w₁ =>
    rw [hr] at h
    exact ⟨h.1, trivial⟩
  | error i w₁ =>
    rw [hr] at h
    cases i with
    | fault f => exact ⟨L.trace _ h.1, trivial⟩
    | outOfFuel => exact h

/-! ## The calls of a visit -/

section Calls

variable {t t' u : Task}

/-- A call that is about no values and comes after no item. -/
theorem piece (hv : R.visit ⟨n + 1, t, w⟩) (hc : Visit.Calls o ⟨n + 1, t, w⟩ ⟨n, t', w'⟩)
    (hk : R.kept w w') (hopens : t.opens = false := by rfl) (hvalues : t'.values = [] := by rfl)
    (hpassed : t.passed t' = none := by rfl) :
    R.visit ⟨n, t', w'⟩ ∧ (t.opens = false → R.kept w w') := by
  refine ⟨L.part hv hc hopens hk (fun v h => ?_) fun i h => ?_, fun _ => hk⟩
  · exact absurd (hvalues ▸ h) List.not_mem_nil
  · exact nomatch hpassed ▸ h

/-- Such a call has ended. -/
theorem ended (ih : R.HoldsAt o n) (hv : R.visit ⟨n + 1, t, w⟩) {w₁ : Walker}
    (hc : Visit.Calls o ⟨n + 1, t, w⟩ ⟨n, u, w₁⟩) (hk : R.kept w w₁) {r : u.Result}
    (hr : u.run o n w₁ = .ok r w') (hopens : t.opens = false := by rfl)
    (hvalues : u.values = [] := by rfl) (hpassed : t.passed u = none := by rfl) :
    R.kept w w' ∧ R.Gives w₁ u r w' := by
  have h := ih u w₁ (L.piece hv hc hk hopens hvalues hpassed).1
  rw [hr] at h
  exact ⟨L.trans hk h.1, h.2⟩

/-- What a visit calls is visited as is asked, and up to there the state is kept. -/
theorem calls_of (ih : R.HoldsAt o n) (hv : R.visit ⟨n + 1, t, w⟩)
    (hc : Visit.Calls o ⟨n + 1, t, w⟩ ⟨n, t', w'⟩) :
    R.visit ⟨n, t', w'⟩ ∧ (t.opens = false → R.kept w w') := by
  have here : R.kept w w := L.here hv
  -- `id` keeps `hc`, which is handed on as it is
  cases id hc with
  | binaryRight left => exact L.piece hv hc (L.ended ih hv .binaryLeft here left).1
  | logicalRight left => exact L.piece hv hc (L.ended ih hv .logicalLeft here left).1
  | callee evaluated => exact L.piece hv hc (L.ended ih hv .args here evaluated).1
  | call evaluated found =>
    obtain ⟨hk, hvs⟩ := L.ended (u := .exprs _) ih hv .args here evaluated
    have h := ih (.expr _) _ (L.piece hv (.callee evaluated) hk).1
    change R.Holds _ _ (Walk.expr o n _ _) at h
    rw [found] at h
    have hk' := L.trans hk h.1
    refine ⟨L.part hv hc rfl hk' (fun v hv => ?_) (fun i hi => by cases hi), fun _ => hk'⟩
    cases hv with
    | head => exact h.2
    | tail _ hv => exact L.carry h.1 (hvs v hv)
  | setFieldValue found => exact L.piece hv hc (L.ended ih hv .setFieldObject here found).1
  | rest evaluated => exact L.piece hv hc (L.ended ih hv .first here evaluated).1
  | closure arity =>
    exact ⟨L.part hv hc rfl here (L.values hv) (fun i hi => by cases hi), fun _ => here⟩
  | init arity found =>
    obtain ⟨hk, hm⟩ := L.bound here found
    refine ⟨L.part hv hc rfl hk (fun v h => ?_) (fun i hi => by cases hi), fun _ => hk⟩
    cases h with
    | head => exact hm
    | tail _ h => exact L.carry hk (L.values hv v (.tail _ h))
  | body room => exact ⟨(L.body hv room).2, fun h => by cases h⟩
  | statement proceeds =>
    rw [Walk.poll_apply] at proceeds
    split at proceeds
    · cases proceeds
    · cases proceeds
      exact L.piece hv hc (L.count _ (L.poll here))
  | restItems executed =>
    have h := L.ended (u := .item _) ih hv .firstItem here executed
    refine ⟨L.part hv hc rfl h.1 (fun v hv => by cases hv) ?_, fun _ => h.1⟩
    rintro i ⟨⟩
    exact h.2.2
  | block => exact ⟨(L.block hv).2, fun h => by cases h⟩
  | ifThen tested holds => exact L.piece hv hc (L.ended ih hv .ifThenTest here tested).1
  | ifElseThen tested holds => exact L.piece hv hc (L.ended ih hv .ifElseTest here tested).1
  | ifElseElse tested fails => exact L.piece hv hc (L.ended ih hv .ifElseTest here tested).1
  | «repeat» counted whole => exact L.piece hv hc (L.ended ih hv .repeatCount here counted).1
  | whileBody tested holds => exact L.piece hv hc (L.ended ih hv .whileTest here tested).1
  | increment tested holds executed proceeds | whileAgain tested holds executed proceeds =>
    have hk := (L.ended ih hv .whileTest here tested).1
    exact L.piece hv hc (L.ended ih hv (.whileBody tested holds) hk executed).1
  | forAgain tested holds executed proceeds incremented =>
    have hk := (L.ended ih hv .whileTest here tested).1
    have hk' := (L.ended ih hv (.whileBody tested holds) hk executed).1
    exact L.piece hv hc (L.ended ih hv (.increment tested holds executed proceeds) hk' incremented).1
  | repeatAgain executed proceeds => exact L.piece hv hc (L.ended ih hv .repeatBody here executed).1
  | restOfProgram executed =>
    have h := L.ended (u := .item _) ih hv .firstOfProgram here executed
    refine ⟨L.part hv hc rfl h.1 (fun v hv => by cases hv) ?_, fun _ => h.1⟩
    rintro i ⟨⟩
    exact h.2.2
  -- the first call of a task
  | _ => exact L.piece hv hc here

end Calls

/-! ## What a task gives

    Each task keeps to what is asked if those that it calls do. -/

section Step

/-- The calls of a visit keep to what is asked. -/
def CallsHold (R : Regime) (o : Options) (n : Nat) (t : Task) (w : Walker) : Prop :=
  ∀ {t' : Task} {w' : Walker}, Visit.Calls o ⟨n + 1, t, w⟩ ⟨n, t', w'⟩ →
    R.Holds w' (R.Gives w' t') (t'.run o n w')

theorem lookup (hk : R.kept w₀ w) (ident : Ident) :
    R.Holds w (fun v w' => w' = w ∧ R.value w.world.store v) (Walk.lookup ident w) := by
  have hy : Yields (w.lookup ident.name (w.distance? ident)) (R.value w.world.store) Cause.Dynamic := by
    cases w.distance? ident with
    | some d => exact L.getAt w.env ident.name d (L.last hk)
    | none => exact L.get w.globals ident.name (L.last hk)
  rw [Walk.lookup_apply]
  cases hv : w.lookup ident.name (w.distance? ident) with
  | ok v =>
    rw [hv] at hy
    exact L.pure hk ⟨rfl, hy⟩
  | error c =>
    rw [hv] at hy
    exact L.fault hk hy

theorem findMember (hk : R.kept w₀ w) (v : Value) (name : String) :
    R.Holds w R.Fits (Walk.member v name w) := by
  cases v with
  | object r =>
    rw [Walk.member_apply]
    have hsound := w.world.store.findMember_sound r name
    cases hm : w.world.store.findMember r name with
    | ok m => exact L.member (L.last hk) hm
    | error c =>
      rw [hm] at hsound
      exact L.fault hk hsound
  | nil | bool | number | string | list | callable => exact L.fault hk rfl

theorem superMethod (hk : R.kept w₀ w) (ident : Ident) (name : String) :
    R.Holds w R.Fits (Walk.superMethod ident name w) := by
  cases hd : w.distance? ident with
  | none =>
    have hd : w.distances.get? ident.id = none := hd
    simp only [Walk.superMethod, Walk.get_bind, hd]
    exact L.fault hk rfl
  | some d =>
    rw [Walk.superMethod_apply hd]
    have hsound := w.world.store.findSuper_sound w.env d name
    cases hm : w.world.store.findSuper w.env d name with
    | ok m => exact L.superMember (L.last hk) hm
    | error c =>
      rw [hm] at hsound
      exact L.fault hk hsound

/-- The value of an operation, which is inert. -/
theorem operation (hk : R.kept w₀ w) {x : Except Cause Value} (hx : Yields x Value.Inert Cause.Dynamic) :
    R.Holds w R.Fits (Walk.lift x w) :=
  L.lift hk hx fun _ hv => L.inert hv

theorem assigned {target : Ident} {v : Value} (hk : R.kept w₀ w)
    (hset : ∀ a, w.world.store.hasLocal a target.name = true →
      R.kept w (w.setStore (w.world.store.define a target.name v))) (hv : R.Fits v w) :
    R.Holds w R.Fits ((do Walk.assign target v; return v : Walk Value) w) := by
  have hsound : Yields (w.holder target.name (w.distance? target))
      (fun a => w.world.store.hasLocal a target.name = true) Cause.Dynamic := by
    cases w.distance? target with
    | none => exact w.world.store.holder_sound _ _
    | some d => exact w.world.store.holderAt_sound _ _ _
  rw [Outcome.bind_apply, Walk.assign_apply]
  cases hr : w.holder target.name (w.distance? target) with
  | error c =>
    rw [hr] at hsound
    exact L.fault hk hsound
  | ok a =>
    rw [hr] at hsound
    exact ⟨hset a hsound, L.carry (hset a hsound) hv⟩

theorem expr {e : Expr} (hv : R.visit ⟨n + 1, .expr e, w⟩) (child : CallsHold R o n (.expr e) w) :
    R.Holds w R.Fits (Walk.expr o (n + 1) e w) := by
  have here : R.kept w w := L.here hv
  unfold Walk.expr
  refine located (L.places hv _ e.span_mem_spans) ?_
  cases e with
  | literal value span => exact L.operation here (Value.ofLiteral_inert value)
  | list elements span =>
    exact L.bind (child .list) fun vs w₁ _ hk hvs => ⟨L.list (L.last hk) hvs, L.inert trivial⟩
  | name ident span | this ident span =>
    refine mono (L.lookup here ident) ?_
    rintro v w' - ⟨rfl, hv⟩
    exact hv
  | assign target value span =>
    exact L.bind (child .assign) fun v w₁ _ hk hx => L.assigned hk (fun _ ha => L.assign ha hv hk hx) hx
  | unary op operand span =>
    exact L.bind (child .unary) fun v w₁ _ hk _ => L.operation hk (w₁.world.store.unary_inert op v)
  | binary left op right span =>
    refine L.bind (child .binaryLeft) fun l w₁ hl _ _ => ?_
    exact L.bind (child (.binaryRight hl)) fun r w₂ _ hk _ =>
      L.operation hk (w₂.world.store.binary_inert op l r)
  | logical left op right span =>
    refine L.bind (child .logicalLeft) fun l w₁ hl _ _ => ?_
    exact L.bind (child (.logicalRight hl)) fun r w₂ _ hk _ =>
      L.operation hk (w₂.world.store.logical_inert op l r)
  | group inner span => exact child .group
  | call callee args span =>
    refine L.bind (child .args) fun vs w₁ hvs _ _ => ?_
    exact L.bind (child (.callee hvs)) fun f w₂ hf _ _ => child (.call hvs hf)
  | getField object field span =>
    exact L.bind (child .getField) fun v w₁ _ hk _ => L.findMember hk v field
  | setField object field value span =>
    refine L.bind (child .setFieldObject) fun x w₁ hx hk _ => ?_
    cases x with
    | object r =>
      refine L.bind (x := Walk.expr o n value) (child (.setFieldValue hx)) fun v w₂ _ hk₂ hv => ?_
      have hset := L.field r field (L.last hk₂) hv
      exact ⟨hset, L.carry hset hv⟩
    | nil | bool | number | string | list | callable => exact L.fault hk rfl
  | super ident method span => exact L.superMethod here ident method

theorem exprs {es : List Expr} (hv : R.visit ⟨n + 1, .exprs es, w⟩)
    (child : CallsHold R o n (.exprs es) w) :
    R.Holds w (fun vs w' => ∀ v ∈ vs, R.Fits v w') (Walk.exprs o (n + 1) es w) := by
  cases es with
  | nil => exact L.pure (L.here hv) fun v h => nomatch h
  | cons e es =>
    rw [Walk.exprs]
    refine L.bind (child .first) fun v w₁ he _ hv => ?_
    refine L.bind (child (.rest he)) fun vs w₂ _ hk hvs => ?_
    exact L.pure hk (List.forall_mem_cons.2 ⟨L.carry hk hv, hvs⟩)

theorem callNative {f : Native} (hv : R.visit ⟨n, .call (.callable (.native f)) args span, w⟩) :
    R.Holds w R.Fits (Walk.native o f args w) := by
  have h := L.native f (L.here hv) fun v h => L.values hv v (.tail _ h)
  unfold Walk.native
  change Ends (NativeM.call o f args w.world) _ _ at h
  cases hr : NativeM.call o f args w.world with
  | ok v world =>
    rw [hr] at h
    exact h
  | error f world =>
    rw [hr] at h
    exact h

theorem callValue {callee : Value} (hv : R.visit ⟨n + 1, .call callee args span, w⟩)
    (child : CallsHold R o n (.call callee args span) w) :
    R.Holds w R.Fits (Walk.call o (n + 1) callee args span w) := by
  have here : R.kept w w := L.here hv
  cases callee with
  | callable c =>
    cases ha : w.world.store.checkArity c args.length with
    | error cause =>
      have hsound := w.world.store.checkArity_sound c args.length
      rw [ha] at hsound
      rw [Walk.call_error ha]
      exact L.fault here hsound
    | ok u =>
      cases c with
      | native f =>
        rw [Walk.call_native]
        exact L.callNative hv
      | closure c =>
        rw [Walk.call_closure ha]
        exact child (.closure ha)
      | classRef q =>
        cases hm : (w.world.store.newInstance q).2.findMethod? q "init" with
        | none =>
          rw [Walk.call_class ha hm]
          exact ⟨L.newInstance q here, L.inert trivial⟩
        | some m =>
          rw [Walk.call_init ha hm]
          refine L.after (L.bound here hm).1 (L.bind (child (.init ha hm)) fun _ w₁ _ hk _ => ?_)
          exact L.pure hk (L.inert trivial)
  | nil | bool | number | string | list | object => exact L.fault here rfl

theorem callResult (hk : R.kept w₀ w) (c : Closure) (hflow : R.Carries flow w) :
    R.Holds w R.Fits (Walk.callResult c flow w) := by
  unfold Walk.callResult
  split
  · exact L.lift hk (L.getAt c.env "this" 0 (L.last hk)) fun v hv => hv
  · cases flow with
    | «return» v => exact L.pure hk hflow
    | next | «break» | «continue» => exact L.pure hk (L.inert trivial)

theorem closure {c : Closure} (hv : R.visit ⟨n + 1, .closure c args span, w⟩)
    (child : CallsHold R o n (.closure c args span) w) :
    R.Holds w R.Fits (Walk.closure o (n + 1) c args span w) := by
  rcases Nat.lt_or_ge w.calls.length o.maxCallDepth with hroom | hfull
  · rw [Walk.closure_body hroom]
    refine L.after (L.body hv hroom).1 (L.bind (L.inCall (L.call _) (inEnv (L.scope _)
      (child (.body hroom)))) ?_)
    exact fun flow w₁ _ hk hflow => L.callResult hk c hflow
  · rw [Walk.closure_full hfull]
    exact L.fault (L.here hv) rfl

theorem item {i : Item} (hv : R.visit ⟨n + 1, .item i, w⟩) (child : CallsHold R o n (.item i) w) :
    R.Holds w (R.Gives w (.item i)) (Walk.item o (n + 1) i w) := by
  have hspan : R.origin.place i.span := L.places hv _ i.span_mem_spans
  have hpoll := L.poll (L.here hv)
  rw [Walk.item, Outcome.bind_apply]
  cases hw : Walk.poll o i.span w with
  | ok u w₁ =>
    have hchild := child (.statement hw)
    rw [Walk.poll_apply] at hw
    split at hw
    · cases hw
    · cases hw
      have hk := L.count (w.count + 1) hpoll
      exact L.after hk (located hspan (mono hchild fun _ _ _ h => ⟨h.1, L.later hk h.2⟩))
  | error f w₁ =>
    rw [Walk.poll_apply] at hw
    split at hw
    · cases hw
      exact ⟨hpoll, Fault.from_placed _ hspan, L.dynamic rfl⟩
    · cases hw

/-- What is left of a list of items after one of them. -/
theorem restItems {is : List Item} : R.kept w₀ w → R.Carries flow w →
    (flow = .next → R.Holds w R.Carries (Walk.items o n is w)) →
    R.Holds w R.Carries ((match flow with
      | .next => Walk.items o n is
      | flow => Pure.pure flow : Walk Flow) w) := by
  intro hk hflow hrest
  cases flow with
  | next => exact hrest rfl
  | «return» | «break» | «continue» => exact L.pure hk hflow

theorem items {is : List Item} (hv : R.visit ⟨n + 1, .items is, w⟩)
    (child : CallsHold R o n (.items is) w) :
    R.Holds w R.Carries (Walk.items o (n + 1) is w) := by
  cases is with
  | nil => exact L.pure (L.here hv) trivial
  | cons i is =>
    rw [Walk.items]
    refine L.bind (child .firstItem) fun flow w₁ hi hk hflow => L.restItems hk hflow.1 ?_
    rintro rfl
    exact child (.restItems hi)

theorem condition (hk : R.kept w₀ w) (v : Value) (hspan : R.origin.place span) :
    R.Holds w (fun b w' => w' = w ∧ w.world.store.truth v = .ok b) (Walk.condition v span w) := by
  rw [Walk.condition_apply]
  cases hb : w.world.store.truth v with
  | ok b => exact L.pure hk ⟨rfl, rfl⟩
  | error c =>
    have hsound := w.world.store.truth_sound v
    rw [hb] at hsound
    exact L.placed hk hsound hspan

/-- What depends on a condition. -/
theorem branch {f : Bool → Walk α} (hk : R.kept w₀ w) {v : Value} (hspan : R.origin.place span)
    (hf : ∀ b, w.world.store.truth v = .ok b → R.Holds w P (f b w)) :
    R.Holds w P ((Walk.condition v span >>= f) w) := by
  refine L.bind (L.condition hk v hspan) ?_
  rintro b w' - - ⟨rfl, hb⟩
  exact hf b hb

/-- What depends on a number of rounds. -/
theorem counted {f : Nat → Walk α} (hk : R.kept w₀ w) {v : Value} (hspan : R.origin.place span)
    (hf : ∀ times, w.world.store.rounds v = .ok times → R.Holds w P (f times w)) :
    R.Holds w P ((do f (← Walk.located span (Walk.lift ((← Walk.store).rounds v))) : Walk α) w) := by
  rw [Walk.store_bind]
  cases ht : w.world.store.rounds v with
  | ok times => exact hf times ht
  | error c =>
    have hsound := w.world.store.rounds_sound v
    rw [ht] at hsound
    exact L.placed hk hsound hspan

theorem asserted (hk : R.kept w₀ w) (v : Value) (message : Option String) :
    R.Holds w R.Carries ((do
      if ← Walk.lift ((← Walk.store).truth v) then return .next
      else Walk.fail (.assertionFailed message) : Walk Flow) w) := by
  rw [Walk.store_bind]
  refine L.lift_bind hk (w.world.store.truth_sound v) fun b _ => ?_
  cases b with
  | true => exact L.pure hk trivial
  | false => exact L.fault hk rfl

theorem checkFailure (hk : R.kept w₀ w) (message : Option String) (attempted : Except Fault Bool) :
    R.Holds w R.Carries
      (Walk.checkFailure message attempted w) := by
  unfold Walk.checkFailure
  split
  · exact L.fault hk rfl
  · split
    · exact L.pure hk trivial
    · split
      · exact L.pure hk trivial
      · exact L.fault hk rfl

/-- An assertion that an expression fails. -/
theorem failing {x : Walk Value} (hspan : R.origin.place span) (message : Option String)
    {P : Value → Walker → Prop} (h : R.Holds w₀ P (x w)) :
    R.Holds w₀ R.Carries ((do
      let attempted ← Walk.attempt (do Walk.condition (← x) span)
      Walk.checkFailure message attempted : Walk Flow) w) := by
  have hcond : R.Holds w₀ (fun _ _ => True) ((x >>= (Walk.condition · span)) w) :=
    L.bind h fun v w₁ _ hk _ => mono (L.condition hk v hspan) fun _ _ _ _ => trivial
  exact L.bind (L.attempt hcond) fun attempted w₁ _ hk _ => L.checkFailure hk message attempted

/-- An item that declares nothing. -/
theorem undeclared {i : Item} {r : EStateM.Result Interrupt Walker Flow} (hi : i.declared? = none)
    (h : R.Holds w R.Carries r) :
    R.Holds w (R.Gives w (.statement i)) r :=
  mono h fun _ _ hk hflow => ⟨hflow, L.unchanged hi hk⟩

/-- A variable gets its first value. -/
theorem declareVar {name : String} {init : Option Expr} {v : Value}
    (hv : R.visit ⟨n, .statement (.var name init span), w⟩) (hk : R.kept w w')
    (hx : R.value w'.world.store v) :
    R.Holds w' (R.Gives w' (.statement (.var name init span)))
      ((do
        Walk.onStore (Store.declare (← MonadState.get).env name v)
        return Flow.next : Walk Flow) w') := by
  have h := L.varItem hv hk hx
  rw [Walk.get_bind]
  refine L.bind (P := fun _ w => R.leaves (.var name init span) w' w)
    (L.onStore hk (Store.declare_sound _ _ _ _) fun s hs => ?_) fun _ w₁ _ hk₁ hl => L.pure hk₁ ⟨trivial, hl⟩
  rw [Store.declare_apply] at hs
  split at hs
  · cases hs
  · cases hs
    exact h

/-- A class statement, once its superclass is known. -/
theorem declareClass {name : String} {parent : Option Ident} {methods : List FunctionDecl}
    {superclass : Option Value}
    (hv : R.visit ⟨n + 1, .statement (.class name parent methods span), w⟩)
    (hp : Option.Rel (fun ident v => Walk.lookup ident w = .ok v w) parent superclass)
    (hs : ∀ v ∈ superclass, R.value w.world.store v) :
    R.Holds w (R.Gives w (.statement (.class name parent methods span)))
      ((do
        Walk.onStore (Store.declareClass (← MonadState.get).env name superclass methods)
        return Flow.next : Walk Flow) w) := by
  rw [Walk.get_bind]
  exact L.bind (P := fun _ w₁ => R.leaves (.class name parent methods span) w w₁)
    (L.onStore (L.here hv) (Store.declareClass_sound _ _ _ _ _) fun s hd => L.classItem hv hp hs hd)
    fun _ w₁ _ hk hl => L.pure hk ⟨trivial, hl⟩

theorem statement {i : Item} (hv : R.visit ⟨n + 1, .statement i, w⟩)
    (child : CallsHold R o n (.statement i) w) :
    R.Holds w (R.Gives w (.statement i)) (Walk.statement o (n + 1) i w) := by
  have here : R.kept w w := L.here hv
  have hplaces := L.places hv
  unfold Walk.statement
  cases i with
  | expr e span =>
    exact L.undeclared rfl (L.bind (child .exprItem) fun _ w₁ _ hk _ => L.pure hk trivial)
  | var name init span =>
    cases init with
    | none => exact L.declareVar hv here (L.inert trivial)
    | some e =>
      refine L.bind (child .var) fun v w₁ _ hk hx => ?_
      exact mono (L.declareVar hv hk hx) fun _ _ _ h => ⟨h.1, L.later hk h.2⟩
  | block body span =>
    exact L.undeclared rfl (L.after (L.block hv).1 (inEnv (L.scope _) (child .block)))
  | ifThen c thenItem span =>
    have hc : R.origin.place c.span := hplaces _ (.tail _ (List.mem_append_left _ c.span_mem_spans))
    refine L.undeclared rfl (L.bind (child .ifThenTest) fun v w₁ hv hk _ => ?_)
    refine L.branch hk hc fun b hb => ?_
    cases b with
    | true => exact mono (child (.ifThen hv hb)) fun _ _ _ h => h.1
    | false => exact L.pure hk trivial
  | ifElse c thenItem elseItem span =>
    have hc : R.origin.place c.span := hplaces _ (.tail _ (List.mem_append_left _ c.span_mem_spans))
    refine L.undeclared rfl (L.bind (child .ifElseTest) fun v w₁ hv hk _ => ?_)
    refine L.branch hk hc fun b hb => ?_
    cases b with
    | true => exact mono (child (.ifElseThen hv hb)) fun _ _ _ h => h.1
    | false => exact mono (child (.ifElseElse hv hb)) fun _ _ _ h => h.1
  | «while» c body increment span => exact L.undeclared rfl (child .while)
  | «repeat» count body span =>
    have hc : R.origin.place count.span :=
      hplaces _ (.tail _ (List.mem_append_left _ count.span_mem_spans))
    refine L.undeclared rfl (L.bind (child .repeatCount) fun v w₁ hv hk _ => ?_)
    exact L.counted hk hc fun times ht => child (.repeat hv ht)
  | «return» value span =>
    refine L.undeclared rfl ?_
    cases value with
    | none => exact L.pure here (L.inert trivial)
    | some e => exact L.bind (child .return) fun v w₁ _ hk hv => L.pure hk hv
  | «break» span | «continue» span => exact L.undeclared rfl (L.pure here trivial)
  | assert c message span =>
    exact L.undeclared rfl (L.bind (child .assert) fun v w₁ _ hk _ => L.asserted hk v message)
  | assertFails e message span =>
    have hc : R.origin.place e.span := hplaces _ (.tail _ e.span_mem_spans)
    exact L.undeclared rfl (L.failing hc message (child .assertFails))
  | function decl span =>
    have h := L.functionItem hv rfl
    exact ⟨h.1, trivial, h.2⟩
  | «class» name parent methods span =>
    cases parent with
    | none => exact L.declareClass hv .none fun v h => nomatch h
    | some ident =>
      refine L.bind (P := fun x w₁ => w₁ = w ∧ ∃ v, x = some v ∧ Walk.lookup ident w = .ok v w
        ∧ R.value w.world.store v) ?_ ?_
      · have hl := L.lookup here ident
        rw [Outcome.map_apply]
        cases hr : Walk.lookup ident w with
        | ok x w₁ =>
          rw [hr] at hl
          obtain ⟨hk, rfl, hx⟩ := hl
          exact ⟨hk, rfl, x, rfl, rfl, hx⟩
        | error f w₁ =>
          rw [hr] at hl
          exact hl
      · rintro x w₁ - - ⟨rfl, v, rfl, hl, hx⟩
        refine L.declareClass hv (.some hl) ?_
        rintro y ⟨⟩
        exact hx

/-- What is left of a loop after a round of its body. -/
theorem afterRound {rest : Walk Flow} : R.kept w₀ w → R.Carries flow w →
    (Walk.afterRound flow = none → R.Holds w R.Carries (rest w)) →
    R.Holds w R.Carries ((match Walk.afterRound flow with
      | some flow => Pure.pure flow
      | none => rest : Walk Flow) w) := by
  intro hk hflow hrest
  cases flow with
  | next | «continue» => exact hrest rfl
  | «break» | «return» => exact L.pure hk hflow

theorem whileLoop {c : Expr} {body : Item} {increment : Option Expr}
    (hv : R.visit ⟨n + 1, .whileLoop c body increment, w⟩)
    (child : CallsHold R o n (.whileLoop c body increment) w) :
    R.Holds w R.Carries (Walk.whileLoop o (n + 1) c body increment w) := by
  have hc : R.origin.place c.span := L.places hv _ (List.mem_append_left _ c.span_mem_spans)
  unfold Walk.whileLoop
  refine L.bind (child .whileTest) fun v w₁ hx hk _ => ?_
  refine L.branch hk hc fun b hb => ?_
  cases b with
  | false => exact L.pure hk trivial
  | true =>
    refine L.bind (child (.whileBody hx hb)) fun flow w₂ hflow hk₂ hcarries => ?_
    refine L.afterRound hk₂ hcarries.1 fun hround => ?_
    cases increment with
    | none => exact child (.whileAgain hx hb hflow hround)
    | some e =>
      refine L.bind (child (.increment hx hb hflow hround)) fun y w₃ hy _ _ => ?_
      exact child (.forAgain hx hb hflow hround hy)

theorem repeatLoop {times : Nat} {body : Item} (hv : R.visit ⟨n + 1, .repeatLoop times body, w⟩)
    (child : CallsHold R o n (.repeatLoop times body) w) :
    R.Holds w R.Carries (Walk.repeatLoop o (n + 1) times body w) := by
  cases times with
  | zero => exact L.pure (L.here hv) trivial
  | succ times =>
    rw [Walk.repeatLoop]
    exact L.bind (child .repeatBody) fun flow w₁ hflow hk hcarries =>
      L.afterRound hk hcarries.1 fun hround => child (.repeatAgain hflow hround)

theorem program {is : List Item} (hv : R.visit ⟨n + 1, .program is, w⟩)
    (child : CallsHold R o n (.program is) w) :
    R.Holds w (fun _ _ => True) (Walk.program o (n + 1) is w) := by
  cases is with
  | nil => exact L.pure (L.here hv) trivial
  | cons i is =>
    rw [Walk.program]
    exact L.bind (child .firstOfProgram) fun flow w₁ hi _ _ => child (.restOfProgram hi)

end Step

/-- Whatever the fuel, tasks keep to what is asked. -/
theorem holds (n : Nat) : R.HoldsAt o n := by
  induction n with
  | zero =>
    intro t w hv
    cases t <;> exact ⟨L.here hv, trivial⟩
  | succ n ih =>
    intro t w hv
    have child : CallsHold R o n t w := fun hc => ih _ _ (L.calls_of ih hv hc).1
    cases t with
    | expr e => exact L.expr hv child
    | exprs es => exact L.exprs hv child
    | call callee args span => exact L.callValue hv child
    | closure c args span => exact L.closure hv child
    | item i => exact L.item hv child
    | items is => exact L.items hv child
    | statement i => exact L.statement hv child
    | whileLoop c body increment => exact L.whileLoop hv child
    | repeatLoop times body => exact L.repeatLoop hv child
    | program is => exact L.program hv child

/-- What a visit calls is visited as is asked, and up to there the state is kept. -/
theorem calls {v u : Visit} (hv : R.visit v) (hc : v.Calls o u) :
    R.visit u ∧ (v.task.opens = false → R.kept v.state u.state) := by
  obtain ⟨m, t, w⟩ := v
  obtain ⟨n, t', w'⟩ := u
  obtain rfl : m = n + 1 := by cases hc <;> rfl
  exact L.calls_of (L.holds n) hv hc

end Lawful

end Walker.Regime

end Eleu
