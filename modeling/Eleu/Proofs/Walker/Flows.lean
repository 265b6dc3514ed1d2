import Eleu.Proofs.Machine.FaultFree
import Eleu.Proofs.Scope.Exact
import Eleu.Proofs.Walker.Restored
import Eleu.Proofs.Walker.Sound

/-! # Control flow stays where it belongs

    How a statement can end is a matter of where it stands: only inside a loop does it end with
    `break` or `continue`, only inside a function does it return, and in an initialiser it returns
    no value (`Flow.Allowed`). This follows from the text alone, whatever the state of the walker
    (`flowsAt`). What remains is that a walker runs no other functions than those of the texts it
    was given, all of which the resolver has accepted (`Phase.Reachable.ready`). -/

namespace Eleu

/-- How an item may end that stands in a function of the given role, or else in the program, and perhaps
    in a loop. -/
def Flow.Allowed (role : Option FunctionRole) (loop : Bool) : Flow → Prop
  | .next => True
  | .break | .continue => loop = true
  | .return v =>
    match role with
    | none => False
    | some .initialiser => v = .nil
    | some _ => True

namespace Flow.Allowed

variable {role : Option FunctionRole} {loop : Bool} {flow r : Flow}

/-- What may end an item outside loops may end it inside. -/
theorem anywhere (h : flow.Allowed role false) : flow.Allowed role loop := by
  cases flow with
  | next => trivial
  | «return» v => exact h
  | «break» | «continue» => exact nomatch h

/-- A loop catches what its body may not hand on. -/
theorem afterRound (h : flow.Allowed role true) (hr : Walk.afterRound flow = some r) :
    r.Allowed role false := by
  cases flow with
  | next | «continue» => exact nomatch hr
  | «break» => exact Option.some.inj hr ▸ trivial
  | «return» v => exact Option.some.inj hr ▸ h

/-- A return without a value gives nil. -/
theorem ofReturn {value : Option Expr} {v : Value} (h : MayReturn value role)
    (hv : value = none → v = .nil) : (Flow.return v).Allowed role loop := by
  cases role with
  | none => exact h
  | some role =>
    cases role with
    | initialiser => exact hv h
    | function | method => trivial

/-- At the level of the program there is nothing but to go on. -/
theorem eq_next (h : flow.Allowed none false) : flow = .next := by
  cases flow with
  | next => rfl
  | «return» | «break» | «continue» => exact nomatch h

end Flow.Allowed

/-! ## Flows of composed computations -/

namespace Walk

variable {α : Type} {P Q : Flow → Prop}

/-- If the computation has a result, it satisfies `P`. -/
def EndsBy (P : Flow → Prop) (x : Walk Flow) : Prop := ∀ w flow w', x w = .ok flow w' → P flow

namespace EndsBy

theorem mono {x : Walk Flow} (hx : EndsBy P x) (h : ∀ flow, P flow → Q flow) : EndsBy Q x :=
  fun w flow w' hr => h flow (hx w flow w' hr)

theorem pure {flow : Flow} (h : P flow) : EndsBy P (Pure.pure flow) := by
  intro w flow' w' hr
  cases hr
  exact h

theorem throw (i : Interrupt) : EndsBy P (throw i) := fun _ _ _ hr => nomatch hr

/-- What comes first does not matter, unless it is a flow itself. -/
theorem bind {x : Walk α} {f : α → Walk Flow} (hf : ∀ a, EndsBy P (f a)) : EndsBy P (x >>= f) := by
  intro w flow w' hr
  rw [Outcome.bind_apply] at hr
  cases hx : x w with
  | ok a w₁ =>
    rw [hx] at hr
    exact hf a w₁ flow w' hr
  | error i w₁ =>
    rw [hx] at hr
    exact nomatch hr

theorem bind_flow {x : Walk Flow} {f : Flow → Walk Flow} (hx : EndsBy Q x)
    (hf : ∀ flow, Q flow → EndsBy P (f flow)) : EndsBy P (x >>= f) := by
  intro w flow w' hr
  rw [Outcome.bind_apply] at hr
  cases h : x w with
  | ok first w₁ =>
    rw [h] at hr
    exact hf first (hx w first w₁ h) w₁ flow w' hr
  | error i w₁ =>
    rw [h] at hr
    exact nomatch hr

theorem ite {c : Prop} [Decidable c] {x y : Walk Flow} (hx : EndsBy P x) (hy : EndsBy P y) :
    EndsBy P (if c then x else y) := by
  split
  · exact hx
  · exact hy

theorem located {x : Walk Flow} {span : Span} (hx : EndsBy P x) : EndsBy P (located span x) := by
  intro w flow w' hr
  unfold Walk.located at hr
  cases h : x w with
  | ok first w₁ =>
    rw [h] at hr
    cases hr
    exact hx w _ _ h
  | error i w₁ =>
    rw [h] at hr
    cases i <;> exact nomatch hr

theorem inEnv {x : Walk Flow} {e : EnvRef} (hx : EndsBy P x) : EndsBy P (inEnv e x) := by
  intro w flow w' hr
  unfold Walk.inEnv at hr
  cases h : x { w with env := e } with
  | ok first w₁ =>
    rw [h] at hr
    cases hr
    exact hx _ _ _ h
  | error i w₁ =>
    rw [h] at hr
    exact nomatch hr

/-- An assertion that an expression fails goes on or fails itself. -/
theorem checkFailure (message : Option String) (attempted : Except Fault Bool) (h : P .next) :
    EndsBy P (checkFailure message attempted) := by
  unfold Walk.checkFailure
  cases attempted with
  | ok b => exact .throw _
  | error f =>
    cases message with
    | none => exact .pure h
    | some expected => exact .ite (.pure h) (.throw _)

end EndsBy

end Walk

/-! ## Flows of items -/

open Walk (EndsBy)

/-- With the given fuel, items that follow the rules end only as they may. -/
structure FlowsAt (R : Rules) (d : Distances) (o : Options) (n : Nat) : Prop where
  item : ∀ {i role loop Γ}, Item.Follows R d role loop Γ i →
    EndsBy (Flow.Allowed role loop) (Walk.item o n i)
  items : ∀ {is role loop Γ}, itemsFollow R d role loop Γ is →
    EndsBy (Flow.Allowed role loop) (Walk.items o n is)
  statement : ∀ {i role loop Γ}, Item.Follows R d role loop Γ i →
    EndsBy (Flow.Allowed role loop) (Walk.statement o n i)
  whileLoop : ∀ {c body increment role Γ}, Item.Follows R d role true Γ body →
    EndsBy (Flow.Allowed role false) (Walk.whileLoop o n c body increment)
  repeatLoop : ∀ {times body role Γ}, Item.Follows R d role true Γ body →
    EndsBy (Flow.Allowed role false) (Walk.repeatLoop o n times body)

namespace FlowsAt

variable {R : Rules} {d : Distances} {o : Options} {n : Nat} {role : Option FunctionRole} {loop : Bool}
  {Γ : Context}

theorem zero : FlowsAt R d o 0 :=
  ⟨fun _ => .throw _, fun _ => .throw _, fun _ => .throw _, fun _ => .throw _, fun _ => .throw _⟩

variable (ih : FlowsAt R d o n)
include ih

/-- Items up to the first that does not go on. -/
theorem itemsSucc {is : List Item} (h : itemsFollow R d role loop Γ is) :
    EndsBy (Flow.Allowed role loop) (Walk.items o (n + 1) is) := by
  cases is with
  | nil => exact .pure trivial
  | cons i is =>
    refine .bind_flow (ih.item h.1) fun flow hflow => ?_
    cases flow with
    | next => exact ih.items h.2
    | «return» | «break» | «continue» => exact .pure hflow

theorem whileSucc {c : Expr} {body : Item} {increment : Option Expr}
    (h : body.Follows R d role true Γ) :
    EndsBy (Flow.Allowed role false) (Walk.whileLoop o (n + 1) c body increment) := by
  refine .bind fun v => .bind fun b => .ite (.bind_flow (ih.item h) fun flow hflow => ?_) (.pure trivial)
  cases hround : Walk.afterRound flow with
  | some r => exact .pure (hflow.afterRound hround)
  | none =>
    cases increment with
    | none => exact ih.whileLoop h
    | some e => exact .bind fun _ => ih.whileLoop h

theorem repeatSucc {times : Nat} {body : Item} (h : body.Follows R d role true Γ) :
    EndsBy (Flow.Allowed role false) (Walk.repeatLoop o (n + 1) times body) := by
  cases times with
  | zero => exact .pure trivial
  | succ times =>
    refine .bind_flow (ih.item h) fun flow hflow => ?_
    cases hround : Walk.afterRound flow with
    | some r => exact .pure (hflow.afterRound hround)
    | none => exact ih.repeatLoop h

theorem statementSucc {i : Item} (h : i.Follows R d role loop Γ) :
    EndsBy (Flow.Allowed role loop) (Walk.statement o (n + 1) i) := by
  unfold Walk.statement
  cases i with
  | expr e span => exact .bind fun _ => .pure trivial
  | var name init span =>
    cases init with
    | none | some e => exact .bind fun _ => .bind fun _ => .bind fun _ => .pure trivial
  | block body span => exact .bind fun _ => .bind fun _ => .inEnv (ih.items h)
  | ifThen c thenItem span => exact .bind fun _ => .bind fun _ => .ite (ih.item h.2.2) (.pure trivial)
  | ifElse c thenItem elseItem span =>
    exact .bind fun _ => .bind fun _ => .ite (ih.item h.2.1.2) (ih.item h.2.2.2)
  -- what comes out of a loop may stand anywhere
  | «while» c body increment span => exact (ih.whileLoop h.2.1.2).mono fun _ => .anywhere
  | «repeat» count body span =>
    exact .bind fun _ => .bind fun _ => .bind fun _ => (ih.repeatLoop h.2.2).mono fun _ => .anywhere
  | «return» value span =>
    cases value with
    | none => exact .pure (.ofReturn h.1 fun _ => rfl)
    | some e =>
      refine .bind fun v => .pure (.ofReturn h.1 fun he => ?_)
      cases he
  | «break» span | «continue» span => exact .pure h
  | assert c message span =>
    exact .bind fun _ => .bind fun _ => .bind fun _ => .ite (.pure trivial) (.throw _)
  | assertFails e message span => exact .bind fun attempted => .checkFailure message attempted trivial
  | function decl span => exact .bind fun _ => .bind fun _ => .pure trivial
  | «class» name parent methods span =>
    cases parent with
    | none | some ident => exact .bind fun _ => .bind fun _ => .bind fun _ => .pure trivial

theorem succ : FlowsAt R d o (n + 1) where
  item h := .bind fun _ => .bind fun _ => .located (ih.statement h)
  items h := ih.itemsSucc h
  statement h := ih.statementSucc h
  whileLoop h := ih.whileSucc h
  repeatLoop h := ih.repeatSucc h

end FlowsAt

/-- Whatever the fuel, items that follow the rules end only as they may. -/
theorem flowsAt (R : Rules) (d : Distances) (o : Options) (n : Nat) : FlowsAt R d o n := by
  induction n with
  | zero => exact .zero
  | succ n ih => exact ih.succ

/-! ## The functions that a walker runs -/

/-- The body of a function that is known in the lax setting follows the lax rules. -/
theorem Setting.lax_covers (d : Distances) : Setting.lax.Covers d := by
  rintro decl Γ ⟨R, d', Γ', hf⟩
  obtain ⟨-, -, -, hbody⟩ := FunctionDecl.follows_iff.1 hf
  have hplain : Context.Plain (decl.scope :: Γ') → Context.Plain (decl.scope :: Γ) := id
  exact ⟨decl.role, items_transfer (R.transfer_lax d' d) decl.body hplain hbody⟩

section Programs

variable {o : Options} {w : Walker} {items : List Item} {d : Distances}

/-- A program that was parsed and resolved follows the lax rules. -/
theorem follows_lax (hp : ∃ r unit file source, parseText r unit file source = .ok items)
    (hr : resolve items = .ok d) (d' : Distances) : itemsFollow .lax d' none false [] items := by
  obtain ⟨r, unit, file, source, hp⟩ := hp
  obtain ⟨hregular, hids⟩ := parseText_tree hp
  exact items_transfer (Rules.transfer_lax _ _ _) items id (resolve_noted hr hregular hids)

/-- Such a program has its place in the global environment. -/
theorem placed_program (hs : w.world.store.Obeys Setting.lax.law)
    (hp : ∃ r unit file source, parseText r unit file source = .ok items)
    (hr : resolve items = .ok d) (fuel : Nat) :
    Visit.Placed .lax ⟨fuel, .program items, w.started d⟩ where
  covers := Setting.lax_covers _
  store := hs
  task := ⟨[], follows_lax hp hr _, trivial⟩

/-- Nothing is asked of the environments that the walker makes. -/
theorem making_lax (v : Visit) : v.Making .lax o := fun _ _ => .all _

/-- All functions in the store of an idle walker come from texts that were accepted. -/
theorem Phase.Reachable.ready (ho : o.TameHost) (h : (Phase.idle w).Reachable o) :
    w.world.store.Ready Setting.lax.law w.globals := by
  refine h.idle_induction (P := fun w => w.world.store.Ready Setting.lax.law w.globals)
    Store.ready_library ?_ ?_ ?_ ?_
  · intro w name params hw
    exact ⟨hw.1.defineNative hw.2 name params .host,
      hw.2.grows (K := Reserved) (.defineNative hw.2 name params .host)⟩
  · intro w lines hw
    show Store.Ready _ _ (World.complainAll _ lines).store
    rw [World.store_complainAll]
    exact hw
  · intro w fuel items f hr hw
    rw [(Walker.sameFrame_run fuel items w).globals, (sameScope_refused (o := o) hr fuel w).1]
    exact hw
  · intro w fuel items d hp hr hw
    have hkept := (Visit.sound ho fuel _ _ (placed_program hw.1 hp hr fuel) (making_lax _)).kept
    rw [(Walker.sameFrame_run fuel items w).globals, (sameScope_reported (o := o) hr fuel w).1]
    exact ⟨hkept.store, hw.2.grows hkept.grows⟩

/-- Whatever program is run after whatever others, no statement of it is left with a return or as if it
    stood in a loop, no body of a function is left as if it stood in a loop, and no body of an
    initialiser returns a value. -/
theorem flow_confined (ho : o.TameHost) (hw : (Phase.idle w).Reachable o) {r : Recovery} {unit : Nat}
    {file source : String} (hp : parseText r unit file source = .ok items) (hr : resolve items = .ok d)
    (fuel : Nat) {v : Visit} (hv : Visit.Leads o ⟨fuel, .program items, w.started d⟩ v) :
    (∀ n i is s, v = ⟨n + 1, .program (i :: is), s⟩ →
      ∀ flow s', Walk.item o n i s = .ok flow s' → flow = .next)
    ∧ ∀ n c args span s, v = ⟨n + 1, .closure c args span, s⟩ →
      ∀ flow s', Walk.items o n c.decl.body (s.inBody c args span) = .ok flow s' →
        flow ≠ .break ∧ flow ≠ .continue ∧ (c.isInit → ∀ x, flow = .return x → x = .nil) := by
  have hstart := placed_program (hw.ready ho).1 ⟨r, unit, file, source, hp⟩ hr fuel
  have hplaced := hstart.leads ho (making_lax _) hv
  constructor
  · rintro n i is s rfl flow s' hitem
    obtain ⟨Γ, hfollows, -⟩ := hplaced.task
    exact ((flowsAt _ _ o n).item hfollows.1 s flow s' hitem).eq_next
  · rintro n c args span s rfl flow s' hbody
    -- the function in question is one of a text that was accepted
    obtain ⟨⟨hinit, -, ⟨R, d', Γ, hfollows⟩, -⟩, -, -⟩ := hplaced.task
    obtain ⟨-, -, -, hfollows⟩ := FunctionDecl.follows_iff.1 hfollows
    have hallowed := (flowsAt R d' o n).items hfollows _ flow s' hbody
    refine ⟨?_, ?_, ?_⟩
    · rintro rfl
      exact nomatch hallowed
    · rintro rfl
      exact nomatch hallowed
    · rintro hi x rfl
      rw [(Setting.isInitialiser_iff c.decl).1 (hinit ▸ hi)] at hallowed
      exact hallowed

end Programs

/-! ## A way to an initialiser -/

namespace Visit

variable {o : Options} {v v' : Visit}

/-- A visit that the given one makes, if it lies on the way from a program to an initialiser that the last
    statement calls. -/
def next? (o : Options) : Visit → Option Visit
  | ⟨n + 1, .program [i], w⟩ => some ⟨n, .item i, w⟩
  | ⟨n + 1, .program (i :: is), w⟩ =>
    (Outcome.result? (Walk.item o n i w)).map fun r => ⟨n, .program is, r.2⟩
  | ⟨n + 1, .item i, w⟩ =>
    (Outcome.result? (Walk.poll o i.span w)).map fun r =>
      ⟨n, .statement i, { r.2 with count := r.2.count + 1 }⟩
  | ⟨n + 1, .statement (.expr e _), w⟩ => some ⟨n, .expr e, w⟩
  | ⟨n + 1, .expr (.call callee args span), w⟩ =>
    (Outcome.result? (Walk.exprs o n args w)).bind fun r =>
      (Outcome.result? (Walk.expr o n callee r.2)).map fun f => ⟨n, .call f.1 r.1 span, f.2⟩
  | ⟨n + 1, .call (.callable (.classRef q)) vs span, w⟩ =>
    (w.world.store.checkArity (.classRef q) vs.length).toOption.bind fun _ =>
      ((w.world.store.newInstance q).2.findMethod? q "init").map fun m =>
        ⟨n, .closure (w.bound q m).1 vs span, w.setStore (w.bound q m).2⟩
  | _ => none

theorem calls_next? (h : v.next? o = some v') : v.Calls o v' := by
  unfold next? at h
  split at h
  · cases h
    exact .firstOfProgram
  · obtain ⟨⟨flow, w'⟩, hitem, rfl⟩ := Option.map_eq_some_iff.1 h
    exact .restOfProgram (Outcome.result?_eq_some.1 hitem)
  · obtain ⟨⟨_, w'⟩, hpoll, rfl⟩ := Option.map_eq_some_iff.1 h
    exact .statement (Outcome.result?_eq_some.1 hpoll)
  · cases h
    exact .exprItem
  · obtain ⟨⟨vs, w'⟩, hargs, h⟩ := Option.bind_eq_some_iff.1 h
    obtain ⟨⟨f, w''⟩, hcallee, rfl⟩ := Option.map_eq_some_iff.1 h
    exact .call (Outcome.result?_eq_some.1 hargs) (Outcome.result?_eq_some.1 hcallee)
  · obtain ⟨_, harity, h⟩ := Option.bind_eq_some_iff.1 h
    obtain ⟨m, hinit, rfl⟩ := Option.map_eq_some_iff.1 h
    exact .init (Outcome.toOption_eq_some.1 harity) hinit
  · cases h

/-- Goes on for the given number of visits. -/
def descend? (o : Options) : Nat → Visit → Option Visit
  | 0, v => some v
  | k + 1, v => (v.next? o).bind (descend? o k)

theorem leads_descend? {k : Nat} (h : v.descend? o k = some v') : Leads o v v' := by
  induction k generalizing v with
  | zero => exact Option.some.inj h ▸ .refl
  | succ k ih =>
    obtain ⟨v₁, hnext, hrest⟩ := Option.bind_eq_some_iff.1 h
    exact .head (calls_next? hnext) (ih hrest)

/-- Whether an initialiser is called, with fuel `n` for its body, which returns. -/
def returnsFromInit (o : Options) (n : Nat) : Visit → Bool
  | ⟨fuel, .closure c args span, w⟩ =>
    fuel == n + 1 && c.isInit
      && (Outcome.result? (Walk.items o n c.decl.body (w.inBody c args span))).any fun r =>
        match r.1 with
        | .return _ => true
        | _ => false
  | _ => false

theorem exists_of_returnsFromInit {n : Nat} (h : v.returnsFromInit o n = true) :
    ∃ c args span w x w', v = ⟨n + 1, .closure c args span, w⟩ ∧ c.isInit = true
      ∧ Walk.items o n c.decl.body (w.inBody c args span) = .ok (.return x) w' := by
  unfold returnsFromInit at h
  split at h
  case h_2 => cases h
  case h_1 fuel c args span w =>
    simp only [Bool.and_eq_true, beq_iff_eq, Option.any_eq_true] at h
    obtain ⟨⟨rfl, hinit⟩, ⟨flow, w'⟩, hbody, hflow⟩ := h
    split at hflow
    case h_2 => cases hflow
    case h_1 x hx =>
      cases hx
      exact ⟨c, args, span, w, x, w', rfl, hinit, Outcome.result?_eq_some.1 hbody⟩

end Visit

/-- A program that makes an instance. Its second statement comes to the body of the initialiser, which
    returns. -/
theorem exists_returning_init : ∃ (items : List Item) (d : Distances) (c : Closure) (args : List Value)
    (span : Span) (w : Walker) (x : Value) (w' : Walker),
    parseText .stop 0 "" "class A { init() { return; } } A();" = .ok items ∧ resolve items = .ok d
      ∧ Visit.Leads {} ⟨20, .program items, Walker.fresh.started d⟩ ⟨14, .closure c args span, w⟩
      ∧ c.isInit = true ∧ Walk.items {} 13 c.decl.body (w.inBody c args span) = .ok (.return x) w' := by
  have hcheck : ((parseText .stop 0 "" "class A { init() { return; } } A();").toOption.any fun items =>
      (resolve items).toOption.any fun d =>
        (Visit.descend? {} 6 ⟨20, .program items, Walker.fresh.started d⟩).any
          (Visit.returnsFromInit {} 13)) = true := by
    decide +kernel
  obtain ⟨items, hparsed, hcheck⟩ := Outcome.any_toOption.1 hcheck
  obtain ⟨d, hresolved, hcheck⟩ := Outcome.any_toOption.1 hcheck
  obtain ⟨v, hv, hreturns⟩ := (Option.any_eq_true _ _).1 hcheck
  obtain ⟨c, args, span, w, x, w', rfl, hinit, hbody⟩ := Visit.exists_of_returnsFromInit hreturns
  exact ⟨items, d, c, args, span, w, x, w', hparsed, hresolved, Visit.leads_descend? hv, hinit, hbody⟩

/-- What the initialiser returns there is nil. -/
theorem flow_confined_init : ∃ (items : List Item) (d : Distances) (c : Closure) (args : List Value)
    (span : Span) (w : Walker) (x : Value) (w' : Walker),
    ({} : Options).TameHost ∧ (Phase.idle .fresh).Reachable {}
      ∧ parseText .stop 0 "" "class A { init() { return; } } A();" = .ok items ∧ resolve items = .ok d
      ∧ Visit.Leads {} ⟨20, .program items, Walker.fresh.started d⟩ ⟨14, .closure c args span, w⟩
      ∧ c.isInit = true ∧ Walk.items {} 13 c.decl.body (w.inBody c args span) = .ok (.return x) w'
      ∧ x = .nil := by
  obtain ⟨items, d, c, args, span, w, x, w', hp, hr, hleads, hinit, hbody⟩ := exists_returning_init
  obtain ⟨-, hbodies⟩ := flow_confined tameHost_default .fresh hp hr 20 hleads
  obtain ⟨-, -, hnil⟩ := hbodies 13 c args span w rfl _ w' hbody
  exact ⟨items, d, c, args, span, w, x, w', tameHost_default, .fresh, hp, hr, hleads, hinit,
    hbody, hnil hinit x rfl⟩

end Eleu
