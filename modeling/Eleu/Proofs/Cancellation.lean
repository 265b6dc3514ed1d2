import Eleu.Proofs.Fresh
import Eleu.Proofs.Walker.Visits
import Mathlib.Data.List.Basic

/-! # Cancellation

    The host is asked before every statement, and before every instruction, whether the run is to
    stop. The machine stops at once. In the walker the order to stop is a fault like any other one on
    its way out: nothing between the statement and the end of the run holds it up (`Walk.Breaks`),
    except for an assertion that awaits a fault. -/

namespace Eleu

/-! ## The world after a stop -/

namespace World

/-- The world after the host has stopped a run in the world `w`. It was asked once more, and nothing
    but errors was written: the fault `f`, and the active calls below it. -/
def stopped (w : World) (f : Fault) (calls : List String) : World :=
  { w with
    polls := w.polls + 1
    journal := { w.journal with err := w.journal.err.push f.text ++ calls.toArray } }

theorem complainAll_eq (w : World) (lines : List String) :
    w.complainAll lines =
      { w with journal := { w.journal with err := w.journal.err ++ lines.toArray } } := by
  induction lines generalizing w with
  | nil => simp [complainAll]
  | cons line lines ih => simp [complainAll, ih, complain]

theorem reportFault_eq (w : World) (o : Options) (f : Fault) (calls : List String) :
    ∃ lines : List String, w.reportFault o f calls =
      { w with journal := { w.journal with err := w.journal.err.push f.text ++ lines.toArray } } := by
  unfold reportFault
  split
  · refine ⟨"Call stack:" :: calls.map ("    at " ++ ·), ?_⟩
    simp [complainAll_eq, complain]
  · exact ⟨[], by simp [complain]⟩

/-- The report of a fault after the host has asked to stop. -/
theorem reportFault_poll {w : World} {o : Options} (h : (w.poll o).1 = true) (f : Fault)
    (calls : List String) : ∃ lines, (w.poll o).2.reportFault o f calls = w.stopped f lines := by
  have hpoll : (w.poll o).2 = { w with polls := w.polls + 1 } := by
    unfold poll at h ⊢
    split at h
    · exact nomatch h
    · rfl
  obtain ⟨lines, hlines⟩ := reportFault_eq (w.poll o).2 o f calls
  refine ⟨lines, hlines.trans ?_⟩
  rw [hpoll]
  rfl

end World

/-! ## A fault on its way out of the walker -/

/-- The outcome is the fault `f`, in the world of `w` and with as many statements executed. -/
def Walk.Breaks {α : Type} (f : Fault) (w : Walker) (r : EStateM.Result Interrupt Walker α) : Prop :=
  ∃ w', r = .error (.fault f) w' ∧ w'.world = w.world ∧ w'.count = w.count

namespace Walk.Breaks

variable {α β : Type} {f : Fault} {w w₀ w₁ : Walker}

theorem bind {x : Walk α} {g : α → Walk β} (h : Breaks f w (x w₀)) : Breaks f w ((x >>= g) w₀) := by
  obtain ⟨w', hx, hkept⟩ := h
  exact ⟨w', by rw [Outcome.bind_apply, hx], hkept⟩

/-- What comes first succeeds. -/
theorem after {x : Walk α} {g : α → Walk β} {a : α} (hx : x w₀ = .ok a w₁)
    (h : Breaks f w (g a w₁)) : Breaks f w ((x >>= g) w₀) := by
  rw [Outcome.bind_apply, hx]
  exact h

/-- The fault keeps the place that it has. -/
theorem located {act : Walk α} {place : Span} (hf : f.span = some place) (span : Span)
    (h : Breaks f w (act w₀)) : Breaks f w (located span act w₀) := by
  obtain ⟨w', hx, hkept⟩ := h
  have hplace : f.locate span = f := by rw [Fault.locate, hf, Option.some_or, ← hf]
  refine ⟨w', ?_, hkept⟩
  rw [Walk.located, hx]
  dsimp only
  rw [hplace]

theorem inEnv {act : Walk α} {e : EnvRef} (h : Breaks f w (act { w₀ with env := e })) :
    Breaks f w (inEnv e act w₀) := by
  obtain ⟨w', hx, hkept⟩ := h
  exact ⟨{ w' with env := w₀.env }, by rw [Walk.inEnv, hx], hkept⟩

theorem inCall {act : Walk α} {call : CallSite}
    (h : Breaks f w (act { w₀ with calls := call :: w₀.calls })) :
    Breaks f w (inCall call act w₀) := by
  obtain ⟨w', hx, hkept⟩ := h
  exact ⟨{ w' with calls := w'.calls.tail, trace := w'.trace.or (some w'.calls) },
    by rw [Walk.inCall, hx], hkept⟩

end Walk.Breaks

namespace Visit

open Walk (Breaks condition_ok located_lift_ok)

variable {o : Options} {v v' : Visit} {f : Fault} {w : Walker}

/-- A visit of an assertion that its expression fails. -/
def Awaits (v : Visit) : Prop :=
  ∃ e message span, v.task = .statement (.assertFails e message span)

/-- A visit leads to another one, and no assertion on the way awaits a fault. -/
abbrev LeadsOpenly (o : Options) : Visit → Visit → Prop :=
  Relation.ReflTransGen fun v v' => v.Calls o v' ∧ ¬ v.Awaits

/-- A fault that has its place comes out of every visit that makes the one in which it arose. -/
theorem breaks_of_calls {place : Span} (hf : f.span = some place) (hc : v.Calls o v')
    (hv : ¬ v.Awaits) (h : Breaks f w (v'.outcome o)) : Breaks f w (v.outcome o) := by
  cases hc with
  | list => exact .located hf _ (.bind h)
  | assign => exact .located hf _ (.bind h)
  | unary => exact .located hf _ (.bind h)
  | binaryLeft => exact .located hf _ (.bind h)
  | binaryRight left => exact .located hf _ (.after left (.bind h))
  | logicalLeft => exact .located hf _ (.bind h)
  | logicalRight left => exact .located hf _ (.after left (.bind h))
  | group => exact .located hf _ h
  | args => exact .located hf _ (.bind h)
  | callee evaluated => exact .located hf _ (.after evaluated (.bind h))
  | call evaluated found => exact .located hf _ (.after evaluated (.after found h))
  | getField => exact .located hf _ (.bind h)
  | setFieldObject => exact .located hf _ (.bind h)
  | setFieldValue found => exact .located hf _ (.after found (.after rfl (.bind h)))
  | first => exact .bind h
  | rest evaluated => exact .after evaluated (.bind h)
  | closure arity =>
    show Breaks f w (Walk.call o _ _ _ _ _)
    rw [Walk.call_closure arity]
    exact h
  | init arity found =>
    show Breaks f w (Walk.call o _ _ _ _ _)
    rw [Walk.call_init arity found]
    exact .bind h
  | body room =>
    show Breaks f w (Walk.closure o _ _ _ _ _)
    rw [Walk.closure_body room]
    -- the call leaves its trace, and the world as it is
    exact .bind (.inCall (.inEnv h))
  | statement proceeds => exact .after proceeds (.located hf _ h)
  | firstItem => exact .bind h
  | restItems executed => exact .after executed h
  | exprItem => exact .bind h
  | var => exact .bind h
  | block => exact .inEnv h
  | ifThenTest => exact .bind h
  | ifThen tested holds => exact .after tested (.after (condition_ok _ holds) h)
  | ifElseTest => exact .bind h
  | ifElseThen tested holds => exact .after tested (.after (condition_ok _ holds) h)
  | ifElseElse tested fails => exact .after tested (.after (condition_ok _ fails) h)
  | «while» => exact h
  | repeatCount => exact .bind h
  | «repeat» counted whole => exact .after counted (.after rfl (.after (located_lift_ok _ whole) h))
  | «return» => exact .bind h
  | assert => exact .bind h
  | assertFails =>
    -- the only visit that goes on after a fault
    exact absurd ⟨_, _, _, rfl⟩ hv
  | whileTest => exact .bind h
  | whileBody tested holds => exact .after tested (.after (condition_ok _ holds) (.bind h))
  | increment tested holds executed proceeds =>
    refine .after tested (.after (condition_ok _ holds) (.after executed ?_))
    simp only [proceeds]
    exact .bind h
  | whileAgain tested holds executed proceeds =>
    refine .after tested (.after (condition_ok _ holds) (.after executed ?_))
    simp only [proceeds]
    exact h
  | forAgain tested holds executed proceeds incremented =>
    refine .after tested (.after (condition_ok _ holds) (.after executed ?_))
    simp only [proceeds]
    exact .after incremented h
  | repeatBody => exact .bind h
  | repeatAgain executed proceeds =>
    refine .after executed ?_
    simp only [proceeds]
    exact h
  | firstOfProgram => exact .bind h
  | restOfProgram executed => exact .after executed h

/-- A fault that has its place comes out of every visit that leads to the one in which it arose. -/
theorem LeadsOpenly.breaks {place : Span} (hf : f.span = some place) (hl : v.LeadsOpenly o v')
    (h : Breaks f w (v'.outcome o)) : Breaks f w (v.outcome o) := by
  induction hl using Relation.ReflTransGen.head_induction_on with
  | refl => exact h
  | head hstep _ ih => exact breaks_of_calls hf hstep.1 hstep.2 ih

/-- An item at which the host stops the run. -/
theorem breaks_of_poll {i : Item} {k : Nat} (h : (w.world.poll o).1 = true) :
    Breaks { cause := .cancelled, span := some i.span } { w with world := (w.world.poll o).2 }
      (outcome o ⟨k + 1, .item i, w⟩) := by
  have hpoll := Walk.poll_apply (o := o) (w := w) i.span
  rw [if_pos h] at hpoll
  exact .bind ⟨_, hpoll, rfl, rfl⟩

/-- An assertion that awaits a fault takes the order to stop for one. -/
theorem awaited {e : Expr} {n : Nat} {w₀ : Walker} (h : Breaks f w (outcome o ⟨n, .expr e, w₀⟩))
    (message : Option String) (span : Span) :
    ∃ w', outcome o ⟨n + 1, .statement (.assertFails e message span), w₀⟩
        = Walk.checkFailure message (.error f) w'
      ∧ w'.world = w.world ∧ w'.count = w.count := by
  obtain ⟨w', hx, hkept⟩ := Breaks.bind (g := fun x => Walk.condition x e.span) h
  refine ⟨{ w' with trace := none }, ?_, hkept⟩
  have hattempt : Walk.attempt (do Walk.condition (← Walk.expr o n e) e.span) w₀
      = .ok (.error f) { w' with trace := none } := by
    unfold Walk.attempt
    rw [show (Walk.expr o n e >>= fun x => Walk.condition x e.span) w₀ = _ from hx]
  show (Walk.attempt (do Walk.condition (← Walk.expr o n e) e.span) >>=
    Walk.checkFailure message) w₀ = _
  rw [Outcome.bind_apply, hattempt]

/-- Where a visit leads to, it leads openly, or an assertion awaits a fault there: the innermost one. -/
theorem Leads.openly_or_awaited (hl : v.Leads o v') :
    v.LeadsOpenly o v' ∨ ∃ n e message span w,
      v.Leads o ⟨n + 1, .statement (.assertFails e message span), w⟩
        ∧ LeadsOpenly o ⟨n, .expr e, w⟩ v' := by
  induction hl with
  | refl => exact .inl .refl
  | @tail v₁ v₂ hl hc ih =>
    by_cases hawaits : v₁.Awaits
    · cases hc with
      | assertFails => exact .inr ⟨_, _, _, _, _, hl, .refl⟩
      | _ => exact nomatch hawaits
    · rcases ih with hopen | ⟨n, e, message, span, w, hassert, hopen⟩
      · exact .inl (hopen.tail ⟨hc, hawaits⟩)
      · exact .inr ⟨n, e, message, span, w, hassert, hopen.tail ⟨hc, hawaits⟩⟩

end Visit

/-! ## Runs of the machine -/

namespace Machine

variable {o : Options} {m m' : Machine} {k : Nat}

/-- `k` rounds of a run: before each of them the host lets the machine go on, and after each of them
    there are more instructions. -/
inductive Rounds (o : Options) : Nat → Machine → Machine → Prop where
  | refl (m : Machine) : Rounds o 0 m m
  | head {k : Nat} {m m' m'' : Machine} {world : World} (proceeds : m.world.poll o = (false, world))
      (steps : { m with world := world }.step o = (.nextStep, m')) (rest : Rounds o k m' m'') :
      Rounds o (k + 1) m m''

/-- The rounds that come first are the same for any greater amount of fuel. -/
theorem Rounds.interpret (h : Rounds o k m m') (fuel : Nat) :
    m.interpret o (k + fuel) = m'.interpret o fuel := by
  induction h with
  | refl m => rw [Nat.zero_add]
  | head proceeds steps _ ih =>
    rw [Nat.add_right_comm, Machine.interpret, proceeds]
    dsimp only
    rw [steps]
    exact ih

/-- The machine stops before the next instruction. -/
theorem interpret_stopped (h : (m.world.poll o).1 = true) (fuel : Nat) :
    ∃ calls m', m.interpret o (fuel + 1) = (some .runtimeError, m') ∧ m'.count = m.count
      ∧ m'.world = m.world.stopped { cause := .cancelled } calls := by
  rcases hp : m.world.poll o with ⟨stop, world⟩
  obtain ⟨lines, hlines⟩ := World.reportFault_poll h { cause := .cancelled }
    (m.frames.dropLast.map Frame.text)
  rw [hp] at h hlines
  cases h
  refine ⟨lines, { m with world := world }.fail o { cause := .cancelled }, ?_, rfl, hlines⟩
  rw [Machine.interpret, hp]

end Machine

/-! ## Runs of both executors -/

section Runs

variable {o : Options} {ns : List HostNative} {items : List Item} {i : Item} {w : Walker} {k n : Nat}

/-- The walker ends its run where no assertion around the item awaits a fault. -/
theorem Walker.run_stopped {d : Distances} (hr : resolve items = .ok d)
    (hstop : (w.world.poll o).1 = true)
    (hopen : Visit.LeadsOpenly o ⟨n, .program items, .beginning ns d⟩ ⟨k + 1, .item i, w⟩) :
    ∃ calls w', (Walker.fresh.withNatives ns).run o n items = (some .runtimeError, w')
      ∧ w'.count = w.count
      ∧ w'.world = w.world.stopped { cause := .cancelled, span := some i.span } calls := by
  obtain ⟨w', hrun, hworld, hcount⟩ := hopen.breaks rfl (Visit.breaks_of_poll hstop)
  obtain ⟨lines, hlines⟩ := World.reportFault_poll hstop
    { cause := .cancelled, span := some i.span } ((w'.trace.getD []).map CallSite.text)
  refine ⟨lines, { w' with world := w.world.stopped _ lines, trace := none }, ?_, hcount, rfl⟩
  rw [Walker.run_eq ns hr, show Walk.program o n items (.beginning ns d) = _ from hrun,
    Walker.report_fault (by exact nofun), hworld, hlines]

/-- Elsewhere the innermost assertion takes the order to stop for the fault that it awaits. -/
theorem Visit.openly_or_swallowed {v : Visit} (hstop : (w.world.poll o).1 = true)
    (hl : v.Leads o ⟨k + 1, .item i, w⟩) :
    v.LeadsOpenly o ⟨k + 1, .item i, w⟩ ∨ ∃ n e message span w₀ w',
      v.Leads o ⟨n + 1, .statement (.assertFails e message span), w₀⟩
        ∧ outcome o ⟨n + 1, .statement (.assertFails e message span), w₀⟩
          = Walk.checkFailure message (.error { cause := .cancelled, span := some i.span }) w'
        ∧ w'.world = (w.world.poll o).2 ∧ w'.count = w.count := by
  rcases Leads.openly_or_awaited hl with hopen | ⟨n, e, message, span, w₀, hassert, hopen⟩
  · exact .inl hopen
  · obtain ⟨w', hrun, hkept⟩ :=
      awaited (hopen.breaks rfl (breaks_of_poll hstop)) message span
    exact .inr ⟨n, e, message, span, w₀, w', hassert, hrun, hkept⟩

/-- The machine ends its run wherever the host asks it to. -/
theorem Machine.run_stopped {m₀ m : Machine}
    (hstart : (Machine.fresh.withNatives ns).start items = (.nextStep, m₀))
    (hrounds : Machine.Rounds o k m₀ m) (hstop : (m.world.poll o).1 = true) (hfuel : k < n) :
    ∃ calls m', (Machine.fresh.withNatives ns).run o n items = (some .runtimeError, m')
      ∧ m'.count = m.count ∧ m'.world = m.world.stopped { cause := .cancelled } calls := by
  obtain ⟨more, rfl⟩ : ∃ more, n = k + (more + 1) := ⟨n - k - 1, by omega⟩
  have hrun : (Machine.fresh.withNatives ns).run o (k + (more + 1)) items
      = m.interpret o (more + 1) := by
    rw [Machine.run, hstart]
    exact hrounds.interpret (more + 1)
  rw [hrun]
  exact Machine.interpret_stopped hstop more

end Runs

/-- Where the host asks to stop, a run ends with that error, and nothing is executed any more. The one
    exception is a statement of the walker around which an assertion awaits a fault: the innermost such
    assertion takes the order to stop for the fault, and the run goes on. -/
theorem cancellation_obeyed (o : Options) (ns : List HostNative) (items : List Item) :
    (∀ d n k i w, resolve items = .ok d → (w.world.poll o).1 = true →
        Visit.LeadsOpenly o ⟨n, .program items, .beginning ns d⟩ ⟨k + 1, .item i, w⟩ →
        ∃ calls w', (Walker.fresh.withNatives ns).run o n items = (some .runtimeError, w')
          ∧ w'.count = w.count
          ∧ w'.world = w.world.stopped { cause := .cancelled, span := some i.span } calls)
      ∧ (∀ d n k i w, resolve items = .ok d → (w.world.poll o).1 = true →
        Visit.Leads o ⟨n, .program items, .beginning ns d⟩ ⟨k + 1, .item i, w⟩ →
        Visit.LeadsOpenly o ⟨n, .program items, .beginning ns d⟩ ⟨k + 1, .item i, w⟩
          ∨ ∃ n' e message span w₀ w',
            Visit.Leads o ⟨n, .program items, .beginning ns d⟩
                ⟨n' + 1, .statement (.assertFails e message span), w₀⟩
              ∧ Visit.outcome o ⟨n' + 1, .statement (.assertFails e message span), w₀⟩
                = Walk.checkFailure message (.error { cause := .cancelled, span := some i.span }) w'
              ∧ w'.world = (w.world.poll o).2 ∧ w'.count = w.count)
      ∧ ∀ m₀ n k m, (Machine.fresh.withNatives ns).start items = (.nextStep, m₀) →
        Machine.Rounds o k m₀ m → (m.world.poll o).1 = true → k < n →
        ∃ calls m', (Machine.fresh.withNatives ns).run o n items = (some .runtimeError, m')
          ∧ m'.count = m.count ∧ m'.world = m.world.stopped { cause := .cancelled } calls :=
  ⟨fun _ _ _ _ _ hr hstop hopen => Walker.run_stopped hr hstop hopen,
    fun _ _ _ _ _ _ hstop hl => Visit.openly_or_swallowed hstop hl,
    fun _ _ _ _ hstart hrounds hstop hfuel => Machine.run_stopped hstart hrounds hstop hfuel⟩

/-- Runs that the host stops when they ask for the second time. The walker has executed one of the two
    statements then, and the machine one instruction. -/
theorem cancellation_obeyed_second : ∃ (items : List Item) (w : Walker) (m : Machine),
    parseText .resume 0 "" "print(1); print(2);" = .ok items
      ∧ (Walker.fresh.withNatives []).run { cancel := some (1 ≤ ·) } 20 items = (some .runtimeError, w)
      ∧ w.count = 1 ∧ w.world.journal.out = #["1"]
      ∧ (Machine.fresh.withNatives []).run { cancel := some (1 ≤ ·) } 20 items = (some .runtimeError, m)
      ∧ m.count = 1 ∧ m.world.journal.out = #[] := by
  have hcheck : ((parseText .resume 0 "" "print(1); print(2);").toOption.any fun items =>
      decide (items.length = 2)
        && ((resolve items).toOption.any fun d => items.head?.any fun i₁ =>
          (Outcome.result? (Walk.item { cancel := some (1 ≤ ·) } 19 i₁ (.beginning [] d))).any fun p =>
            decide ((p.2.world.poll { cancel := some (1 ≤ ·) }).1 = true ∧ p.2.count = 1
              ∧ p.2.world.journal.out = #["1"]))
        && (fun r₀ : Verdict × Machine =>
          (fun (u : Bool × World) (r : Verdict × Machine) =>
            decide (r₀.1 = .nextStep ∧ u.1 = false ∧ r.1 = .nextStep
              ∧ (r.2.world.poll { cancel := some (1 ≤ ·) }).1 = true ∧ r.2.count = 1
              ∧ r.2.world.journal.out = #[]))
            (r₀.2.world.poll { cancel := some (1 ≤ ·) })
            ({ r₀.2 with world := (r₀.2.world.poll { cancel := some (1 ≤ ·) }).2 }.step
              { cancel := some (1 ≤ ·) }))
          ((Machine.fresh.withNatives []).start items)) = true := by
    decide +kernel
  obtain ⟨items, hparsed, hcheck⟩ := Outcome.any_toOption.1 hcheck
  simp only [Bool.and_eq_true, decide_eq_true_eq] at hcheck
  obtain ⟨⟨hlength, hwalker⟩, hnext, hpoll, hstep, hstop', hcount', hout'⟩ := hcheck
  obtain ⟨i₁, i₂, rfl⟩ := List.length_eq_two.1 hlength
  obtain ⟨d, hr, hwalker⟩ := Outcome.any_toOption.1 hwalker
  obtain ⟨_, ⟨⟩, hwalker⟩ := (Option.any_eq_true _ _).1 hwalker
  obtain ⟨⟨flow, w⟩, hitem, hwalker⟩ := (Option.any_eq_true _ _).1 hwalker
  obtain ⟨hstop, hcount, hout⟩ := of_decide_eq_true hwalker
  obtain ⟨hstops, -, hrounds⟩ := cancellation_obeyed { cancel := some (1 ≤ ·) } [] [i₁, i₂]
  have hrest : Visit.Calls { cancel := some (1 ≤ ·) }
      ⟨20, .program [i₁, i₂], .beginning [] d⟩ ⟨19, .program [i₂], w⟩ :=
    .restOfProgram (Outcome.result?_eq_some.1 hitem)
  have hopen : Visit.LeadsOpenly { cancel := some (1 ≤ ·) }
      ⟨20, .program [i₁, i₂], .beginning [] d⟩ ⟨18, .item i₂, w⟩ :=
    .head ⟨hrest, nofun⟩ (.single ⟨.firstOfProgram, nofun⟩)
  obtain ⟨_, w', hrun, hw, hworld⟩ := hstops d 20 17 i₂ w hr hstop hopen
  obtain ⟨_, m', hrun', hm, hworld'⟩ := hrounds _ 20 1 _ (Prod.ext hnext rfl)
    (.head (Prod.ext hpoll rfl) (Prod.ext hstep rfl) (.refl _)) hstop' (by decide)
  exact ⟨[i₁, i₂], w', m', hparsed, hrun, hw.trans hcount, by rw [hworld]; exact hout,
    hrun', hm.trans hcount', by rw [hworld']; exact hout'⟩

/-- An assertion that awaits a fault swallows the order to stop: the third time that the host is asked it
    asks the walker to stop, and the run ends as if nothing had happened. -/
theorem cancellation_swallowed : ∃ (items : List Item) (w : Walker) (m : Machine),
    parseText .resume 0 "t" "fun f() { print(1); } assert break f();" = .ok items
      ∧ (Walker.fresh.withNatives []).run { cancel := some (2 ≤ ·) } 20 items = (some .ok, w)
      ∧ w.world.polls = 3 ∧ w.world.journal.err = #[]
      ∧ (Machine.fresh.withNatives []).run { cancel := some (2 ≤ ·) } 20 items = (some .runtimeError, m)
      ∧ m.world.polls = 3 ∧ m.world.journal.err = #["execution cancelled"] := by
  have hcheck : ((parseText .resume 0 "t" "fun f() { print(1); } assert break f();").toOption.any
      fun items =>
        (fun (r : Option Verdict × Walker) (r' : Option Verdict × Machine) =>
          decide (r.1 = some .ok ∧ r.2.world.polls = 3 ∧ r.2.world.journal.err = #[]
            ∧ r'.1 = some .runtimeError ∧ r'.2.world.polls = 3
            ∧ r'.2.world.journal.err = #["execution cancelled"]))
          ((Walker.fresh.withNatives []).run { cancel := some (2 ≤ ·) } 20 items)
          ((Machine.fresh.withNatives []).run { cancel := some (2 ≤ ·) } 20 items)) = true := by
    decide +kernel
  obtain ⟨items, hparsed, hcheck⟩ := Outcome.any_toOption.1 hcheck
  obtain ⟨hw, hpolls, herr, hm, hpolls', herr'⟩ := of_decide_eq_true hcheck
  exact ⟨items, _, _, hparsed, Prod.ext hw rfl, hpolls, herr, Prod.ext hm rfl, hpolls', herr'⟩

end Eleu
