import Eleu.Proofs.Walker.Phases

/-! # The walker comes back to where it was

    Whatever the walker is asked to do, and however it ends, it is afterwards in the environment in
    which it was, and the same calls are active. So the calls that are active at any time are those
    that the recursive calls of the walker are in, each of which has found room for one more; and a
    walker at rest, which is in the global environment and in no call, is at rest after a program. -/

namespace Eleu

namespace Walker

/-- The second walker is in the same environment as the first, with the same globals and the same
    active calls. -/
structure SameFrame (w w' : Walker) : Prop where
  env : w'.env = w.env
  globals : w'.globals = w.globals
  calls : w'.calls = w.calls

/-- The walker is in the global environment and in no call. -/
def AtRest (w : Walker) : Prop := w.env = w.globals ∧ w.calls = []

variable {o : Options} {w w' : Walker}

/-- What is pushed is popped, and an environment that is left is left for the one from before. -/
theorem SameFrame.law : Law o SameFrame where
  refl _ := ⟨rfl, rfl, rfl⟩
  trans h h' := ⟨h'.env.trans h.env, h'.globals.trans h.globals, h'.calls.trans h.calls⟩
  add _ _ _ := ⟨rfl, rfl, rfl⟩
  native _ _ _ := ⟨rfl, rfl, rfl⟩
  poll _ := ⟨rfl, rfl, rfl⟩
  count _ _ := ⟨rfl, rfl, rfl⟩
  trace _ _ := ⟨rfl, rfl, rfl⟩
  scope _ h := ⟨rfl, h.globals, h.calls⟩
  call _ h := ⟨h.env, h.globals, congrArg List.tail h.calls⟩

/-- A walker stays at rest. -/
theorem AtRest.sameFrame (h : w.AtRest) (hw : w.SameFrame w') : w'.AtRest := by
  refine ⟨?_, hw.calls.trans h.2⟩
  rw [hw.env, hw.globals]
  exact h.1

/-- The walker is where it was after a program, whether it was refused, has failed or has ended well. -/
theorem sameFrame_run (fuel : Nat) (items : List Item) (w : Walker) :
    w.SameFrame (w.run o fuel items).2 := by
  cases hr : resolve items with
  | error f =>
    rw [run_refused hr]
    exact ⟨rfl, rfl, rfl⟩
  | ok d =>
    have h : (w.started d).SameFrame (Outcome.state (Walk.program o fuel items (w.started d))) :=
      Task.conserves SameFrame.law fuel (.program items) (w.started d)
    rw [run_resolved hr]
    generalize Walk.program o fuel items (w.started d) = x at h ⊢
    fun_cases report o x with
    | case1 w' | case2 w' | case3 f w' | case4 f w' => exact ⟨h.env, h.globals, h.calls⟩

end Walker

/-! ## Active calls -/

namespace Visit

open Eleu.Walker (SameFrame)

variable {o : Options} {v u : Visit}

/-- The active calls of a recursive call of the walker are those of the visit that makes it. There is
    one more in the body of a function, and room for it. -/
theorem Calls.active (hc : v.Calls o u) :
    u.state.calls = v.state.calls
      ∨ v.state.calls.length < o.maxCallDepth ∧ ∃ site, u.state.calls = site :: v.state.calls := by
  obtain h | h | ⟨room, c, args, span, -, h⟩ := hc.enters SameFrame.law
  · exact .inl h.calls
  · rw [h]
    exact .inl rfl
  · exact .inr ⟨room, _, congrArg Walker.calls h⟩

/-- A visit that does not exceed the limit makes no visit that does. -/
theorem Calls.within_limit (hc : v.Calls o u) (hv : v.state.calls.length ≤ o.maxCallDepth) :
    u.state.calls.length ≤ o.maxCallDepth := by
  obtain h | ⟨room, site, h⟩ := hc.active
  · rw [h]
    exact hv
  · rw [h]
    exact room

/-- A visit that does not exceed the limit leads to none that does, at its start or at its end. -/
theorem Leads.within_limit (h : v.Leads o u) (hv : v.state.calls.length ≤ o.maxCallDepth) :
    u.state.calls.length ≤ o.maxCallDepth ∧ (u.final o).calls.length ≤ o.maxCallDepth := by
  have hstart : u.state.calls.length ≤ o.maxCallDepth := by
    induction h with
    | refl => exact hv
    | tail _ hc ih => exact hc.within_limit ih
  have hframe : u.state.SameFrame (u.final o) := Task.conserves SameFrame.law u.fuel u.task u.state
  refine ⟨hstart, ?_⟩
  rw [hframe.calls]
  exact hstart

end Visit

/-! ## Between two programs -/

/-- A walker that a host uses is at rest between two programs. -/
theorem Phase.Reachable.atRest {o : Options} {w : Walker} (h : (Phase.idle w).Reachable o) : w.AtRest := by
  refine h.idle_induction ⟨rfl, rfl⟩ ?_ ?_ ?_ ?_
  · exact fun _ _ _ hw => hw
  · exact fun _ _ hw => hw
  · exact fun w fuel items _ _ hw => hw.sameFrame (Walker.sameFrame_run fuel items w)
  · exact fun w fuel items _ _ _ hw => hw.sameFrame (Walker.sameFrame_run fuel items w)

/-- Whatever the walker is asked to do, and however it ends, it is in the same environment afterwards,
    and the same calls are active. While a walker runs a program that it was given at rest, there
    are never more calls active than the limit allows; afterwards it is at rest, and so it is after
    any requests of a host. -/
theorem frame_restored (o : Options) :
    (∀ (fuel : Nat) (task : Task) (w : Walker), w.SameFrame (Outcome.state (task.run o fuel w)))
      ∧ (∀ (fuel : Nat) (block : List Item) (e : EnvRef) (w : Walker),
        w.SameFrame (Outcome.state (Walker.runBlock o fuel block e w)))
      ∧ (∀ (w : Walker) (fuel : Nat) (items : List Item), w.AtRest →
        (∀ (d : Distances) (v : Visit), Visit.Leads o ⟨fuel, .program items, w.started d⟩ v →
          v.state.calls.length ≤ o.maxCallDepth ∧ (v.final o).calls.length ≤ o.maxCallDepth)
        ∧ (w.run o fuel items).2.AtRest)
      ∧ ∀ (fuel : Nat) (requests : List Request), ∃ w,
        (Session.ofWalker.serveAll o fuel requests).2.executor = .walker w ∧ w.AtRest := by
  have L := Walker.SameFrame.law (o := o)
  refine ⟨Task.conserves L, ?_, ?_, ?_⟩
  · intro fuel block e w
    have hblock := L.everywhere.holds fuel (.items block) { w with env := e } trivial
    exact (Walker.Regime.Lawful.inEnv (L.scope e) hblock).kept
  · intro w fuel items hw
    refine ⟨fun d v hv => hv.within_limit ?_, hw.sameFrame (Walker.sameFrame_run fuel items w)⟩
    show w.calls.length ≤ o.maxCallDepth
    rw [hw.2]
    exact Nat.zero_le _
  · intro fuel requests
    have hfresh : Session.ofWalker.OnPhases o := ⟨.fresh, rfl, .fresh⟩
    obtain ⟨w, hw, hreachable⟩ := hfresh.serveAll fuel requests
    exact ⟨w, hw, hreachable.atRest⟩

/-- A function that calls itself, inside a block, until the limit is reached. -/
theorem frame_restored_overflow : ∃ items,
    parseText .stop 0 "" "fun f() { { f(); } } f();" = .ok items
      ∧ (Walker.fresh.run { maxCallDepth := 2 } 40 items).1 = some .runtimeError
      ∧ Walker.fresh.AtRest ∧ (Walker.fresh.run { maxCallDepth := 2 } 40 items).2.AtRest := by
  have hcheck : ((parseText .stop 0 "" "fun f() { { f(); } } f();").toOption.bind fun items =>
      (Walker.fresh.run { maxCallDepth := 2 } 40 items).1) = some .runtimeError := by
    decide +kernel
  have hrest : Walker.fresh.AtRest := ⟨rfl, rfl⟩
  obtain ⟨items, hparsed, hstopped⟩ := Option.bind_eq_some_iff.1 hcheck
  obtain ⟨-, -, hrun, -⟩ := frame_restored { maxCallDepth := 2 }
  exact ⟨items, Outcome.toOption_eq_some.1 hparsed, hstopped, hrest, (hrun .fresh 40 items hrest).2⟩

end Eleu
