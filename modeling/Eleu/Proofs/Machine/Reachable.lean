import Eleu.Session

/-! # Reachable machines

    A host makes a machine, defines natives, starts programs, and lets the machine execute one
    instruction or many. `Machine.Reachable` has the states between any two instructions, also of
    those requests that execute many; `Session.OnReachable.serveAll` says that no request leads out
    of it. -/

namespace Eleu

namespace Machine

/-- What can happen to a machine between two instructions, and the execution of one. Only programs
    that the parser has built are started. -/
inductive Next (o : Options) (m : Machine) : Machine → Prop where
  | defineNative (name : String) (params : List String) : Next o m (m.defineNative name params)
  | start {r : Recovery} {unit : Nat} {file source : String} {items : List Item}
      (parsed : parseText r unit file source = .ok items) : Next o m (m.start items).2
  | step : Next o m (m.step o).2
  /-- The host was asked whether to stop. -/
  | polled : Next o m { m with world := (m.world.poll o).2 }
  /-- The host has stopped the program. -/
  | cancelled : Next o m (m.fail o { cause := .cancelled })
  /-- A source text was refused. -/
  | complained (lines : List String) : Next o m { m with world := m.world.complainAll lines }

/-- The states of a machine that a host uses. -/
inductive Reachable (o : Options) : Machine → Prop where
  | fresh : Reachable o .fresh
  | next {m m' : Machine} (h : Reachable o m) (hn : m.Next o m') : Reachable o m'

variable {o : Options} {m : Machine}

/-- The machine after `k` more instructions. -/
def after (o : Options) : (k : Nat) → Machine → Machine
  | 0, m => m
  | k + 1, m => after o k (m.step o).2

theorem Reachable.after (h : m.Reachable o) (k : Nat) : (m.after o k).Reachable o := by
  induction k generalizing m with
  | zero => exact h
  | succ k ih => exact ih (h.next .step)

theorem Reachable.interpret {fuel : Nat} (h : m.Reachable o) : (m.interpret o fuel).2.Reachable o := by
  induction fuel generalizing m with
  | zero => exact h
  | succ fuel ih =>
    have hpolled := h.next .polled
    unfold Machine.interpret
    split
    · rename_i w hw
      rw [hw] at hpolled
      exact hpolled.next .cancelled
    · rename_i w hw
      rw [hw] at hpolled
      have hstep := hpolled.next .step
      split
      · rename_i m' hm
        rw [hm] at hstep
        exact ih hstep
      · rename_i v m' _ hm
        rw [hm] at hstep
        exact hstep

theorem Reachable.stepWhile {proceed : Nat → Machine → Bool} {fuel asked : Nat}
    (h : m.Reachable o) : (m.stepWhile o proceed fuel asked).2.Reachable o := by
  induction fuel generalizing m asked with
  | zero => exact h
  | succ fuel ih =>
    have hstep := h.next .step
    unfold Machine.stepWhile
    split
    · rename_i m' hm
      rw [hm] at hstep
      split
      · exact ih hstep
      · exact hstep
    · rename_i v m' _ hm
      rw [hm] at hstep
      exact hstep

/-- A run leads from a reachable machine to a reachable one. -/
theorem Reachable.run {fuel : Nat} {items : List Item} (h : m.Reachable o) {r : Recovery} {unit : Nat}
    {file source : String} (parsed : parseText r unit file source = .ok items) :
    (m.run o fuel items).2.Reachable o := by
  have hstart := h.next (.start parsed)
  unfold Machine.run
  split
  · rename_i m' hm
    rw [hm] at hstart
    exact hstart.interpret
  · rename_i v m' _ hm
    rw [hm] at hstart
    exact hstart

end Machine

namespace Session

variable {o : Options}

/-- The executor of the session is a reachable machine. -/
def OnReachable (o : Options) (s : Session) : Prop :=
  ∃ m, s.executor = .machine m ∧ m.Reachable o

theorem OnReachable.withText {s : Session} (h : s.OnReachable o) (file source : String)
    {act : List Item → Executor → Reply × Executor}
    (hact : ∀ items m, m.Reachable o → parseText o.recovery s.units file source = .ok items →
      ∃ m', (act items (.machine m)).2 = .machine m' ∧ m'.Reachable o) :
    (s.withText o file source act).2.OnReachable o := by
  obtain ⟨m, hs, hm⟩ := h
  unfold Session.withText World.parse
  rw [hs]
  cases hp : parseText o.recovery s.units file source with
  | error errors => exact ⟨_, rfl, hm.next (.complained _)⟩
  | ok items => exact hact items m hm hp

/-- A request leads from a reachable machine to one. -/
theorem OnReachable.serve {s : Session} (h : s.OnReachable o) (fuel : Nat) (r : Request) :
    (s.serve o fuel r).2.OnReachable o := by
  obtain ⟨m, hs, hm⟩ := id h
  unfold Session.serve
  rw [hs, supports, if_pos rfl]
  unfold Session.answer
  cases r with
  | define name params =>
    rw [hs]
    exact ⟨_, rfl, hm.next (.defineNative name params)⟩
  | run file source => exact h.withText file source fun items m hm hp => ⟨_, rfl, hm.run hp⟩
  | start file source => exact h.withText file source fun items m hm hp => ⟨_, rfl, hm.next (.start hp)⟩
  | step =>
    rw [hs]
    exact ⟨_, rfl, hm.next .step⟩
  | stepWhile proceed =>
    rw [hs]
    exact ⟨_, rfl, hm.stepWhile⟩
  | interpret =>
    rw [hs]
    exact ⟨_, rfl, hm.interpret⟩

/-- So do requests. -/
theorem OnReachable.serveAll {s : Session} (h : s.OnReachable o) (fuel : Nat) (rs : List Request) :
    (s.serveAll o fuel rs).2.OnReachable o := by
  induction rs generalizing s with
  | nil => exact h
  | cons r rs ih => exact ih (h.serve fuel r)

end Session

end Eleu
