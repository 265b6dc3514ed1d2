import Eleu.Proofs.Fresh
import Eleu.Proofs.Machine.Recover

/-! # Counting the instructions of a run

    A `Tick` is the execution of one instruction, whether it succeeds or a handler takes its fault.
    What `Machine.interpret` gives is told by ticks: it ends where there is nothing more to execute,
    or with a fault that no handler takes, and it does not end within `k` instructions if the machine
    lasts for more. -/

namespace Eleu

namespace Machine

variable {o : Options} {m m' m'' : Machine} {j k : Nat}

/-- There is an instruction to execute. -/
def Active (m : Machine) : Prop :=
  ∃ frame frames i, m.frames = frame :: frames ∧ frame.chunk.instr? frame.ip = some i

/-- The machine executes an instruction, and then has the state `m'`. -/
def Tick (o : Options) (m m' : Machine) : Prop := m.Active ∧ m.step o = m'.status

/-- The machine executes `k` instructions, and then has the state `m'`. -/
inductive Ticks (o : Options) : Nat → Machine → Machine → Prop where
  | refl (m : Machine) : Ticks o 0 m m
  | head {k : Nat} {m m' m'' : Machine} (h : m.Tick o m') (hs : Ticks o k m' m'') :
      Ticks o (k + 1) m m''

/-- The machine can execute `k` instructions. -/
def Lasts (o : Options) (k : Nat) (m : Machine) : Prop := ∃ m', Ticks o k m m'

/-- A fault goes to the handlers, and ends the program if none takes it. -/
def raise (o : Options) (f : Fault) (m : Machine) : Verdict × Machine :=
  match recover m.handlers f m with
  | (none, m) => m.status
  | (some f, m) => (.runtimeError, m.fail o f)

theorem Active.status (h : m.Active) : m.status = (.nextStep, m) := by
  obtain ⟨frame, frames, i, hf, hi⟩ := h
  have hlt : frame.ip < frame.chunk.ops.size :=
    Chunk.instr?_isSome.1 (Option.isSome_iff_exists.2 ⟨i, hi⟩)
  unfold Machine.status
  rw [hf]
  cases frames with
  | nil => exact if_neg (Nat.not_le_of_lt hlt)
  | cons f fs => rfl

section Steps

variable {frame : Frame} {frames : List Frame} {i : Instr} (hf : m.frames = frame :: frames)
  (hi : frame.chunk.instr? frame.ip = some i)

include hf hi

/-- An instruction that succeeds is a tick. -/
theorem tick_of_execute (hx : Exec.execute o i (m.ready o frame frames) = .ok () m') :
    m.Tick o m' := by
  refine ⟨⟨frame, frames, i, hf, hi⟩, ?_⟩
  rw [step_eq hf hi, hx]

/-- One that fails raises its fault. -/
theorem step_of_fault {f : Fault} (hx : Exec.execute o i (m.ready o frame frames) = .error f m') :
    m.step o = m'.raise o (f.locate i.span) := by
  rw [step_eq hf hi, hx]
  rfl

end Steps

namespace Ticks

theorem single (h : m.Tick o m') : Ticks o 1 m m' := .head h (.refl m')

theorem trans (h : Ticks o j m m') (h' : Ticks o k m' m'') : Ticks o (j + k) m m'' := by
  induction h with
  | refl m => rwa [Nat.zero_add]
  | head ht _ ih =>
    rw [Nat.add_right_comm]
    exact .head ht (ih h')

/-- A state from which the machine goes on is the one after as many steps. -/
theorem after_eq (h : Ticks o k m m') (ha : m'.Active) : m.after o k = m' := by
  induction h with
  | refl m => rfl
  | head ht hs ih =>
    rename_i k m m₁ m'
    have h₁ : m₁.Active := by
      cases hs with
      | refl => exact ha
      | head ht' _ => exact ht'.1
    rw [Machine.after, ht.2, h₁.status]
    exact ih ha

end Ticks

namespace Lasts

theorem zero (m : Machine) : Lasts o 0 m := ⟨m, .refl m⟩

theorem ticks (h : Ticks o j m m') (h' : Lasts o k m') : Lasts o (j + k) m := by
  obtain ⟨m'', h''⟩ := h'
  exact ⟨m'', h.trans h''⟩

theorem of_le (h : Lasts o k m) (hj : j ≤ k) : Lasts o j m := by
  obtain ⟨m', hm⟩ := h
  induction hm generalizing j with
  | refl m =>
    rw [Nat.le_zero.1 hj]
    exact zero m
  | head ht _ ih =>
    cases j with
    | zero => exact zero _
    | succ j =>
      obtain ⟨m', hm'⟩ := ih (Nat.le_of_succ_le_succ hj)
      exact ⟨m', .head ht hm'⟩

end Lasts

/-! ## Runs -/

section Interpret

variable (hcancel : o.cancel = none)

include hcancel

theorem poll_none (w : World) : w.poll o = (false, w) := by
  unfold World.poll
  rw [hcancel]

/-- One round of the run. -/
theorem interpret_succ (m : Machine) :
    m.interpret o (k + 1) =
      match m.step o with
      | (.nextStep, m) => m.interpret o k
      | (verdict, m) => (some verdict, m) := by
  have hpoll := poll_none hcancel m.world
  rw [interpret]
  split
  · next hstop => cases hpoll.symm.trans hstop
  · next hgo =>
      cases hpoll.symm.trans hgo
      rfl

/-- More fuel does not change how a run ends. -/
theorem interpret_add {v : Verdict} (h : m.interpret o k = (some v, m')) (j : Nat) :
    m.interpret o (k + j) = (some v, m') := by
  induction k generalizing m with
  | zero => exact nomatch h
  | succ k ih =>
    rw [interpret_succ hcancel] at h
    rw [Nat.add_right_comm, interpret_succ hcancel]
    rcases hs : m.step o with ⟨v', m₁⟩
    rw [hs] at h
    cases v' with
    | nextStep => exact ih h
    | ok | compileError | runtimeError => exact h

/-- The interpretation goes on where the ticks lead. -/
theorem interpret_ticks (h : Ticks o k m m') (ha : m'.Active) (j : Nat) :
    m.interpret o (k + j) = m'.interpret o j := by
  induction h with
  | refl m => rw [Nat.zero_add]
  | head ht hs ih =>
    rename_i k m m₁ m'
    have h₁ : m₁.Active := by
      cases hs with
      | refl => exact ha
      | head ht' _ => exact ht'.1
    rw [Nat.add_right_comm, interpret_succ hcancel, ht.2, h₁.status]
    exact ih ha

/-- The run ends where a step gives a verdict. -/
theorem interpret_verdict (h : Ticks o k m m') (ha : m'.Active) {v : Verdict} (hv : v ≠ .nextStep)
    (hs : m'.step o = (v, m'')) : m.interpret o (k + 1) = (some v, m'') := by
  rw [interpret_ticks hcancel h ha, interpret_succ hcancel, hs]
  cases v with
  | nextStep => exact absurd rfl hv
  | ok | compileError | runtimeError => rfl

/-- The run ends after the last instruction. -/
theorem interpret_end (h : Ticks o (k + 1) m m') {v : Verdict} (hv : v ≠ .nextStep)
    (hs : m'.status = (v, m'')) : m.interpret o (k + 1) = (some v, m'') := by
  generalize hn : k + 1 = n at h
  induction h generalizing k with
  | refl m => exact nomatch hn
  | head ht hrest ih =>
    rename_i n m m₁ m'
    cases Nat.succ.inj hn
    rw [interpret_succ hcancel, ht.2]
    cases hrest with
    | refl =>
      rw [hs]
      cases v with
      | nextStep => exact absurd rfl hv
      | ok | compileError | runtimeError => rfl
    | @head j _ _ _ ht' hrest' =>
      rw [ht'.1.status]
      exact ih hs rfl

/-- A run does not end before the machine does. -/
theorem interpret_none (h : Lasts o (k + 1) m) : (m.interpret o k).1 = none := by
  obtain ⟨m', hm⟩ := h
  generalize hn : k + 1 = n at hm
  induction hm generalizing k with
  | refl m => exact nomatch hn
  | head ht hrest ih =>
    rename_i n m m₁ m'
    cases Nat.succ.inj hn
    cases n with
    | zero => rfl
    | succ n =>
      cases hrest with
      | @head j _ _ _ ht' hrest' =>
        rw [interpret_succ hcancel, ht.2, ht'.1.status]
        exact ih rfl

end Interpret

end Machine

end Eleu
