import Eleu.Proofs.Agreement.Ticks
import Eleu.Proofs.Machine.Declared
import Eleu.Session

/-! # Running in pieces

    A host that has started a program can let it run at once, or step by step, or for as long as a
    predicate of its own agrees. How it does so makes no difference to the program: whatever steps
    come first, the run that completes the program ends with the same verdict and in the same state
    as the run of the whole program (`stepping_transparent`).

    The end of a program is found in three places: after an instruction, at a step beyond the last
    one, and at a fault. What they have in common is `Machine.Ended`: there are no frames, and the
    verdict can be read off the flag for faults. Since no instruction touches that flag, a machine
    that still has frames has not failed (`Machine.Undecided`), and a step either leaves it so or
    ends it (`Undecided.step`). -/

namespace Eleu

/-! ## Whether a program has failed -/

namespace Machine

variable {o : Options} {m m' : Machine} {v u : Verdict} {n k : Nat}

theorem failed_recover (hs : List Handler) (f : Fault) (m : Machine) :
    (recover hs f m).2.failed = m.failed := by
  have hjump : ∀ (m : Machine) (target : Nat), (m.jump target).failed = m.failed :=
    fun m target => by unfold jump; cases m.frames <;> rfl
  induction hs generalizing f m with
  | nil => rfl
  | cons h hs ih =>
    rw [recover]
    split
    · exact hjump _ _
    · split
      · exact hjump _ _
      · exact ih _ (m.unwindTo h hs)

/-! ## Programs that have ended -/

/-- A program that has not ended has not failed. -/
def Undecided (m : Machine) : Prop := m.frames ≠ [] → m.failed = false

/-- The program has ended with the verdict `v`. -/
structure Ended (v : Verdict) (m : Machine) : Prop where
  frames : m.frames = []
  verdict : v = if m.failed then .runtimeError else .ok

theorem Ended.undecided (h : m.Ended v) : m.Undecided := fun hne => absurd h.frames hne

theorem Ended.final (h : m.Ended v) : v ≠ .nextStep := by
  intro hv
  have hverdict := h.verdict
  rw [hv] at hverdict
  cases hf : m.failed with
  | false => rw [hf] at hverdict; exact nomatch hverdict
  | true => rw [hf] at hverdict; exact nomatch hverdict

/-- Once a program has ended, nothing changes any more. -/
theorem Ended.step (h : m.Ended v) : m.step o = (v, m) := by
  unfold Machine.step
  rw [h.frames, ← h.verdict]

/-- What a step makes of a machine: there is more to execute, or the program has ended. -/
inductive Stepped : Verdict × Machine → Prop where
  | more {m : Machine} (undecided : m.Undecided) : Stepped (.nextStep, m)
  | ended {m : Machine} {v : Verdict} (ended : m.Ended v) : Stepped (v, m)

theorem Stepped.status (h : m.failed = false) : Stepped m.status := by
  unfold Machine.status
  split
  · next hf => exact .ended ⟨hf, by rw [h]; rfl⟩
  · split
    · exact .ended ⟨rfl, by show _ = if m.failed then _ else _; rw [h]; rfl⟩
    · exact .more fun _ => h
  · exact .more fun _ => h

theorem Undecided.step (h : m.Undecided) : Stepped (m.step o) := by
  cases hf : m.frames with
  | nil =>
    unfold Machine.step
    rw [hf]
    exact .ended ⟨hf, rfl⟩
  | cons frame frames =>
    have hgoes : m.failed = false := h (by rw [hf]; exact List.cons_ne_nil _ _)
    cases hi : frame.chunk.instr? frame.ip with
    | none =>
      -- the step beyond the last instruction
      unfold Machine.step
      simp only [hf, hi]
      exact .ended ⟨rfl, by show _ = if m.failed then _ else _; rw [hgoes]; rfl⟩
    | some i =>
      have hready : (m.ready o frame frames).failed = false := by
        obtain ⟨w, hw, -⟩ := ready_eq o frame frames m
        rw [hw]
        exact hgoes
      have hexec := Exec.execute_failed (o := o) i (m.ready o frame frames)
      rw [step_eq hf hi]
      cases hx : Exec.execute o i (m.ready o frame frames) with
      | ok u m' =>
        rw [hx] at hexec
        exact .status (hexec.trans hready)
      | error f m' =>
        rw [hx] at hexec
        have hrecover := failed_recover m'.handlers (f.locate i.span) m'
        dsimp only
        generalize recover m'.handlers (f.locate i.span) m' = r at hrecover
        obtain ⟨left, m''⟩ := r
        cases left with
        | none => exact .status (hrecover.trans (hexec.trans hready))
        | some f => exact .ended ⟨rfl, rfl⟩

/-! ## Pieces of a run -/

/-- What many steps make of a machine: they do not come to an end, or the last of them tells. -/
inductive Paced : Option Verdict × Machine → Prop where
  | outOfFuel {m : Machine} (undecided : m.Undecided) : Paced (none, m)
  | stepped {v : Verdict} {m : Machine} (stepped : Stepped (v, m)) : Paced (some v, m)

theorem Stepped.undecided (h : Stepped (v, m)) : m.Undecided := by
  cases h with
  | more hm => exact hm
  | ended hm => exact hm.undecided

theorem Stepped.final (h : Stepped (v, m)) (hv : v ≠ .nextStep) : m.Ended v := by
  cases h with
  | more hm => exact absurd rfl hv
  | ended hm => exact hm

theorem Paced.undecided {x : Option Verdict × Machine} (h : Paced x) : x.2.Undecided := by
  cases h with
  | outOfFuel hm => exact hm
  | stepped hs => exact hs.undecided

/-- Steps lead from an undecided machine to a verdict or to another one. -/
theorem Undecided.stepWhile (h : m.Undecided) (proceed : Nat → Machine → Bool) (k asked : Nat) :
    Paced (m.stepWhile o proceed k asked) := by
  induction k generalizing m asked with
  | zero => exact .outOfFuel h
  | succ k ih =>
    have hstep := h.step (o := o)
    rw [Machine.stepWhile]
    generalize m.step o = x at hstep
    obtain ⟨u, m₁⟩ := x
    cases u with
    | nextStep =>
      dsimp only
      split
      · exact ih hstep.undecided (asked + 1)
      · exact .stepped hstep
    | ok | compileError | runtimeError => exact .stepped hstep

/-- A machine that has ended repeats its verdict. -/
theorem Ended.stepWhile (h : m.Ended v) (proceed : Nat → Machine → Bool) (k asked : Nat) :
    m.stepWhile o proceed (k + 1) asked = (some v, m) := by
  have hv := h.final
  rw [Machine.stepWhile, h.step]
  cases v with
  | nextStep => exact absurd rfl hv
  | ok | compileError | runtimeError => rfl

section Pieces

variable (hcancel : o.cancel = none)

include hcancel

theorem Undecided.interpret (h : m.Undecided) (k : Nat) : Paced (m.interpret o k) := by
  induction k generalizing m with
  | zero => exact .outOfFuel h
  | succ k ih =>
    have hstep := h.step (o := o)
    rw [interpret_succ hcancel]
    generalize m.step o = x at hstep
    obtain ⟨u, m₁⟩ := x
    cases u with
    | nextStep => exact ih hstep.undecided
    | ok | compileError | runtimeError => exact .stepped hstep

theorem Ended.interpret (h : m.Ended v) (k : Nat) : m.interpret o (k + 1) = (some v, m) := by
  have hv := h.final
  rw [interpret_succ hcancel, h.step]
  cases v with
  | nextStep => exact absurd rfl hv
  | ok | compileError | runtimeError => rfl

/-- A run does not end while there is more to execute. -/
theorem Undecided.interpret_ended (h : m.Undecided) (hrun : m.interpret o n = (some v, m')) :
    m'.Ended v := by
  induction n generalizing m with
  | zero => exact nomatch hrun
  | succ n ih =>
    have hstep := h.step (o := o)
    rw [interpret_succ hcancel] at hrun
    generalize m.step o = x at hstep hrun
    obtain ⟨u, m₁⟩ := x
    cases u with
    | nextStep => exact ih hstep.undecided hrun
    | ok | compileError | runtimeError =>
      cases hrun
      exact hstep.final Verdict.noConfusion

/-- A piece of a run that, on its own, would end with the verdict `v` in the state `m'`: the piece
    ends as well, and what is left of the run ends in the same way. -/
structure Piece (o : Options) (n : Nat) (v : Verdict) (m' : Machine) (x : Option Verdict × Machine) :
    Prop where
  verdict : x.1 = some .nextStep ∨ x.1 = some v
  rest : x.2.interpret o n = (some v, m')

theorem Undecided.step_piece (h : m.Undecided) (hrun : m.interpret o n = (some v, m')) :
    Piece o n v m' (some (m.step o).1, (m.step o).2) := by
  cases n with
  | zero => exact nomatch hrun
  | succ n =>
    have hstep := h.step (o := o)
    rw [interpret_succ hcancel] at hrun
    generalize m.step o = x at hstep hrun
    obtain ⟨u, m₁⟩ := x
    cases u with
    | nextStep => exact ⟨.inl rfl, interpret_add hcancel hrun 1⟩
    | ok | compileError | runtimeError =>
      cases hrun
      exact ⟨.inr rfl, (hstep.final Verdict.noConfusion).interpret hcancel n⟩

/-- Steps as long as the host agrees come to an end before the run does. -/
theorem Undecided.stepWhile_piece (h : m.Undecided) (hrun : m.interpret o n = (some v, m'))
    (proceed : Nat → Machine → Bool) (hk : n ≤ k) (asked : Nat) :
    Piece o n v m' (m.stepWhile o proceed k asked) := by
  induction n generalizing m k asked with
  | zero => exact nomatch hrun
  | succ n ih =>
    cases k with
    | zero => exact absurd hk (Nat.not_succ_le_zero n)
    | succ k =>
      have hstep := h.step (o := o)
      have hpiece := h.step_piece hcancel hrun
      rw [interpret_succ hcancel] at hrun
      rw [Machine.stepWhile]
      generalize m.step o = x at hstep hpiece hrun
      obtain ⟨u, m₁⟩ := x
      cases u with
      | nextStep =>
        dsimp only
        split
        · -- the steps that follow are a piece of a run that is shorter by one step
          have hshorter := ih hstep.undecided hrun (Nat.le_of_succ_le_succ hk) (asked + 1)
          exact ⟨hshorter.verdict, interpret_add hcancel hshorter.rest 1⟩
        · exact hpiece
      | ok | compileError | runtimeError => exact hpiece

end Pieces

/-- A program that has been made ready has not failed. -/
theorem start_undecided (items : List Item) (m : Machine) (h : (m.start items).1 = .nextStep) :
    (m.start items).2.Undecided := by
  intro _
  unfold Machine.start at h ⊢
  split
  · next f hf =>
      rw [hf] at h
      exact nomatch h
  · next d hd =>
      rw [hd] at h
      dsimp only at h ⊢
      split
      · next f hf =>
          rw [hf] at h
          exact nomatch h
      · rfl

end Machine

/-! ## Requests that let a program run on -/

/-- The request lets the program run on, and does nothing else. -/
def Request.paces : Request → Bool
  | .step | .stepWhile _ | .interpret => true
  | .define .. | .run .. | .start .. => false

theorem Reply.ofVerdict?_eq {x : Option Verdict} {v : Verdict} (h : Reply.ofVerdict? x = .verdict v) :
    x = some v := by
  cases x with
  | none => exact nomatch h
  | some u => exact congrArg some (Reply.verdict.inj h)

/-- What the machine does on such a request. -/
def Machine.pace (o : Options) (fuel : Nat) (m : Machine) : Request → Option Verdict × Machine
  | .step => (some (m.step o).1, (m.step o).2)
  | .stepWhile proceed => m.stepWhile o proceed fuel 0
  | .interpret => m.interpret o fuel
  | .define .. | .run .. | .start .. => (none, m)

namespace Machine

variable {o : Options} {m m' : Machine} {v : Verdict} {n k : Nat} {r : Request}
  (hcancel : o.cancel = none)

include hcancel

theorem Undecided.pace (h : m.Undecided) (k : Nat) (r : Request) : Paced (m.pace o k r) := by
  cases r with
  | step => exact .stepped h.step
  | stepWhile proceed => exact h.stepWhile proceed k 0
  | interpret => exact h.interpret hcancel k
  | define | run | start => exact .outOfFuel h

theorem Ended.pace (h : m.Ended v) (k : Nat) (hr : r.paces) : m.pace o (k + 1) r = (some v, m) := by
  cases r with
  | step =>
    rw [Machine.pace, h.step]
  | stepWhile proceed => exact h.stepWhile proceed k 0
  | interpret => exact h.interpret hcancel k
  | define | run | start => exact nomatch hr

theorem Undecided.pace_piece (h : m.Undecided) (hrun : m.interpret o n = (some v, m')) (hk : n ≤ k)
    (hr : r.paces) : Piece o n v m' (m.pace o k r) := by
  cases r with
  | step => exact h.step_piece hcancel hrun
  | stepWhile proceed => exact h.stepWhile_piece hcancel hrun proceed hk 0
  | interpret =>
    have hlong := interpret_add hcancel hrun (k - n)
    rw [Nat.add_sub_cancel' hk] at hlong
    rw [Machine.pace, hlong]
    refine ⟨.inr rfl, ?_⟩
    cases n with
    | zero => exact nomatch hrun
    | succ n => exact (h.interpret_ended hcancel hrun).interpret hcancel n
  | define | run | start => exact nomatch hr

end Machine

namespace Session

variable {o : Options} {s : Session} {m m' : Machine} {v : Verdict} {n k fuel : Nat}

/-- The session with the machine in another state. -/
def onto (s : Session) (m : Machine) : Session := { s with executor := .machine m }

theorem serve_pace {r : Request} (hr : r.paces) (m : Machine) :
    (s.onto m).serve o fuel r = (.ofVerdict? (m.pace o fuel r).1, s.onto (m.pace o fuel r).2) := by
  cases r with
  | step => rfl
  | stepWhile proceed => rfl
  | interpret => rfl
  | define | run | start => exact nomatch hr

theorem serveAll_cons (r : Request) (rs : List Request) (s : Session) :
    s.serveAll o fuel (r :: rs) =
      ((s.serve o fuel r).1 :: ((s.serve o fuel r).2.serveAll o fuel rs).1,
        ((s.serve o fuel r).2.serveAll o fuel rs).2) := rfl

/-- Requests can be served piece by piece. -/
theorem serveAll_append (rs rs' : List Request) (s : Session) :
    s.serveAll o fuel (rs ++ rs') =
      ((s.serveAll o fuel rs).1 ++ ((s.serveAll o fuel rs).2.serveAll o fuel rs').1,
        ((s.serveAll o fuel rs).2.serveAll o fuel rs').2) := by
  induction rs generalizing s with
  | nil => rfl
  | cons r rs ih =>
    rw [List.cons_append, serveAll_cons, serveAll_cons, ih]
    rfl

/-- A program that has just been started has not failed. -/
theorem started {s₀ : Session} {file source : String}
    (h : s.serve o fuel (.start file source) = (.verdict .nextStep, s₀)) :
    ∃ m, s₀ = s₀.onto m ∧ m.Undecided := by
  obtain ⟨executor, units⟩ := s
  cases executor with
  | walker w => exact nomatch h
  | machine m₀ =>
    have h : withText o file source startItems ⟨.machine m₀, units⟩ = (.verdict .nextStep, s₀) := h
    unfold withText at h
    split at h
    · exact nomatch h
    · next items world _ =>
        have hstart := Machine.start_undecided items { m₀ with world := world }
        obtain ⟨hverdict, hs⟩ := Prod.mk.inj h
        refine ⟨({ m₀ with world := world }.start items).2, hs ▸ rfl, hstart ?_⟩
        exact Reply.verdict.inj hverdict

section Schedules

variable (hcancel : o.cancel = none)

include hcancel

/-- Requests that let the program run on leave it so that it can run on. -/
theorem serveAll_undecided {rs : List Request} (hrs : ∀ r ∈ rs, r.paces) (h : m.Undecided) :
    ∃ m₁, ((s.onto m).serveAll o fuel rs).2 = s.onto m₁ ∧ m₁.Undecided := by
  induction rs generalizing m with
  | nil => exact ⟨m, rfl, h⟩
  | cons r rs ih =>
    obtain ⟨hr, hrs⟩ := List.forall_mem_cons.1 hrs
    rw [serveAll_cons, serve_pace hr]
    exact ih hrs (h.pace hcancel fuel r).undecided

/-- Once a program has ended, such requests tell so and change nothing. -/
theorem serveAll_ended {rs : List Request} (hrs : ∀ r ∈ rs, r.paces) (h : m.Ended v) (k : Nat) :
    (s.onto m).serveAll o (k + 1) rs = (List.replicate rs.length (.verdict v), s.onto m) := by
  induction rs with
  | nil => rfl
  | cons r rs ih =>
    obtain ⟨hr, hrs⟩ := List.forall_mem_cons.1 hrs
    rw [serveAll_cons, serve_pace hr, h.pace hcancel k hr, ih hrs]
    rfl

/-- Any number of pieces of a run leave a run that ends in the same way. -/
theorem serveAll_pieces {rs : List Request} (hrs : ∀ r ∈ rs, r.paces) (h : m.Undecided)
    (hrun : m.interpret o n = (some v, m')) (hk : n ≤ k) :
    ∃ m₁, ((s.onto m).serveAll o k rs).2 = s.onto m₁
      ∧ (∀ reply ∈ ((s.onto m).serveAll o k rs).1, reply = .verdict .nextStep ∨ reply = .verdict v)
      ∧ m₁.interpret o n = (some v, m') := by
  induction rs generalizing m with
  | nil => exact ⟨m, rfl, fun _ hmem => (nomatch hmem), hrun⟩
  | cons r rs ih =>
    obtain ⟨hr, hrs⟩ := List.forall_mem_cons.1 hrs
    have hpiece := h.pace_piece hcancel hrun hk hr
    obtain ⟨m₁, hm₁, hreplies, hrest⟩ := ih hrs (h.pace hcancel k r).undecided hpiece.rest
    rw [serveAll_cons, serve_pace hr]
    refine ⟨m₁, hm₁, List.forall_mem_cons.2 ⟨?_, hreplies⟩, hrest⟩
    rcases hpiece.verdict with hv | hv
    · exact .inl (congrArg Reply.ofVerdict? hv)
    · exact .inr (congrArg Reply.ofVerdict? hv)

end Schedules

end Session

/-- A program has been started and the host does not stop it. If it would run to its end at once, then
    any requests that let it run on end, and a run after them ends with the same verdict and leaves
    the same session: store, journals, counter and all. And once one of these requests has told the
    verdict, all later ones tell the same and change nothing. -/
theorem stepping_transparent (o : Options) (hcancel : o.cancel = none) {s s₀ : Session}
    {file source : String} {fuel₀ : Nat}
    (hstart : s.serve o fuel₀ (.start file source) = (.verdict .nextStep, s₀)) :
    (∀ n v t, s₀.serve o n .interpret = (.verdict v, t) →
      ∀ schedule : List Request, (∀ r ∈ schedule, r.paces) → ∀ k, n ≤ k →
        ∃ replies, s₀.serveAll o k (schedule ++ [.interpret]) = (replies ++ [.verdict v], t)
          ∧ ∀ reply ∈ replies, reply = .verdict .nextStep ∨ reply = .verdict v)
    ∧ ∀ (earlier : List Request) (r : Request), (∀ r ∈ earlier, r.paces) → r.paces →
      ∀ k v t, ((s₀.serveAll o k earlier).2).serve o k r = (.verdict v, t) → v ≠ .nextStep →
        ∀ later : List Request, (∀ r ∈ later, r.paces) → ∀ k, 0 < k →
          t.serveAll o k later = (List.replicate later.length (.verdict v), t) := by
  obtain ⟨m, hs₀, hm⟩ := Session.started hstart
  rw [hs₀]
  constructor
  · intro n v t hrun schedule hschedule k hk
    rw [Session.serve_pace rfl] at hrun
    obtain ⟨hverdict, rfl⟩ := Prod.mk.inj hrun
    have hrun : m.interpret o n = (some v, (m.interpret o n).2) :=
      Prod.ext (Reply.ofVerdict?_eq hverdict) rfl
    obtain ⟨m₁, hm₁, hreplies, hrest⟩ :=
      Session.serveAll_pieces (s := s₀) hcancel hschedule hm hrun hk
    have hlong := Machine.interpret_add hcancel hrest (k - n)
    rw [Nat.add_sub_cancel' hk] at hlong
    refine ⟨((s₀.onto m).serveAll o k schedule).1, ?_, hreplies⟩
    rw [Session.serveAll_append, hm₁, Session.serveAll_cons, Session.serve_pace rfl,
      Machine.pace, hlong]
    rfl
  · intro earlier r hearlier hr k v t hserve hv later hlater k' hk'
    obtain ⟨m₁, hm₁, hundecided⟩ : ∃ m₁, ((s₀.onto m).serveAll o k earlier).2 = s₀.onto m₁
        ∧ m₁.Undecided := Session.serveAll_undecided hcancel hearlier hm
    rw [hm₁, Session.serve_pace hr] at hserve
    obtain ⟨hverdict, rfl⟩ := Prod.mk.inj hserve
    have hpaced := hundecided.pace hcancel k r
    generalize m₁.pace o k r = x at hpaced hverdict
    cases hpaced with
    | outOfFuel hm₂ => exact nomatch hverdict
    | stepped hstepped =>
      cases Reply.verdict.inj hverdict
      cases k' with
      | zero => exact absurd hk' (Nat.lt_irrefl 0)
      | succ k' => exact Session.serveAll_ended hcancel hlater (hstepped.final hv) k'

/-- A program that is stepped once, then for three steps, then to its end, and once more. -/
theorem stepping_transparent_counter : ∃ s₀ t replies,
    Session.ofMachine.serve {} 0 (.start "" "var a = 1; a = a + 1; print(a);") = (.verdict .nextStep, s₀)
      ∧ s₀.serveAll {} 20 ([.step, .stepWhile fun asked _ => asked < 2] ++ [.interpret])
        = (replies ++ [.verdict .ok], t)
      ∧ t.executor.world.journal.out = #["2"]
      ∧ t.serveAll {} 1 [.step] = ([.verdict .ok], t) := by
  have hcheck : (fun r : Reply × Session => decide (r.1 = .verdict .nextStep)
      && (fun r' : Reply × Session => decide (r'.1 = .verdict .ok
        ∧ r'.2.executor.world.journal.out = #["2"])) (r.2.serve {} 20 .interpret))
      (Session.ofMachine.serve {} 0 (.start "" "var a = 1; a = a + 1; print(a);")) = true := by
    decide +kernel
  generalize hserve : Session.ofMachine.serve {} 0 (.start "" "var a = 1; a = a + 1; print(a);") = r
    at hcheck
  obtain ⟨reply, s₀⟩ := r
  dsimp only at hcheck
  generalize hinterpret : s₀.serve {} 20 .interpret = r at hcheck
  obtain ⟨reply', t⟩ := r
  simp only [Bool.and_eq_true, decide_eq_true_eq] at hcheck
  obtain ⟨rfl, rfl, hout⟩ := hcheck
  obtain ⟨hpieces, hlater⟩ := stepping_transparent {} rfl hserve
  obtain ⟨replies, hserved, -⟩ := hpieces 20 .ok t hinterpret
    [.step, .stepWhile fun asked _ => asked < 2] (by decide) 20 (Nat.le_refl 20)
  exact ⟨s₀, t, replies, rfl, hserved, hout,
    hlater [] .interpret (by rintro _ ⟨⟩) rfl 20 .ok t hinterpret Verdict.noConfusion [.step]
      (by decide) 1 Nat.one_pos⟩

end Eleu
