import Eleu.Proofs.Agreement.Loops
import Eleu.Proofs.Scope.Distances

/-! # The executors agree

    A source text is run by a fresh walker and by a fresh machine. Unless the run goes astray, one
    ends if and only if the other does, with the same verdict and the same journals but for the dump
    (`executors_agree`). -/

namespace Eleu

open Outcome

/-! ## The end of a run -/

namespace Machine

variable {o : Options} {m m' : Machine} {j k : Nat}

section Interpret

variable (hcancel : o.cancel = none)

include hcancel

/-- Whatever the fuel, a verdict is the only one. -/
theorem interpret_unique {v v' : Verdict} {m₁ m₂ : Machine} (h : m.interpret o j = (some v, m₁))
    (h' : m.interpret o k = (some v', m₂)) : v = v' ∧ m₁ = m₂ := by
  have h₁ := interpret_add hcancel h k
  have h₂ := interpret_add hcancel h' j
  rw [Nat.add_comm] at h₂
  cases h₁.symm.trans h₂
  exact ⟨rfl, rfl⟩

/-- So is that of a whole run. -/
theorem run_unique {items : List Item} {v v' : Verdict} {m₁ m₂ : Machine}
    (h : m.run o j items = (some v, m₁)) (h' : m.run o k items = (some v', m₂)) :
    v = v' ∧ m₁ = m₂ := by
  unfold Machine.run at h h'
  rcases hs : m.start items with ⟨v₀, m₀⟩
  rw [hs] at h h'
  cases v₀ with
  | nextStep => exact interpret_unique hcancel h h'
  | ok | compileError | runtimeError =>
    cases h
    cases h'
    exact ⟨rfl, rfl⟩

/-- A program ends behind its last instruction. -/
theorem interpret_done {frame : Frame} (h : m.Ticks o j m') (hf : m'.frames = [frame])
    (hend : frame.chunk.instr? frame.ip = none) :
    ∃ k, m.interpret o k = (some .ok, { m' with frames := [] }) := by
  cases j with
  | zero =>
    cases h
    refine ⟨1, ?_⟩
    rw [interpret_succ hcancel]
    unfold Machine.step
    simp only [hf, hend]
  | succ j =>
    refine ⟨j + 1, interpret_end hcancel h (by decide) ?_⟩
    unfold Machine.status
    rw [hf]
    exact if_pos (Chunk.instr?_eq_none.1 hend)

/-- A fault that no handler awaits ends the run. -/
theorem interpret_fault {m₂ : Machine} {f : Fault} (h : m.Ticks o j m') (ha : m'.Active)
    (hs : m'.step o = m₂.raise o f) (hh : m₂.handlers = []) :
    m.interpret o (j + 1) = (some .runtimeError, { m₂ with handlers := [] }.fail o f) := by
  refine interpret_verdict hcancel h ha (by decide) (hs.trans ?_)
  unfold raise
  rw [hh]
  rfl

end Interpret

theorem after_add (m : Machine) (j k : Nat) : m.after o (j + k) = (m.after o j).after o k := by
  induction j generalizing m with
  | zero =>
    rw [Nat.zero_add]
    rfl
  | succ j ih =>
    rw [Nat.add_right_comm]
    exact ih _

/-- A machine that has ended stays as it is. -/
theorem after_ended (h : m.frames = []) (k : Nat) : m.after o k = m := by
  induction k with
  | zero => rfl
  | succ k ih =>
    have hstep : (m.step o).2 = m := by
      unfold Machine.step
      rw [h]
    rw [Machine.after, hstep, ih]

/-- What holds of the states of a run up to its end holds of all of them. -/
theorem Execution.of_after (hcancel : o.cancel = none) {m₀ : Machine} {P : Machine → Prop}
    (hP : ∀ i < k + 1, P (m₀.after o i)) (hend : (m₀.after o k).frames = []) (h : m₀.Execution o m) :
    P m := by
  have hafter : ∃ i, m = m₀.after o i := by
    induction h with
    | start => exact ⟨0, rfl⟩
    | step _ ih =>
      obtain ⟨i, rfl⟩ := ih
      exact ⟨i + 1, by rw [after_add]; rfl⟩
    | polled _ ih =>
      obtain ⟨i, rfl⟩ := ih
      exact ⟨i, by rw [poll_none hcancel]⟩
  obtain ⟨i, rfl⟩ := hafter
  rcases Nat.le_total i k with hi | hi
  · exact hP i (Nat.lt_succ_of_le hi)
  · obtain ⟨l, rfl⟩ := Nat.exists_eq_add_of_le hi
    rw [after_add, after_ended hend]
    exact hP k (Nat.lt_succ_self k)

/-- There is an instruction to execute where the machine goes astray. -/
theorem Strays.active (h : m.Strays) : m.Active := by
  cases h with
  | «repeat» frames next => exact ⟨_, _, _, frames, next⟩
  | @setField frame rest value code field span x st frames compiled next =>
    cases code with
    | nil => exact ⟨_, _, _, frames, next.1⟩
    | cons i is => exact ⟨_, _, _, frames, next.1⟩

end Machine

/-! ## A program -/

/-- The walker and the machine have written the same. -/
structure World.SameJournals (w w' : World) : Prop where
  out : w'.journal.out = w.journal.out
  err : w'.journal.err = w.journal.err
  changes : w'.journal.changes = w.journal.changes

theorem World.Like.sameJournals {w w' : World} (h : w.Like w') : w.SameJournals w' := by
  obtain ⟨dump, rfl⟩ := h
  exact ⟨rfl, rfl, rfl⟩

/-- The store that a run starts with has no classes with methods. -/
theorem Store.named_hosted (ns : List HostNative) : (Store.hosted ns).Named := by
  -- a law that no method obeys
  let L : StoreLaw (fun _ => False) :=
    { StoreLaw.any with method _ _ _ := False, method_grows _ h := h, value_bind _ h := h.elim }
  obtain ⟨hobeys, -⟩ := Store.ready_hosted (L := L) ns
  exact fun _ _ _ hget => (hobeys.methods hget).elim

/-- The fuel that a call of a function may take before the machine executes an instruction. -/
theorem exists_bound (D : List FunctionDecl) : ∃ B, 0 < B ∧ ∀ decl ∈ D, 3 * sizeOf decl.body ≤ B := by
  induction D with
  | nil => exact ⟨1, Nat.one_pos, fun _ h => nomatch h⟩
  | cons first rest ih =>
    obtain ⟨B, hpos, hB⟩ := ih
    refine ⟨B + 3 * sizeOf first.body, by omega, fun decl hdecl => ?_⟩
    cases hdecl with
    | head => omega
    | tail _ h =>
      have := hB decl h
      omega

section Program

variable {o : Options} {items : List Item} {d : Distances} (ns : List HostNative) {n k : Nat}

/-- The activation of a program. -/
def Activation.ofProgram (chunk : Chunk) : Activation where
  frame := { chunk, ip := 0, name := "script", span := none, base := 0 }
  frames := []
  envs := []
  handlers := []

/-- The code of a program stands at the start of its chunk. -/
theorem Activation.segment_ofProgram (name : String) (code : List Instr) :
    Segment (Activation.ofProgram (Chunk.addAll { name } code)).code 0 code := by
  have hcode : (Activation.ofProgram (Chunk.addAll { name } code)).code = (code[·]?) :=
    funext fun n => Chunk.instr?_addAll name code n
  rw [hcode]
  exact segment_self code

/-- The machine at the start of a program. -/
theorem Machine.start_eq (hr : resolve items = .ok d) {chunk : Chunk}
    (hc : programChunk (({} : Distances).union d) "script" items = .ok chunk) :
    (Machine.fresh.withNatives ns).start items
      = (.nextStep, { world := { store := .hosted ns }, globals := 0, env := 0
                      distances := ({} : Distances).union d
                      frames := (Activation.ofProgram chunk).framesAt 0 }) := by
  rw [Machine.hosted_eq]
  unfold Machine.start
  rw [hr]
  dsimp only
  rw [hc]
  rfl

/-- A run interprets the chunk that the items are compiled to. -/
theorem Machine.run_eq (hr : resolve items = .ok d) {chunk : Chunk}
    (hc : programChunk (({} : Distances).union d) "script" items = .ok chunk) :
    (Machine.fresh.withNatives ns).run o k items = (Machine.beginning ns items).interpret o k := by
  rw [Machine.run, Machine.beginning, Machine.start_eq ns hr hc]

/-- A program that cannot be resolved is rejected by both. -/
theorem runs_rejected {f : Fault} (hr : resolve items = .error f) (n k : Nat) :
    ∃ m, (Walker.fresh.withNatives ns).run o n items = (some .compileError,
        { Walker.fresh.withNatives ns with
          world := (Walker.fresh.withNatives ns).world.complain f.text })
      ∧ (Machine.fresh.withNatives ns).run o k items = (some .compileError, m)
      ∧ ((Walker.fresh.withNatives ns).world.complain f.text).SameJournals m.world := by
  refine ⟨{ Machine.fresh.withNatives ns with
    world := (Machine.fresh.withNatives ns).world.complain f.text }, ?_, ?_, ?_⟩
  · rw [Walker.run, hr]
  · rw [Machine.run, Machine.start, hr]
  · rw [Walker.hosted_eq, Machine.hosted_eq]
    exact ⟨rfl, rfl, rfl⟩

/-- Both executors begin alike. -/
theorem Machine.Mirrors.beginning (hr : resolve items = .ok d) {chunk : Chunk}
    (hc : programChunk (({} : Distances).union d) "script" items = .ok chunk) (D : List FunctionDecl) :
    (Machine.beginning ns items).Mirrors D (({} : Distances).union d) (.ofProgram chunk) 0 []
      (.beginning ns d) := by
  rw [Machine.beginning, Machine.start_eq ns hr hc, Walker.beginning_eq]
  exact {
    frames := rfl, envs := rfl, handlers := rfl, stack := rfl, globals := rfl, world := .refl _
    coherent := ⟨rfl, by rintro _ _ ⟨⟩⟩, distances := rfl, calls := ⟨rfl, rfl⟩, trace := rfl
    named := Store.named_hosted ns, env := rfl }

/-- What the runs of a resolved program come to: they go astray, or they end alike, or the walker has
    not enough fuel and the machine does not end before it has executed `k` instructions. -/
inductive Comparison (o : Options) (ns : List HostNative) (items : List Item) (d : Distances)
    (n k : Nat) : Prop where
  | astray {m : Machine} (walker : Visit.GoesAstray o ⟨n, .program items, .beginning ns d⟩)
      (reached : (Machine.beginning ns items).Execution o m) (machine : m.Strays)
  | alike {j : Nat} {v : Verdict} {w : Walker} {m : Machine}
      (walker : (Walker.fresh.withNatives ns).run o n items = (some v, w))
      (machine : (Machine.fresh.withNatives ns).run o j items = (some v, m))
      (world : w.world.Like m.world)
  | outOfFuel (walker : ((Walker.fresh.withNatives ns).run o n items).1 = none)
      (machine : ∀ j < k, ((Machine.fresh.withNatives ns).run o j items).1 = none)

/-- A program that is simulated ends alike in both executors. -/
theorem Comparison.of_simulates (hcancel : o.cancel = none) (hr : resolve items = .ok d) {chunk : Chunk}
    (hc : programChunk (({} : Distances).union d) "script" items = .ok chunk)
    {D : List FunctionDecl}
    (hends : ∀ f w, Walk.program o n items (.beginning ns d) = .error (.fault f) w →
      w.calls = [] ∧ f.cause.kind ≠ .resolve)
    (h : Simulates o D (({} : Distances).union d)
      (Visit.GoesAstray o ⟨n, .program items, .beginning ns d⟩) (.ofProgram chunk) [] k
      (fun _ w m => m.Mirrors D (({} : Distances).union d) (.ofProgram chunk) chunk.ops.size [] w)
      (Machine.beginning ns items) (Walk.program o n items (.beginning ns d))) :
    Comparison o ns items d n k := by
  have hrun := Walker.run_eq (o := o) (n := n) ns hr
  generalize Walk.program o n items (.beginning ns d) = r at h hrun hends
  cases h with
  | @astray _ j m hv ht hm =>
    have hafter := ht.after_eq hm.active
    exact .astray hv (hafter ▸ .after .start j) hm
  | @ok _ w j m ht hm =>
    obtain ⟨j', hj⟩ := Machine.interpret_done hcancel ht hm.frames
      (Chunk.instr?_eq_none.2 (Nat.le_refl _))
    exact .alike hrun ((Machine.run_eq ns hr hc).trans hj) hm.world
  | @fault f w j m₁ m₂ hf ht ha hs hm =>
    have hj := Machine.interpret_fault hcancel ht ha hs hm.handlers
    obtain ⟨hcalls, hkind⟩ := hends f w rfl
    rw [Walker.report_fault hkind] at hrun
    refine .alike hrun ((Machine.run_eq ns hr hc).trans hj) ?_
    show World.Like _ (m₂.world.reportFault o f (m₂.frames.dropLast.map Frame.text))
    rw [hm.texts, hcalls]
    exact hm.world.reportFault o f _
  | outOfFuel hl =>
    refine .outOfFuel (by rw [hrun]; rfl) fun j hj => ?_
    rw [Machine.run_eq ns hr hc]
    exact Machine.interpret_none hcancel (hl.of_le hj)

/-- Given enough fuel for the walker, the machine can go on for as long as one likes if the walker has
    not ended. -/
theorem exists_comparison (ho : o.TameHost) (hb : o.BlindHost) (hd : o.DynamicHost)
    (hcancel : o.cancel = none) {recovery : Recovery} {unit : Nat} {file source : String}
    (parsed : parseText recovery unit file source = .ok items) (hr : resolve items = .ok d) :
    (∀ n, Comparison o ns items d n 0) ∧ ∀ k, ∃ n, Comparison o ns items d n k := by
  obtain ⟨hids, hexact⟩ := parseText_exact parsed hr
  obtain ⟨chunk, hchunk⟩ := programChunk_total "script" hexact
  obtain ⟨B, hpos, hB⟩ := exists_bound (declarationsIn items)
  have hcompare : ∀ n k, Enough B (3 * sizeOf items) k n → Comparison o ns items d n k := by
    intro n k hfuel
    have hplaced : Visit.Placed (.plain (declarationsIn items) (itemsReferences [] items)
        (({} : Distances).union d)) ⟨n, .program items, .beginning ns d⟩ := .program_exact n hexact
    refine .of_simulates ns hcancel hr hchunk (D := declarationsIn items) ?_ ?_
    · intro f w hw
      have hsound := Visit.sound ho n (.program items) _ hplaced fun _ _ => .all _
      have hkept : Ends (Walk.program o n items (.beginning ns d)) _ _ := hsound
      rw [hw] at hkept
      exact ⟨hkept.1.calls.trans (by rw [Walker.beginning_eq]), hkept.2.cause hd⟩
    · have hmirrors := Machine.Mirrors.beginning ns hr hchunk (declarationsIn items)
      simp only [programChunk, except_bind_eq_ok, Except.ok.injEq] at hchunk
      obtain ⟨code, hcode, rfl⟩ := hchunk
      have hgrounded : Grounded { distances := ({} : Distances).union d } none 0
          (Walker.beginning ns d).world.store (Walker.beginning ns d).env :=
        ⟨fun _ hx => (nomatch hx), ⟨_, rfl⟩, Bool.noConfusion, Bool.noConfusion⟩
      have hsim := Visit.simulated ho hb hcancel hids hpos hB n _ _ hplaced hcode rfl rfl hexact
        ⟨rfl, Activation.segment_ofProgram _ _, hmirrors, hgrounded⟩ hfuel
      rw [Nat.zero_add, ← Chunk.size_addAll "script" code] at hsim
      exact hsim
  exact ⟨fun n => hcompare n 0 (.inl rfl), fun k => ⟨_, hcompare _ k (.inr (Nat.le_refl _))⟩⟩

end Program

/-! ## Runs that go astray and runs that do not -/

/-- What the machine is about to do. -/
def Machine.next? (m : Machine) : Option Op :=
  match m.frames with
  | [] => none
  | frame :: _ => frame.chunk.ops[frame.ip]?

/-- No field is assigned to in the current frame, and no count above 2 ^ 53 is about to be tested. -/
def Machine.keepsPath (m : Machine) : Bool :=
  (match m.frames with
    | [] => true
    | frame :: _ => frame.chunk.ops.all fun
      | .setField _ => false
      | _ => true)
  && match m.next?, m.stack with
    | some (.repeatTest _), x :: _ =>
      match m.world.store.rounds x with
      | .ok times => times ≤ 2 ^ 53
      | .error _ => true
    | _, _ => true

theorem Machine.not_strays {m : Machine} (h : m.keepsPath = true) : ¬ m.Strays := by
  intro hs
  unfold Machine.keepsPath Machine.next? at h
  rw [Bool.and_eq_true] at h
  obtain ⟨hfields, hcount⟩ := h
  cases hs with
  | @setField frame rest value code field span x st frames compiled next stack other =>
    obtain ⟨-, hset, -⟩ := Segment.append.1 next
    rw [frames] at hfields
    have hmem := Array.mem_of_getElem? (Chunk.op_of_instr? hset)
    exact nomatch Array.all_eq_true_iff_forall_mem.1 hfields _ hmem
  | @«repeat» frame rest target span x st times frames next stack whole large =>
    simp only [frames, Chunk.op_of_instr? next, stack, whole, decide_eq_true_eq] at hcount
    exact absurd hcount (Nat.not_le_of_lt large)

theorem Options.blindHost_default : ({} : Options).BlindHost := fun _ _ _ _ => rfl

/-- A source text that is run by both executors, with the same natives of the host, and does not go
    astray: if the walker ends then the machine ends, and if the machine ends then the walker ends, with
    the same verdict and the same lines of output, of errors with their places and active calls, and of
    changes. -/
theorem executors_agree (o : Options) (ho : o.TameHost) (hb : o.BlindHost) (hd : o.DynamicHost)
    (hcancel : o.cancel = none) (ns : List HostNative) {recovery : Recovery} {unit : Nat} {file source : String}
    {items : List Item} (parsed : parseText recovery unit file source = .ok items) :
    (∀ n v w, (Walker.fresh.withNatives ns).run o n items = (some v, w) →
      (∀ d, resolve items = .ok d → ¬ Visit.GoesAstray o ⟨n, .program items, .beginning ns d⟩) →
        ∃ k m, (Machine.fresh.withNatives ns).run o k items = (some v, m)
          ∧ w.world.SameJournals m.world)
      ∧ ∀ k v m, (Machine.fresh.withNatives ns).run o k items = (some v, m) →
        (∀ m', (Machine.beginning ns items).Execution o m' → ¬ m'.Strays) →
          ∃ n w, (Walker.fresh.withNatives ns).run o n items = (some v, w)
            ∧ w.world.SameJournals m.world := by
  cases hr : resolve items with
  | error f =>
    constructor
    · intro n v w hw _
      obtain ⟨m, hm⟩ := runs_rejected (o := o) ns hr n 0
      cases hw.symm.trans hm.1
      exact ⟨0, m, hm.2.1, hm.2.2⟩
    · intro k v m hm _
      obtain ⟨m', hw, hm', hsame⟩ := runs_rejected (o := o) ns hr 0 k
      cases hm.symm.trans hm'
      exact ⟨0, _, hw, hsame⟩
  | ok d =>
    obtain ⟨hwalker, hmachine⟩ := exists_comparison ns ho hb hd hcancel parsed hr
    constructor
    · intro n v w hw hstray
      cases hwalker n with
      | astray hv => exact absurd hv (hstray d rfl)
      | alike hw' hm hlike =>
        cases hw.symm.trans hw'
        exact ⟨_, _, hm, hlike.sameJournals⟩
      | outOfFuel hnone =>
        rw [hw] at hnone
        exact nomatch hnone
    · intro k v m hm hstray
      obtain ⟨n, hcompare⟩ := hmachine (k + 1)
      cases hcompare with
      | astray _ hreached hm' => exact absurd hm' (hstray _ hreached)
      | alike hw hm' hlike =>
        obtain ⟨rfl, rfl⟩ := Machine.run_unique hcancel hm hm'
        exact ⟨n, _, hw, hlike.sameJournals⟩
      | outOfFuel _ hnone =>
        have hk := hnone k (Nat.lt_succ_self k)
        rw [hm] at hk
        exact nomatch hk

/-- A program with a call and a loop. -/
theorem executors_agree_loop : ∃ (items : List Item) (n : Nat) (w : Walker),
    parseText .resume 0 "" "fun f(x) { repeat (2) { x = x + 1; } return x; } print(f(1));" = .ok items
      ∧ (Walker.fresh.withNatives []).run {} n items = (some .ok, w)
      ∧ w.world.journal.out = #["3"] := by
  have hcheck : ((parseText .resume 0 ""
        "fun f(x) { repeat (2) { x = x + 1; } return x; } print(f(1));").toOption.any fun items =>
      (fun r : Option Verdict × Machine => decide (r.1 = some .ok ∧ r.2.world.journal.out = #["3"]))
          ((Machine.fresh.withNatives []).run {} 40 items)
        && (List.range 41).all (fun k => ((Machine.beginning [] items).after {} k).keepsPath)
        && ((Machine.beginning [] items).after {} 40).frames.isEmpty) = true := by
    decide +kernel
  obtain ⟨items, hparsed, hcheck⟩ := Outcome.any_toOption.1 hcheck
  simp only [Bool.and_eq_true, List.all_eq_true, List.mem_range, List.isEmpty_iff,
    decide_eq_true_eq] at hcheck
  obtain ⟨⟨⟨hrun, hout⟩, hpath⟩, hend⟩ := hcheck
  have hstrays : ∀ m', (Machine.beginning [] items).Execution {} m' → ¬ m'.Strays := fun m' hm' =>
    hm'.of_after (P := fun m' => ¬ m'.Strays) rfl (fun k hk => Machine.not_strays (hpath k hk)) hend
  obtain ⟨n, w, hw, hsame⟩ := (executors_agree {} tameHost_default
    Options.blindHost_default dynamicHost_default rfl [] hparsed).2 40 .ok _ (Prod.ext hrun rfl) hstrays
  exact ⟨items, n, w, hparsed, hw, hsame.out.symm.trans hout⟩

/-- Once a walker has enough fuel to assign to a field of nil, more makes no difference. -/
theorem Walk.program_nil_field (s₁ s₂ s₃ : Span) (field : String) (value : Expr) (w : Walker) (n : Nat) :
    Walk.program {} n [.expr (.setField (.literal .nil s₁) field value s₂) s₃] w
        = Walk.program {} 5 [.expr (.setField (.literal .nil s₁) field value s₂) s₃] w
      ∨ ∃ w', Walk.program {} n [.expr (.setField (.literal .nil s₁) field value s₂) s₃] w
        = .error .outOfFuel w' :=
  match n with
  | 0 | 1 | 2 | 3 | 4 => .inr ⟨_, rfl⟩
  | _ + 5 => .inl rfl

/-- The parts of the only statement of a program, if it assigns to a field of nil. -/
def nilField? : List Item → Option (Span × String × Expr × Span × Span)
  | [.expr (.setField (.literal .nil s₁) field value s₂) s₃] => some (s₁, field, value, s₂, s₃)
  | _ => none

theorem eq_of_nilField? {items : List Item} {s₁ s₂ s₃ : Span} {field : String} {value : Expr}
    (h : nilField? items = some (s₁, field, value, s₂, s₃)) :
    items = [.expr (.setField (.literal .nil s₁) field value s₂) s₃] := by
  unfold nilField? at h
  split at h
  · cases h
    rfl
  · cases h

/-- An instruction on which the executors do not differ. -/
def Op.staysOnPath : Op → Bool
  | .setField _ | .repeatTest _ => false
  | _ => true

/-- The walker tests an object before it evaluates what is assigned to its field, and the machine does
    so afterwards. Where neither the object nor the value can be used, the runs end with different
    faults, although the machine does not come to assign to a field at all. -/
theorem nil_field_differs : ∃ (items : List Item) (m : Machine),
    parseText .resume 0 "" "nil.x = b;" = .ok items
      ∧ (Machine.fresh.withNatives []).run {} 2 items = (some .runtimeError, m)
      ∧ (∀ m', (Machine.beginning [] items).Execution {} m' →
          (∀ field, m'.next? ≠ some (.setField field))
            ∧ ∀ target, m'.next? ≠ some (.repeatTest target))
      ∧ ∀ n v w, (Walker.fresh.withNatives []).run {} n items = (some v, w) →
          ¬ w.world.SameJournals m.world := by
  have hcheck : ((parseText .resume 0 "" "nil.x = b;").toOption.any fun items =>
      (nilField? items).isSome && (resolve items).toOption.isSome
        && (fun r : Option Verdict × Machine => decide (r.1 = some .runtimeError
            ∧ r.2.world.journal.err ≠ ((Walker.fresh.withNatives []).run {} 5 items).2.world.journal.err))
          ((Machine.fresh.withNatives []).run {} 2 items)
        && (List.range 3).all (fun k => ((Machine.beginning [] items).after {} k).next?.all Op.staysOnPath)
        && ((Machine.beginning [] items).after {} 2).frames.isEmpty) = true := by
    decide +kernel
  obtain ⟨items, hparsed, hcheck⟩ := Outcome.any_toOption.1 hcheck
  simp only [Bool.and_eq_true, List.all_eq_true, List.mem_range, List.isEmpty_iff,
    decide_eq_true_eq, Option.isSome_iff_exists] at hcheck
  obtain ⟨⟨⟨⟨⟨⟨s₁, field, value, s₂, s₃⟩, hfield⟩, d, hd⟩, hm, herr⟩, hnext⟩, hend⟩ := hcheck
  obtain rfl := eq_of_nilField? hfield
  have hd := Outcome.toOption_eq_some.1 hd
  refine ⟨_, _, hparsed, Prod.ext hm rfl, fun m' hm' => ?_, fun n v w hw hsame => ?_⟩
  · refine hm'.of_after (P := fun m' => (∀ field, m'.next? ≠ some (.setField field))
      ∧ ∀ target, m'.next? ≠ some (.repeatTest target)) rfl (fun k hk => ?_) hend
    have hk := hnext k hk
    constructor
    · intro field hf
      rw [hf] at hk
      cases hk
    · intro target ht
      rw [ht] at hk
      cases hk
  · rw [Walker.run_eq [] hd] at hw
    rcases Walk.program_nil_field s₁ s₂ s₃ field value (.beginning [] d) n with hn | ⟨w', hn⟩
    · rw [hn, ← Walker.run_eq [] hd] at hw
      rw [hw] at herr
      exact herr hsame.err
    · rw [hn] at hw
      cases hw

/-- The host with natives that cut environments off lacks nothing else. -/
theorem Machine.cutting_blind : cutting.BlindHost ∧ cutting.DynamicHost := by
  refine ⟨fun name args w dump => ?_, fun name args w => ?_⟩
  · unfold cutting
    dsimp only
    split <;> rfl
  · unfold cutting
    dsimp only
    split <;> trivial

/-- A host whose natives report a static error. -/
def Options.refusing : Options where
  host _ _ := NativeM.fail (.reported .resolve "refused")

/-- It lacks nothing else. -/
theorem Options.refusing_tame : refusing.TameHost ∧ refusing.BlindHost :=
  ⟨⟨fun _ _ w => Store.SameScopes.spares (.refl w.store), fun _ _ _ _ _ h => h, fun _ _ _ => rfl⟩,
    fun _ _ _ _ => rfl⟩

/-- Runs that end with different verdicts. The first is a run in which the machine fails at a value that
    is assigned to a field of nil. In the other two it is the host that makes the difference: the machine
    cannot leave a scope that a native has cut off, and the walker takes a static error that a native
    reports for one of the program. -/
theorem executors_differ :
    (∃ (items : List Item) (m : Machine), parseText .resume 0 "" "nil.x = b;" = .ok items
      ∧ (Machine.fresh.withNatives []).run {} 2 items = (some .runtimeError, m)
      ∧ (∀ m', (Machine.beginning [] items).Execution {} m' →
          (∀ field, m'.next? ≠ some (.setField field))
            ∧ ∀ target, m'.next? ≠ some (.repeatTest target))
      ∧ ∀ n v w, (Walker.fresh.withNatives []).run {} n items = (some v, w) →
          ¬ w.world.SameJournals m.world)
    ∧ (Machine.cutting.BlindHost ∧ Machine.cutting.DynamicHost ∧ ∃ items : List Item,
        parseText .resume 0 "" "{ fun h() {} cut(h); } print(1);" = .ok items
          ∧ ((Walker.fresh.withNatives [("cut", ["f"])]).run Machine.cutting 40 items).1 = some .ok
          ∧ ((Machine.fresh.withNatives [("cut", ["f"])]).run Machine.cutting 40 items).1
            = some .runtimeError)
    ∧ Options.refusing.TameHost ∧ Options.refusing.BlindHost ∧ ∃ items : List Item,
        parseText .resume 0 "" "fun f() { bad(); } f();" = .ok items
          ∧ ((Walker.fresh.withNatives [("bad", [])]).run Options.refusing 40 items).1
            = some .compileError
          ∧ ((Machine.fresh.withNatives [("bad", [])]).run Options.refusing 40 items).1
            = some .runtimeError := by
  have hcut : ((parseText .resume 0 "" "{ fun h() {} cut(h); } print(1);").toOption.any fun items =>
      decide (((Walker.fresh.withNatives [("cut", ["f"])]).run Machine.cutting 40 items).1 = some .ok
        ∧ ((Machine.fresh.withNatives [("cut", ["f"])]).run Machine.cutting 40 items).1
          = some .runtimeError)) = true := by
    decide +kernel
  have hrefused : ((parseText .resume 0 "" "fun f() { bad(); } f();").toOption.any fun items =>
      decide (((Walker.fresh.withNatives [("bad", [])]).run Options.refusing 40 items).1
          = some .compileError
        ∧ ((Machine.fresh.withNatives [("bad", [])]).run Options.refusing 40 items).1
          = some .runtimeError)) = true := by
    decide +kernel
  obtain ⟨items, hparsed, hcut⟩ := Outcome.any_toOption.1 hcut
  obtain ⟨items', hparsed', hrefused⟩ := Outcome.any_toOption.1 hrefused
  exact ⟨nil_field_differs,
    ⟨Machine.cutting_blind.1, Machine.cutting_blind.2, items, hparsed, of_decide_eq_true hcut⟩,
    Options.refusing_tame.1, Options.refusing_tame.2, items', hparsed', of_decide_eq_true hrefused⟩

end Eleu
