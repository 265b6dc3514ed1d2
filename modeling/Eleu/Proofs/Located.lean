import Eleu.Proofs.Cancellation
import Eleu.Proofs.Machine.Settled
import Eleu.Proofs.Walker.Settled

/-! # Faults are reported with their place

    Most faults arise without a place and get one on their way out: in the walker from the innermost
    expression or statement that is left, in the machine from the instruction. What an instruction is
    placed at, and what a handler places a failed expectation at, are nodes of the program. A run that
    ends with a fault therefore reports one that has the place of a node, or one that a native of the
    host has given to its own error. The exception is the machine when its host stops it. -/

namespace Eleu

/-- The host never stops a run. -/
def Options.NeverStops (o : Options) : Prop := ∀ stop ∈ o.cancel, ∀ n, stop n = false

/-- A native of the host gives an error of its own this place. -/
def Options.HostPlace (o : Options) (place : Span) : Prop :=
  ∃ name args w f w', o.host name args w = .error f w' ∧ f.span = some place

/-- The declarations of a program, with its places and those that the host gives to its own errors. -/
def Origin.ofRun (o : Options) (items : List Item) : Origin where
  declared d := d ∈ declarationsIn items
  place p := p ∈ itemsSpans items ∨ o.HostPlace p
  spans h _ hs := .inl ((Origin.ofItems items).spans h _ hs)
  inner h := (Origin.ofItems items).inner h

/-- The error journal ends with the report of a fault that has the place of a node of the program, or
    one that a native of the host has given to its own error. -/
def World.Blames (w : World) (o : Options) (items : List Item) : Prop :=
  ∃ (before : World) (f : Fault) (place : Span) (calls : List String),
    (place ∈ itemsSpans items ∨ o.HostPlace place) ∧ f.span = some place
      ∧ w = before.reportFault o f calls
      ∧ ∃ lines : List String, w.journal.err =
        before.journal.err.push (place.text ++ ": " ++ f.message) ++ lines.toArray

/-- There are as many places as operations, and beside each operation stands the place of a node of the
    program. -/
def Chunk.Located (c : Chunk) (items : List Item) : Prop :=
  c.spans.size = c.ops.size ∧ ∀ n < c.ops.size, ∃ p ∈ itemsSpans items, c.span? n = some p

variable {o : Options} {O : Origin} {items : List Item}

theorem Origin.ofRun_admits (o : Options) (items : List Item) : (Origin.ofRun o items).Admits o := by
  intro name args w
  cases h : o.host name args w with
  | ok v w' => trivial
  | error f w' => exact fun p hp => .inr ⟨name, args, w, f, w', h, hp⟩

theorem Options.NeverStops.poll (h : o.NeverStops) (w : World) : (w.poll o).1 = false := by
  unfold World.poll
  cases hc : o.cancel with
  | none => rfl
  | some stop => exact h stop hc w.polls

/-! ## Reports and chunks -/

theorem Fault.text_placed {f : Fault} {p : Span} (h : f.span = some p) :
    f.text = p.text ++ ": " ++ f.message := by
  unfold Fault.text
  rw [h]

/-- The line of the report begins with the place. -/
theorem World.Reported.blames {w : World} (h : w.Reported (.ofRun o items) o) : w.Blames o items := by
  obtain ⟨before, f, calls, ⟨p, hp, hplace⟩, rfl⟩ := h
  obtain ⟨lines, hlines⟩ := before.reportFault_eq o f calls
  refine ⟨before, f, p, calls, hplace, hp, rfl, lines, ?_⟩
  rw [hlines, Fault.text_placed hp]

/-- A chunk with a place beside each operation, whose instructions come from the program. -/
theorem Chunk.Paired.located {c : Chunk} (hc : c.Paired) (h : c.From (.ofItems items)) :
    c.Located items := by
  refine ⟨hc, fun n hn => ?_⟩
  obtain ⟨i, hi⟩ := Option.isSome_iff_exists.1 (Chunk.instr?_isSome.2 hn)
  obtain ⟨p, hp, hplace⟩ := (h hi).span
  obtain ⟨op, -, rfl⟩ := Option.map_eq_some_iff.1 hi
  exact ⟨p, hplace, hp⟩

/-! ## The walker -/

theorem Fault.locate_span (f : Fault) (span : Span) :
    ∃ p, (f.locate (some span)).span = some p := by
  show ∃ p, f.span.or (some span) = some p
  cases f.span with
  | none => exact ⟨span, rfl⟩
  | some p => exact ⟨p, rfl⟩

namespace Walk

variable {n : Nat} {w w' : Walker} {f : Fault}

/-- A fault that leaves an item has a place: that of the item, if it has none yet. -/
theorem item_fault_place {i : Item} (h : item o n i w = .error (.fault f) w') :
    ∃ p, f.span = some p := by
  cases n with
  | zero => exact nomatch h
  | succ n =>
    rw [item, Outcome.bind_apply, poll_apply] at h
    by_cases hstop : (w.world.poll o).1 = true
    · rw [if_pos hstop] at h
      cases h
      exact ⟨i.span, rfl⟩
    · rw [if_neg hstop] at h
      -- what is left is the statement, in the state in which it is counted
      generalize { { w with world := (w.world.poll o).2 } with count := w.count + 1 } = v at h
      change located i.span (statement o n i) _ = _ at h
      unfold located at h
      split at h
      · cases h
        exact Fault.locate_span ..
      · next hne => exact absurd h (hne _ _)

/-- A fault that ends a program has left one of its items. -/
theorem program_fault_place {is : List Item} (h : program o n is w = .error (.fault f) w') :
    ∃ p, f.span = some p := by
  induction n generalizing is w with
  | zero => exact nomatch h
  | succ n ih =>
    cases is with
    | nil => exact nomatch h
    | cons i is =>
      rw [program, Outcome.bind_apply] at h
      cases hi : item o n i w with
      | ok flow w₁ =>
        rw [hi] at h
        exact ih h
      | error e w₁ =>
        rw [hi] at h
        cases h
        exact item_fault_place hi

end Walk

/-! ## Stores with the natives of a host -/

theorem Store.Evolves.withNatives {D : FunctionDecl → Prop} {s : Store} (h : s.Founded D) (e : EnvRef)
    (ns : List HostNative) : s.Evolves D (s.withNatives e ns) := by
  induction ns generalizing s with
  | nil => exact .refl h
  | cons n ns ih =>
    have hn := Store.Evolves.defineNative h e n.1 n.2 .host
    exact hn.trans (ih hn.founded)

theorem Store.hosted_founded {D : FunctionDecl → Prop} (ns : List HostNative) :
    (Store.hosted ns).Founded D ∧ 0 < (Store.hosted ns).envs.size := by
  obtain ⟨hlibrary, henvs⟩ := Store.library_founded (D := D)
  have hns := Store.Evolves.withNatives hlibrary 0 ns
  exact ⟨hns.founded, Nat.lt_of_lt_of_le henvs hns.extends.envs⟩

/-- A walker that sets about a program comes from the program. -/
theorem Visit.from_beginning (n : Nat) (ns : List HostNative) (d : Distances) (items : List Item) :
    Visit.From (.ofRun o items) ⟨n, .program items, .beginning ns d⟩ := by
  obtain ⟨hs, he⟩ := Store.hosted_founded (D := (Origin.ofRun o items).declared) ns
  rw [Walker.beginning_eq]
  exact ⟨hs, he, fun _ hp => .inl hp, fun _ hd => hd, fun _ hv => nomatch hv⟩

/-- A run of the walker that a fault ends reports it with the place of a node. -/
theorem Walker.run_blames (ho : o.HonestHost) (ns : List HostNative) (fuel : Nat)
    (h : ((Walker.fresh.withNatives ns).run o fuel items).1 = some .runtimeError) :
    ((Walker.fresh.withNatives ns).run o fuel items).2.world.Blames o items := by
  cases hr : resolve items with
  | error f =>
    rw [Walker.run_refused hr] at h
    exact nomatch h
  | ok d =>
    rw [Walker.run_eq ns hr] at h ⊢
    have hsettled := (Visit.from_beginning fuel ns d items).settled ho (Origin.ofRun_admits o items)
    change Origin.regime _ |>.Holds _ _ (Walk.program o fuel items (.beginning ns d)) at hsettled
    have hplaced : ∀ f w', Walk.program o fuel items (.beginning ns d) = .error (.fault f) w' →
        ∃ p, f.span = some p := fun _ _ => Walk.program_fault_place
    generalize Walk.program o fuel items (.beginning ns d) = x at h hsettled hplaced ⊢
    fun_cases report o x with
    | case1 w | case2 w | case3 f w => simp [report, *] at h
    | case4 f w =>
      -- a fault of an item has a place, and settled faults have theirs in the program
      obtain ⟨p, hplace⟩ := hplaced f w rfl
      exact World.Reported.blames ⟨_, f, _, ⟨p, hplace, hsettled.2.place p hplace⟩, rfl⟩

/-! ## The machine -/

namespace Machine

variable {m : Machine}

theorem From.withNatives (h : m.From O) (ns : List HostNative) : (m.withNatives ns).From O := by
  induction ns generalizing m with
  | nil => exact h
  | cons n ns ih => exact ih (h.defineNative n.1 n.2).from

theorem from_beginning (ns : List HostNative) (items : List Item) :
    (Machine.beginning ns items).From (.ofRun o items) :=
  ((from_fresh.withNatives ns).start (fun _ hp => Or.inl hp) fun _ hd => hd).1.from

theorem From.after (ho : o.HonestHost) (ha : O.Admits o) (h : m.From O) (k : Nat) :
    (m.after o k).From O := by
  induction k generalizing m with
  | zero => exact h
  | succ k ih => exact ih (h.advance ho ha).1.from

/-- A step that ends the program with a fault. -/
theorem From.step_blames (ho : o.HonestHost) (h : m.From (.ofRun o items)) (hf : m.frames ≠ [])
    (hv : (m.step o).1 = .runtimeError) : (m.step o).2.world.Blames o items :=
  ((h.advance ho (Origin.ofRun_admits o items)).2 hf hv).blames

/-- Steps until the program ends. There is a frame as long as it has not ended. -/
theorem From.interpret_blames (ho : o.HonestHost) (hstop : o.NeverStops) {n : Nat}
    (h : m.From (.ofRun o items)) (hf : m.frames ≠ [])
    (hv : (m.interpret o n).1 = some .runtimeError) : (m.interpret o n).2.world.Blames o items := by
  induction n generalizing m with
  | zero => cases hv
  | succ n ih =>
    -- the poll before a step is not what ends the run, and it leaves the store as it is
    have hpoll := hstop.poll m.world
    have hstore := World.store_poll m.world o
    unfold interpret at hv ⊢
    generalize m.world.poll o = asked at hpoll hstore hv ⊢
    obtain ⟨stop, world⟩ := asked
    obtain rfl : stop = false := hpoll
    have hready : ({ m with world := world } : Machine).From (.ofRun o items) :=
      (h.journal hstore).from
    have hstep := (hready.advance ho (Origin.ofRun_admits o items)).1
    have hframes := step_frames (o := o) (m := { m with world := world })
    have hblames := hready.step_blames ho hf
    dsimp only at hv ⊢
    generalize ({ m with world := world } : Machine).step o = r at hstep hframes hblames hv ⊢
    obtain ⟨verdict, m'⟩ := r
    cases verdict with
    | nextStep => exact ih hstep.from (hframes rfl) hv
    | runtimeError => exact hblames rfl
    | ok => cases hv
    | compileError => cases hv

/-- Nothing is executed before the first step. -/
theorem start_no_fault (m : Machine) (items : List Item) : (m.start items).1 ≠ .runtimeError := by
  unfold start
  split
  · exact nofun
  · dsimp only
    split
    · exact nofun
    · exact nofun

/-- A run of the machine that a fault ends reports it with the place of a node. -/
theorem run_blames (ho : o.HonestHost) (hstop : o.NeverStops) (ns : List HostNative) (fuel : Nat)
    (h : ((Machine.fresh.withNatives ns).run o fuel items).1 = some .runtimeError) :
    ((Machine.fresh.withNatives ns).run o fuel items).2.world.Blames o items := by
  have hstart : Machine.Evolves (.ofRun o items) _ ((Machine.fresh.withNatives ns).start items).2 ∧ _ :=
    (from_fresh.withNatives ns).start (fun _ hp => Or.inl hp) fun _ hd => hd
  have hverdict := start_no_fault (Machine.fresh.withNatives ns) items
  unfold run at h ⊢
  generalize (Machine.fresh.withNatives ns).start items = r at h hstart hverdict ⊢
  obtain ⟨verdict, m⟩ := r
  cases verdict with
  | nextStep => exact hstart.1.from.interpret_blames ho hstop (hstart.2 rfl) h
  | runtimeError => exact absurd rfl hverdict
  | ok => exact nomatch h
  | compileError => exact nomatch h

end Machine

/-- A program that a fault ends, whichever executor runs it, has its fault reported with the place of
    one of its items, expressions or declarations, unless a native of the host has placed it elsewhere;
    so has one that is executed in single steps. In the chunks, of the program and of the functions in
    it, there are as many places as operations, and each operation has the place of a node. -/
theorem faults_located (o : Options) (ho : o.HonestHost) (hstop : o.NeverStops) (items : List Item)
    (ns : List HostNative) :
    (∀ fuel, ((Walker.fresh.withNatives ns).run o fuel items).1 = some .runtimeError →
        ((Walker.fresh.withNatives ns).run o fuel items).2.world.Blames o items)
      ∧ (∀ fuel, ((Machine.fresh.withNatives ns).run o fuel items).1 = some .runtimeError →
        ((Machine.fresh.withNatives ns).run o fuel items).2.world.Blames o items)
      ∧ (∀ k, ((Machine.beginning ns items).after o k).frames ≠ [] →
        (((Machine.beginning ns items).after o k).step o).1 = .runtimeError →
        (((Machine.beginning ns items).after o k).step o).2.world.Blames o items)
      ∧ ∀ d : Distances, (∀ name c, programChunk d name items = .ok c → c.Located items)
        ∧ ∀ decl ∈ declarationsIn items, ∀ c, functionChunk d decl = .ok c → c.Located items := by
  refine ⟨fun fuel => Walker.run_blames ho ns fuel, fun fuel => Machine.run_blames ho hstop ns fuel,
    fun k hf hv => ?_, fun d => ⟨fun name c hc => ?_, fun decl hdecl c hc => ?_⟩⟩
  · have hfrom := (Machine.from_beginning ns items).after ho (Origin.ofRun_admits o items) k
    exact hfrom.step_blames ho hf hv
  · have h := programChunk_from (O := .ofItems items) (d := d) name (fun _ hp => hp) fun _ hd => hd
    rw [hc] at h
    exact (programChunk_paired hc).located h
  · have h := functionChunk_from (O := .ofItems items) (d := d) hdecl
    rw [hc] at h
    exact (functionChunk_paired hc).located h

/-- An expectation that another fault disappoints. -/
theorem faults_located_disappointed : ∃ items : List Item,
    parseText .resume 0 "a" "fun f() { return x; } assert break f() \"boom\";" = .ok items
      ∧ ({} : Options).HonestHost ∧ ({} : Options).NeverStops
      ∧ ((Walker.fresh.withNatives []).run {} 60 items).1 = some .runtimeError
      ∧ ((Walker.fresh.withNatives []).run {} 60 items).2.world.Blames {} items
      ∧ ((Machine.fresh.withNatives []).run {} 60 items).1 = some .runtimeError
      ∧ ((Machine.fresh.withNatives []).run {} 60 items).2.world.Blames {} items := by
  have hruns : (parseText .resume 0 "a" "fun f() { return x; } assert break f() \"boom\";").toOption.map
      (fun items => (((Walker.fresh.withNatives []).run {} 60 items).1,
        ((Machine.fresh.withNatives []).run {} 60 items).1))
      = some (some .runtimeError, some .runtimeError) := by
    decide +kernel
  obtain ⟨items, hparse, hverdicts⟩ := Option.map_eq_some_iff.1 hruns
  obtain ⟨hw, hm⟩ := Prod.mk.inj hverdicts
  have hstop : ({} : Options).NeverStops := nofun
  obtain ⟨hwalker, hmachine, -⟩ := faults_located {} honest_default hstop items []
  exact ⟨items, Outcome.toOption_eq_some.1 hparse, honest_default, hstop, hw, hwalker 60 hw, hm,
    hmachine 60 hm⟩

end Eleu
