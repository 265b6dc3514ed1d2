import Eleu.Proofs.Machine.Reachable
import Eleu.Proofs.Machine.Recover
import Eleu.Proofs.Scope.Resolved
import Eleu.Proofs.Tree.Regular

/-! # The machine never runs into a fault of its own

    Whatever a host asks of a machine, and in whatever order, the machine is never short of values,
    frames or scopes (`Machine.Good.faultFree`). The invariant is `Machine.Good` on the loose footing,
    which knows the shapes of the code but nothing about distances: after a second source text was
    started, the distances of the first one may have been overwritten.

    It is also all that can be had of a host whose natives do more than the library. Without it,
    a native may cut the scopes of the running program short (`Machine.scopes_cut_short`). -/

namespace Eleu

/-! ## The lax setting -/

/-- Any chunk of a function is right for any other function. -/
theorem Setting.lax_compiles (d : Distances) : Setting.lax.Compiles d := by
  rintro decl other Γ Δ chunk ⟨R, d', Γ', hf⟩ hc - -
  obtain ⟨-, -, -, hbody⟩ := FunctionDecl.follows_iff.1 hf
  exact balanced_function Setting.lax.stable hc
    (items_transfer (R.transfer_lax d' d) decl.body (fun _ => nofun) hbody) fun _ => trivial

namespace Machine

variable {S : Footing} {o : Options} {m : Machine}

/-! ## What a host does between two instructions -/

/-- Rows stay what they are as long as no frame gets a variable. -/
theorem Runs.keeps {m' : Machine} {ip : Nat} {r : Row} {rs : List Row} (h : m.Runs S ip r rs)
    (hf : m'.frames = m.frames) (he : m'.env = m.env) (hes : m'.envs = m.envs)
    (hst : m'.stack = m.stack) (hh : m'.handlers = m.handlers) (hr : m'.globals = m.globals)
    (hk : S.keeps m.world.store m'.world.store) : m'.Runs S ip r rs := by
  obtain ⟨rest, hi, hb⟩ := h.below
  have hg := S.keeps_grows hk
  refine ⟨hf.trans h.frames, he.trans h.env, hes.trans h.envs, ?_, ?_, ?_, rest, ?_, hb.grows hg⟩
  · rw [hst]
    exact h.top.grows hg
  · rw [hst]
    exact h.flag
  · rw [Owns, hr]
    exact S.owned_keeps hk h.owned
  · rw [hh]
    exact hi

theorem Good.inWorld (h : m.Good S o) {w : World} (hw : w.store.Obeys S.law)
    (hk : S.keeps m.world.store w.store) : Good S o { m with world := w } := by
  refine ⟨h.holds.update hw (S.keeps_grows hk) fun v hv => .inl hv, ?_, h.depth⟩
  rcases h.rows with hnil | ⟨r, rs, hruns⟩
  · exact .inl hnil
  · exact .inr ⟨r, rs, hruns.keeps rfl rfl rfl rfl rfl rfl hk⟩

/-- What is written and asked does not matter. -/
theorem Good.inJournal (h : m.Good S o) {w : World} (hs : w.store = m.world.store) :
    Good S o { m with world := w } :=
  h.inWorld (by rw [hs]; exact h.holds.store) (by rw [hs]; exact S.keeps_of (.refl _ _))

theorem Good.defineNative (h : m.Good S o) (name : String) (params : List String) :
    (m.defineNative name params).Good S o :=
  h.inWorld (S.obeys_native name params .host h.holds.store h.holds.root)
    (S.keeps_native name params .host h.holds.root)

theorem fresh_eq : fresh =
    { world := { store := (({} : Store).newEnv none).2.installLibrary 0 }, globals := 0, env := 0 } :=
  rfl

theorem Good.fresh (hc : S.Compiles {}) : fresh.Good S o := by
  obtain ⟨hobeys, hroot⟩ := Store.ready_library (L := S.law)
  rw [fresh_eq]
  exact ⟨⟨hobeys, fun _ h => (nomatch h), fun _ h => (nomatch h), hc, S.root_of hroot⟩, .inl ⟨rfl, rfl⟩,
    Nat.zero_le _⟩

/-- The machine at the start of a program. -/
theorem Good.started (hs : m.world.store.Obeys S.law) (hr : S.root m.world.store m.globals)
    (hc : ∀ {decl : FunctionDecl} {Γ : Context} {chunk : Chunk}, S.rules.known decl Γ →
      m.chunks.get? decl.id = some chunk → S.Fitting chunk (S.start decl Γ))
    {d : Distances} (hd : S.Compiles d) {chunk : Chunk} {L : Nat → Option Shape}
    (hL : L 0 = some {}) (hb : chunk.Balanced S.rules false L) :
    Good S o { m with
      distances := d, failed := false, stack := [], handlers := [], envs := [], env := m.globals,
      frames := [{ chunk, ip := 0, name := "script", span := none, base := 0 }] } := by
  refine ⟨⟨hs, fun _ h => (nomatch h), hc, hd, hr⟩,
    .inr ⟨{ frame := { chunk, ip := 0, name := "script", span := none, base := 0 },
            env := m.globals, shapes := L, shape := {} }, [], ?_⟩, Nat.succ_le_succ (Nat.zero_le _)⟩
  refine ⟨rfl, rfl, rfl, ⟨hb, hL, rfl, rfl, S.chain_nil _ _⟩, Shape.flagless rfl, S.owned_start hr, [],
    ?_, rfl⟩
  exact Row.installs_none rfl

/-- The start of a run compiles the program. -/
theorem Good.start (h : m.Good .loose o) {items : List Item} (hregular : itemsRegular items)
    (hids : (itemsIds items).Nodup) : (m.start items).2.Good .loose o := by
  unfold Machine.start
  cases hr : resolve items with
  | error f => exact h.inJournal rfl
  | ok d =>
    dsimp only
    have hcompiles : Setting.lax.Compiles (m.distances.union d) := Setting.lax_compiles _
    cases hc : programChunk (m.distances.union d) "script" items with
    | error f =>
      refine ⟨⟨h.holds.store, h.holds.stack, h.holds.chunks, hcompiles, h.holds.root⟩, ?_, h.depth⟩
      rcases h.rows with hnil | ⟨r, rs, hruns⟩
      · exact .inl hnil
      · exact .inr ⟨r, rs, hruns.keeps rfl rfl rfl rfl rfl rfl (Footing.loose.keeps_of (.refl _ _))⟩
    | ok chunk =>
      have hlax : itemsFollow .lax (m.distances.union d) none false [] items :=
        items_transfer (Rules.transfer_lax _ _ _) items (fun _ => nofun) (resolve_noted hr hregular hids)
      obtain ⟨L, hL, hb⟩ := balanced_program Setting.lax.stable hc hlax
      exact Good.started h.holds.store h.holds.root h.holds.chunks hcompiles hL hb

/-! ## Reachable machines -/

/-- Whatever happens next, the machine stays good. -/
theorem Good.next (ho : o.SafeHost) {m' : Machine} (h : m.Good .loose o) (hn : m.Next o m') :
    m'.Good .loose o := by
  cases hn with
  | defineNative name params => exact h.defineNative name params
  | start parsed =>
    obtain ⟨hregular, hids⟩ := parseText_tree parsed
    exact h.start hregular hids
  | step => exact h.step (Footing.loose_bears ho) (.all _)
  | polled => exact h.inJournal (World.store_poll _ o)
  | cancelled => exact .fail h.holds _
  | complained lines => exact h.inJournal (World.store_complainAll _ lines)

/-- Every reachable machine is good. -/
theorem Reachable.good (ho : o.SafeHost) (h : m.Reachable o) : m.Good .loose o := by
  induction h with
  | fresh => exact .fresh (Setting.lax_compiles {})
  | next _ hn ih => exact ih.next ho hn

end Machine

/-! ## Fault freedom -/

section Rows

variable {S : Footing}

theorem Below.bases {s : Store} {base : Nat} {rs : List Row} {hs : List Handler}
    (h : Below S s base rs hs) : ∀ r ∈ rs, r.frame.base ≤ base := by
  induction rs generalizing base hs with
  | nil => exact fun _ h => nomatch h
  | cons r rs ih =>
    obtain ⟨hr, -, hl, rest, -, hb⟩ := h
    have hheight := hr.height
    have hbase : r.frame.base ≤ base := by omega
    intro r' hr'
    cases hr' with
    | head => exact hbase
    | tail _ hr' => exact Nat.le_trans (ih hb r' hr') hbase

/-- A frame of a call stands inside its code. -/
theorem Row.Stands.inside {s : Store} {height : Nat} {r : Row} (h : r.Stands S s true height) :
    r.frame.ip < r.frame.chunk.ops.size := by
  rcases h.balanced.inside h.shape with hlt | ⟨hcall, -, -⟩
  · exact hlt
  · exact nomatch hcall

theorem Below.inside {s : Store} {base : Nat} {rs : List Row} {hs : List Handler}
    (h : Below S s base rs hs) : ∀ r ∈ rs.dropLast, r.frame.ip < r.frame.chunk.ops.size := by
  induction rs generalizing base hs with
  | nil => exact fun _ h => nomatch h
  | cons r rs ih =>
    obtain ⟨hr, -, -, rest, -, hb⟩ := h
    cases rs with
    | nil => exact fun _ h => nomatch h
    | cons r₁ rs =>
      intro r' hr'
      rw [List.dropLast_cons_cons] at hr'
      cases hr' with
      | head => exact hr.inside
      | tail _ hr' => exact ih hb r' hr'

end Rows

namespace Machine

variable {S : Footing} {o : Options} {m : Machine}

/-- Nothing is wrong with a machine between two instructions. -/
structure FaultFree (o : Options) (m : Machine) : Prop where
  /-- The next instruction does not run into a fault of the machine. -/
  executes : ∀ frame frames i, m.frames = frame :: frames → frame.chunk.instr? frame.ip = some i →
    ∀ f m', Exec.execute o i (m.ready o frame frames) = .error f m' → f.cause.internal = false
  envs : m.frames ≠ [] → m.frames.length = m.envs.length + 1
  depth : m.frames.length ≤ o.maxCallDepth + 1
  bases : ∀ f ∈ m.frames, f.base ≤ m.stack.length
  /-- Only the program can have come to the end of its code. -/
  inside : ∀ f ∈ m.frames.dropLast, f.ip < f.chunk.ops.size

/-- Nothing is wrong with a good machine. -/
theorem Good.faultFree (ho : o.SafeHost) (h : m.Good .loose o) : m.FaultFree o := by
  rcases h.rows with ⟨hnil, -⟩ | ⟨r, rs, hruns⟩
  · refine ⟨fun frame frames i hf => ?_, fun hne => absurd hnil hne, h.depth, ?_, ?_⟩
    · rw [hnil] at hf
      exact nomatch hf
    · rw [hnil]
      exact fun _ h => nomatch h
    · rw [hnil]
      exact fun _ h => nomatch h
  · have hframes : m.frames = r.frame :: rs.map Row.frame := hruns.frames
    obtain ⟨rest, -, hb⟩ := hruns.below
    have hbase : r.frame.base ≤ m.stack.length := by
      have := hruns.top.height
      omega
    refine ⟨fun frame frames i hf hi f m' hx => ?_, fun _ => ?_, h.depth, ?_, ?_⟩
    · cases hf.symm.trans hframes
      have hp : (m.ready o r.frame (rs.map Row.frame)).Poised .loose i r rs := hruns.ready h.holds hi
      have hout := Exec.execute_outcome (Footing.loose_bears ho) hp (.all _)
      rw [hx] at hout
      exact hout.sound
    · rw [hframes, hruns.envs]
      simp
    · rw [hframes]
      intro f hf
      cases hf with
      | head => exact hbase
      | tail _ hf =>
        obtain ⟨r', hr', rfl⟩ := List.mem_map.1 hf
        exact Nat.le_trans (Below.bases hb r' hr') hbase
    · rw [hframes]
      cases rs with
      | nil => exact fun _ h => nomatch h
      | cons r₁ rs =>
        intro f hf
        rw [List.map_cons, List.dropLast_cons_cons, ← List.map_cons, ← List.map_dropLast] at hf
        cases hf with
        | head => exact Row.Stands.inside hruns.top
        | tail _ hf =>
          obtain ⟨r', hr', rfl⟩ := List.mem_map.1 hf
          exact Below.inside hb r' hr'

/-- Requests lead from reachable machines to reachable ones, and with a host that is safe nothing is
    ever wrong with a reachable machine. -/
theorem reachable_faultFree (o : Options) (ho : o.SafeHost) :
    (∀ fuel requests, ∃ m, (Session.ofMachine.serveAll o fuel requests).2.executor = .machine m
        ∧ m.Reachable o)
      ∧ ∀ m, Reachable o m → m.FaultFree o :=
  ⟨fun fuel requests => Session.OnReachable.serveAll ⟨_, rfl, .fresh⟩ fuel requests,
    fun _ h => (h.good ho).faultFree ho⟩

/-- A host whose natives do nothing is safe. -/
theorem safeHost_default : ({} : Options).SafeHost :=
  ⟨fun _ _ _ _ _ h => h, fun _ _ _ _ h => ⟨trivial, h⟩, fun _ _ _ => trivial⟩

theorem reachable_faultFree_default :
    ({} : Options).SafeHost ∧ ∀ m, Reachable {} m → m.FaultFree {} :=
  ⟨safeHost_default, (reachable_faultFree {} safeHost_default).2⟩

/-! ## A host that is not safe -/

/-- A host whose natives cut the environment of the function that they are given off from the scopes
    around it. They never fail. -/
def cutting : Options where
  host _ args w :=
    match args with
    | [.callable (.closure c)] =>
      let envs := w.store.envs.modify c.env fun e => { e with parent := none }
      .ok .nil { w with store := { w.store with envs } }
    | _ => .ok .nil w

/-- In the middle of a block, a native cuts off the environment of the block. The machine cannot leave
    the block then, and runs into a fault of its own. -/
theorem scopes_cut_short :
    (∀ name args w, Ends (cutting.host name args w) (fun _ _ => True) fun _ _ => False)
      ∧ ∃ m frame frames i f m', Reachable cutting m ∧ m.frames = frame :: frames
        ∧ frame.chunk.instr? frame.ip = some i
        ∧ Exec.execute cutting i (m.ready cutting frame frames) = .error f m'
        ∧ f.cause = .noParentScope "LEAVE_SCOPE 1" ∧ ¬ m.FaultFree cutting := by
  refine ⟨fun name args w => ?_, ?_⟩
  · unfold cutting
    dsimp only
    split <;> trivial
  · have hcheck : ((parseText .resume 0 "" "{ fun h() {} cut(h); } print(1);").toOption.any fun items =>
        (fun m : Machine => m.frames.head?.any fun frame => (frame.chunk.instr? frame.ip).any fun i =>
          (Outcome.error? (Exec.execute cutting i (m.ready cutting frame m.frames.tail))).any fun r =>
            r.1.cause == .noParentScope "LEAVE_SCOPE 1")
          (((fresh.defineNative "cut" ["f"]).start items).2.after cutting 6)) = true := by
      decide +kernel
    obtain ⟨items, hparsed, hcheck⟩ := Outcome.any_toOption.1 hcheck
    have hreach : (((fresh.defineNative "cut" ["f"]).start items).2.after cutting 6).Reachable cutting :=
      ((Reachable.fresh.next (.defineNative "cut" ["f"])).next (.start hparsed)).after 6
    generalize ((fresh.defineNative "cut" ["f"]).start items).2.after cutting 6 = m at hcheck hreach
    obtain ⟨frame, hframe, hcheck⟩ := (Option.any_eq_true _ _).1 hcheck
    obtain ⟨i, hi, hcheck⟩ := (Option.any_eq_true _ _).1 hcheck
    obtain ⟨⟨f, m'⟩, hrun, hcause⟩ := (Option.any_eq_true _ _).1 hcheck
    obtain ⟨frames, hframes⟩ := List.head?_eq_some_iff.1 hframe
    rw [hframes, List.tail_cons] at hrun
    have hrun := Outcome.error?_eq_some.1 hrun
    have hcause : f.cause = .noParentScope "LEAVE_SCOPE 1" := beq_iff_eq.1 hcause
    refine ⟨m, frame, frames, i, f, m', hreach, hframes, hi, hrun, hcause, fun hfree => ?_⟩
    have hsound := hfree.executes frame frames i hframes hi f m' hrun
    rw [hcause] at hsound
    exact nomatch hsound

end Machine

end Eleu
