import Eleu.Proofs.Machine.Control

/-! # Recovery and whole steps

    A fault goes from handler to handler, from the innermost row outwards. `Recoverable` says that
    the handlers are those of the rows and that nothing they will restore has been consumed; then
    the machine has rows again as soon as one of them accepts the fault.

    With that, `Machine.Good` is kept by every step: what the machine holds is as the footing wants
    it, and as long as there are frames, they are those of rows. -/

namespace Eleu

variable {rs : List Row} {hs : List Handler} {r : Row}

variable {S : Footing} {o : Options} {s t : Store} {m : Machine}

/-! ## Handlers of rows -/

/-- The handlers are those of the rows, the topmost of which may be anywhere in its chunk, and will
    restore no more than `low` values. -/
def Recoverable (S : Footing) (s : Store) (low : Nat) : List Row → List Handler → Prop
  | [], hs => hs = []
  | r :: rs, hs =>
    (∃ height, r.Stands S s (!rs.isEmpty) height) ∧ r.frame.base + r.shape.floor ≤ low
      ∧ ∃ rest, r.Installs (rs.length + 1) hs rest ∧ Below S s r.frame.base rs rest

theorem Below.recoverable {base : Nat} (h : Below S s base rs hs) : Recoverable S s base rs hs := by
  cases rs with
  | nil => exact h
  | cons r rs =>
    obtain ⟨hr, -, hl, hi⟩ := h
    have := hr.height
    exact ⟨⟨_, hr⟩, by omega, hi⟩

theorem Recoverable.of_low {low low' : Nat} (h : Recoverable S s low rs hs) (hl : low ≤ low') :
    Recoverable S s low' rs hs := by
  cases rs with
  | nil => exact h
  | cons r rs => exact ⟨h.1, Nat.le_trans h.2.1 hl, h.2.2⟩

theorem cutTo_suffix {α : Type} {xs ys : List α} (h : xs <:+ ys) : cutTo xs.length ys = xs := by
  obtain ⟨pre, rfl⟩ := h
  rw [cutTo_append pre (Nat.le_refl _), cutTo_of_length rfl]

namespace Machine

/-- The frames of the rows are the outermost ones, whatever the next instruction of the first. -/
def Framed (m : Machine) : List Row → Prop
  | [] => True
  | r :: rs => (∃ ip, { r.frame with ip } :: rs.map Row.frame <:+ m.frames) ∧ rs.map Row.env <:+ m.envs

theorem Framed.tail (h : m.Framed (r :: rs)) : m.Framed rs := by
  obtain ⟨⟨ip, hf⟩, he⟩ := h
  cases rs with
  | nil => trivial
  | cons r₁ rs₁ =>
    exact ⟨⟨r₁.frame.ip, (List.suffix_cons _ _).trans hf⟩, (List.suffix_cons _ _).trans he⟩

/-- What going back to the state of a handler leaves of a machine. -/
theorem unwindTo_framed {h : Handler} (rest : List Handler) {b : Nat} (hf : m.Framed (r :: rs))
    (hh : r.Handles (rs.length + 1) b h) (hlow : h.stack ≤
    m.stack.length) :
    (∃ ip, (m.unwindTo h rest).frames = { r.frame with ip } :: rs.map Row.frame)
      ∧ (m.unwindTo h rest).envs = rs.map Row.env ∧ (m.unwindTo h rest).env = r.env
      ∧ (m.unwindTo h rest).stack.length = h.stack := by
  obtain ⟨⟨ip, hfr⟩, he⟩ := hf
  refine ⟨⟨ip, ?_⟩, ?_, hh.env, length_cutTo hlow⟩
  · show cutTo h.frames m.frames = _
    rw [hh.frames, show rs.length + 1 = ({ r.frame with ip } :: rs.map Row.frame).length by simp]
    exact cutTo_suffix hfr
  · show cutTo h.envs m.envs = _
    rw [show h.envs = (rs.map Row.env).length by have := hh.envs; simp; omega]
    exact cutTo_suffix he

theorem Holds.unwindTo (h : m.Holds S) (hd : Handler) (rest : List Handler) :
    (m.unwindTo hd rest).Holds S :=
  ⟨h.store, fun v hv => h.stack v (List.mem_of_mem_drop hv), h.chunks, h.compiles, h.root⟩

/-- A row whose handler has accepted a fault goes on after the watched expression. -/
theorem Runs.caught {h : Handler} {rest : List Handler} {b height : Nat}
    (hstands : r.Stands S m.world.store (!rs.isEmpty) height) (hguard : r.shape.guard = some b)
    (hf : m.Framed (r :: rs)) (hh : r.Handles (rs.length + 1) b h) (hlow : h.stack ≤ m.stack.length)
    (hbelow : Below S m.world.store r.frame.base rs rest) (howned : m.Owns S (r :: rs)) :
    ∃ k, ((m.unwindTo h rest).jump h.catchAt).Runs S h.catchAt (r.goTo h.catchAt k) rs := by
  obtain ⟨k, message, begins, ends, e, hcode, -, -, -, hfree, -, hnext, hscopes, hfloor, hcall⟩ :=
    hstands.balanced.guarded hstands.shape b hguard
  have hcatch : h.catchAt = e + 1 := by
    have heq := Option.some.inj (hh.code.symm.trans hcode)
    injection heq with hop
    injection hop
  rw [← hcatch] at hnext
  obtain ⟨⟨ip, hframes⟩, henvs, henv, hlen⟩ := unwindTo_framed rest hf hh hlow
  have hjump : (m.unwindTo h rest).jump h.catchAt =
      { m.unwindTo h rest with frames := { r.frame with ip := h.catchAt } :: rs.map Row.frame } := by
    rw [jump, hframes]
  rw [Owns, List.map_cons, Row.place, hscopes] at howned
  rw [hjump]
  refine ⟨k, rfl, henv, henvs, ⟨hstands.balanced, hnext, ?_, ?_, ?_⟩, Shape.flagless hfree.flag, howned,
    rest, Row.installs_none hfree.guard, hbelow⟩
  · exact hcall.symm.trans hstands.call
  · show r.frame.base + k.height = (m.unwindTo h rest).stack.length
    rw [hlen, hh.stack, hfloor]
  · show S.chain m.world.store r.env k.scopes
    rw [← hscopes]
    exact hstands.chain

theorem length_unwindTo_le (m : Machine) (h : Handler) (rest : List Handler) :
    (m.unwindTo h rest).frames.length ≤ m.frames.length := by
  show (m.frames.drop _).length ≤ _
  rw [List.length_drop]
  exact Nat.sub_le _ _

theorem length_jump (m : Machine) (n : Nat) : (m.jump n).frames.length = m.frames.length := by
  unfold jump
  split
  · rfl
  · next f fs h => rw [h]; rfl

/-- What has become of a machine after a fault: one with rows, or a fault that no handler accepts and
    that is no fault of the machine. -/
def Recovered (S : Footing) (depth : Nat) : Option Fault × Machine → Prop
  | (none, m) => m.Holds S ∧ (∃ r rs, m.Runs S r.frame.ip r rs) ∧ m.frames.length ≤ depth
  | (some f, m) => m.Holds S ∧ f.cause.Sound

theorem Recovered.of_le {depth depth' : Nat} {x : Option Fault × Machine}
    (h : Recovered S depth x) (hd : depth ≤ depth') : Recovered S depth' x := by
  match x, h with
  | (none, m), ⟨hm, hr, hl⟩ => exact ⟨hm, hr, Nat.le_trans hl hd⟩
  | (some f, m), h => exact h

/-- Whichever handler takes the fault, if any. -/
theorem recover_outcome (rs : List Row) {f : Fault}
    (hr : Recoverable S m.world.store m.stack.length rs hs) (hm : m.Holds S) (hf : m.Framed rs)
    (hsound : f.cause.Sound) (howned : m.Owns S rs) :
    Recovered S m.frames.length (recover hs f m) := by
  induction rs generalizing hs f m with
  | nil =>
    cases (show hs = [] from hr)
    exact ⟨⟨hm.store, hm.stack, hm.chunks, hm.compiles, hm.root⟩, hsound⟩
  | cons r rs ih =>
    obtain ⟨⟨height, hst⟩, hlow, rest, hi, hb⟩ := hr
    rw [Row.Installs] at hi
    split at hi
    · -- the row has no handler: the fault goes to the rows below
      subst hi
      have hlow : r.frame.base ≤ m.stack.length := by omega
      exact ih (hb.recoverable.of_low hlow) hm hf.tail hsound (S.owned_tail howned)
    · next b hguard =>
        obtain ⟨h, rfl, hh⟩ := hi
        have hlow' : h.stack ≤ m.stack.length := by rw [hh.stack]; exact hlow
        obtain ⟨k, hruns⟩ := Runs.caught hst hguard hf hh hlow' hb howned
        obtain ⟨⟨ip, hframes⟩, henvs, -, hlen⟩ := unwindTo_framed rest hf hh hlow'
        have hle := m.length_unwindTo_le h rest
        have hholds := hm.unwindTo h rest
        have hcaught : Recovered S m.frames.length
            (none, (m.unwindTo h rest).jump h.catchAt) := by
          refine ⟨?_, ⟨r.goTo h.catchAt k, rs, hruns⟩, by rw [length_jump]; exact hle⟩
          rw [jump, hframes]
          exact ⟨hholds.store, hholds.stack, hholds.chunks, hholds.compiles, hholds.root⟩
        rw [recover]
        split
        · exact hcaught
        · split
          · exact hcaught
          · -- the handler awaits another message: its own failure goes to the rows below
            have hframed : (m.unwindTo h rest).Framed (r :: rs) := by
              rw [Framed, hframes, henvs]
              exact ⟨⟨ip, List.suffix_refl _⟩, List.suffix_refl _⟩
            have hlow : r.frame.base ≤ (m.unwindTo h rest).stack.length := by
              rw [hlen, hh.stack]
              exact Nat.le_add_right _ _
            have hsound : (Cause.otherError f.message).Sound := rfl
            exact (ih (m := m.unwindTo h rest) (hb.recoverable.of_low hlow) hholds hframed.tail
              hsound (S.owned_tail howned)).of_le hle

/-! ## Steps -/

/-- What the machine holds is as the footing wants it, and its frames, if there are any, are those of
    rows and not more than the calls allow. -/
structure Good (S : Footing) (o : Options) (m : Machine) : Prop where
  holds : m.Holds S
  rows : m.frames = [] ∧ m.handlers = [] ∨ ∃ r rs, m.Runs S r.frame.ip r rs
  depth : m.frames.length ≤ o.maxCallDepth + 1

/-- A program that has come to its end has no handlers. -/
theorem Runs.ended (h : m.Runs S r.frame.ip r rs) (hend : r.frame.chunk.ops.size ≤ r.frame.ip) :
    rs = [] ∧ m.handlers = [] := by
  rcases h.top.balanced.inside h.top.shape with hlt | ⟨hcall, -, hguard⟩
  · exact absurd hlt (Nat.not_lt_of_ge hend)
  · cases rs with
    | nil => exact ⟨rfl, h.handlers_eq hguard⟩
    | cons r₁ rs => exact nomatch hcall

/-- The machine right before it executes the instruction `i` of its topmost frame. -/
def ready (o : Options) (frame : Frame) (frames : List Frame) (m : Machine) : Machine :=
  dump o frame.chunk frame.ip
    { m with frames := { frame with ip := frame.ip + 1 } :: frames, count := m.count + 1 }

theorem dump_eq (o : Options) (chunk : Chunk) (ip : Nat) (m : Machine) :
    ∃ w, m.dump o chunk ip = { m with world := w } ∧ w.store = m.world.store := by
  unfold dump
  split
  · refine ⟨_, rfl, ?_⟩
    unfold World.writeDump
    split <;> rfl
  · exact ⟨m.world, rfl, rfl⟩

theorem ready_eq (o : Options) (frame : Frame) (frames : List Frame) (m : Machine) :
    ∃ w, m.ready o frame frames =
        { m with world := w, frames := { frame with ip := frame.ip + 1 } :: frames, count := m.count + 1 }
      ∧ w.store = m.world.store :=
  dump_eq o frame.chunk frame.ip
    { m with frames := { frame with ip := frame.ip + 1 } :: frames, count := m.count + 1 }

/-- A machine that is made ready for an instruction is poised to execute it. -/
theorem Runs.ready {i : Instr} (h : m.Runs S r.frame.ip r rs) (hm : m.Holds S)
    (hi : r.frame.chunk.instr? r.frame.ip = some i) :
    (ready o r.frame (rs.map Row.frame) m).Poised S i r rs := by
  obtain ⟨w, hw, hs⟩ := ready_eq o r.frame (rs.map Row.frame) m
  rw [hw]
  refine ⟨⟨rfl, h.env, h.envs, ?_, h.flag, ?_, ?_⟩, hi, h.top.balanced.fits_at h.top.shape hi,
    ⟨?_, ?_, hm.chunks, hm.compiles, ?_⟩⟩
  · rw [hs]
    exact h.top
  · rw [Owns, hs]
    exact h.owned
  · rw [hs]
    exact h.below
  · rw [hs]
    exact hm.store
  · rw [hs]
    exact hm.stack
  · rw [hs]
    exact hm.root

/-- The next step of the machine makes the environment for the site. -/
def Makes (o : Options) (m : Machine) (e : EnvRef) (site : Site) : Prop :=
  ∃ frame frames i, m.frames = frame :: frames ∧ frame.chunk.instr? frame.ip = some i
    ∧ Exec.Makes o i (ready o frame frames m) e site

/-- The next step of the machine, a class statement in the environment, adds the method to the class. -/
def Adds (o : Options) (m : Machine) (e : EnvRef) (q : ClassRef) (c : Closure) : Prop :=
  ∃ frame frames i, m.frames = frame :: frames ∧ frame.chunk.instr? frame.ip = some i
    ∧ Exec.Adds i (ready o frame frames m) e q c

/-- What comes about in the next step of the machine. -/
def deeds (o : Options) (m : Machine) : History := ⟨m.Makes o, m.Adds o⟩

theorem within_of_deeds {H : History} (h : (m.deeds o).Within H) {frame : Frame} {frames : List Frame}
    {i : Instr} (hf : m.frames = frame :: frames) (hi : frame.chunk.instr? frame.ip = some i) :
    (Exec.deeds o i (ready o frame frames m)).Within H :=
  ⟨fun e site hm => h.made e site ⟨_, _, i, hf, hi, hm⟩, fun e q c ha => h.added e q c ⟨_, _, i, hf, hi, ha⟩⟩

theorem Holds.of_eq {m' : Machine} (h : m.Holds S) (hs : m'.world.store = m.world.store)
    (hst : m'.stack = m.stack) (hc : m'.chunks = m.chunks) (hd : m'.distances = m.distances)
    (hr : m'.globals = m.globals) : m'.Holds S :=
  ⟨hs ▸ h.store, by rw [hs, hst]; exact h.stack, by rw [hc]; exact h.chunks,
    by rw [hd]; exact h.compiles, by rw [hs, hr]; exact h.root⟩

/-- A machine that has ended a program is good. -/
theorem Good.fail (h : m.Holds S) (f : Fault) : (m.fail o f).Good S o :=
  ⟨h.of_eq (World.store_reportFault ..) rfl rfl rfl rfl, .inl ⟨rfl, rfl⟩, Nat.zero_le _⟩

/-- What is left of a machine after its status was asked for. -/
theorem Good.status_eq (h : m.Good S o) :
    (m.status).2 = m ∨ m.handlers = [] ∧ (m.status).2 = { m with frames := [] } := by
  unfold Machine.status
  split
  · exact .inl rfl
  · rename_i program hf
    split
    · rename_i hend
      rcases h.rows with ⟨-, hh⟩ | ⟨r, rs, hruns⟩
      · exact .inr ⟨hh, rfl⟩
      · have hprogram : program = r.frame := List.head_eq_of_cons_eq (hf.symm.trans hruns.frames)
        rw [hprogram] at hend
        exact .inr ⟨(hruns.ended hend).2, rfl⟩
    · exact .inl rfl
  · exact .inl rfl

theorem Good.status (h : m.Good S o) : (m.status).2.Good S o := by
  rcases h.status_eq with heq | ⟨hh, heq⟩
  · rw [heq]
    exact h
  · rw [heq]
    exact ⟨h.holds.of_eq rfl rfl rfl rfl rfl, .inl ⟨rfl, hh⟩, Nat.zero_le _⟩

/-- What has been recovered is good. -/
theorem Good.recovered {x : Option Fault × Machine} (h : Recovered S (o.maxCallDepth + 1) x) :
    (match x with
      | (none, m) => m.status
      | (some f, m) => (.runtimeError, m.fail o f)).2.Good S o := by
  match x, h with
  | (none, m), ⟨hm, hr, hd⟩ => exact Good.status ⟨hm, .inr hr, hd⟩
  | (some f, m), ⟨hm, _⟩ => exact Good.fail hm f

/-- What is left of the rows after a fault can be recovered. -/
theorem Fallen.recovered {i : Instr} {f : Fault} {m' : Machine} (hp : m.Poised S i r rs)
    (h : m.Fallen S r f m') (span : Option Span) :
    Recovered S m.frames.length (recover m'.handlers (f.locate span) m') := by
  have hframed : m'.Framed (r :: rs) := by
    refine ⟨⟨r.frame.ip + 1, ?_⟩, ?_⟩
    · exact (h.frames.trans hp.runs.frames) ▸ List.suffix_refl _
    · exact (h.envs.trans hp.runs.envs) ▸ List.suffix_refl _
  have hsound : (f.locate span).cause.Sound := h.sound
  have hgrows := S.keeps_grows h.store
  have hstands := hp.runs.top.grows hgrows
  obtain ⟨rest, hi, hb⟩ := hp.runs.below
  have hb := hb.grows hgrows
  have howned := S.owned_keeps h.store hp.runs.owned
  rw [← h.globals] at howned
  rw [← h.frames]
  rcases h.handlers with hh | ⟨hg, hh⟩
  · rw [hh]
    exact recover_outcome (r :: rs) ⟨⟨_, hstands⟩, h.low.2, rest, hi, hb⟩ h.holds hframed hsound howned
  · -- the handler of the row is gone, and the fault goes to the rows below
    have hrest : m.handlers.tail = rest := by
      obtain ⟨b, hb⟩ := Option.isSome_iff_exists.1 hg
      rw [Row.Installs, hb] at hi
      obtain ⟨hd, hhs, -⟩ := hi
      rw [hhs, List.tail_cons]
    rw [hh, hrest]
    have hlow : r.frame.base ≤ m'.stack.length := by
      have := h.low.2
      omega
    exact recover_outcome rs (hb.recoverable.of_low hlow) h.holds hframed.tail hsound (S.owned_tail howned)

/-- A step of a machine that has an instruction to execute. -/
theorem step_eq {frame : Frame} {frames : List Frame} {i : Instr} (hf : m.frames = frame :: frames)
    (hi : frame.chunk.instr? frame.ip = some i) :
    m.step o =
      match Exec.execute o i (ready o frame frames m) with
      | .ok () m => m.status
      | .error f m =>
        match recover m.handlers (f.locate i.span) m with
        | (none, m) => m.status
        | (some f, m) => (.runtimeError, m.fail o f) := by
  simp only [step, hf, hi]
  rfl

/-- A step keeps a machine good. -/
theorem Good.step (ho : S.Bears o) (h : m.Good S o) (hdeeds : (m.deeds o).Within S.history) :
    (m.step o).2.Good S o := by
  rcases h.rows with ⟨hnil, -⟩ | ⟨r, rs, hruns⟩
  · rw [Machine.step, hnil]
    exact h
  · cases hi : r.frame.chunk.instr? r.frame.ip with
    | none =>
      have hend := (hruns.ended (Chunk.instr?_eq_none.1 hi)).2
      rw [Machine.step, hruns.frames]
      dsimp only
      rw [hi]
      exact ⟨h.holds.of_eq rfl rfl rfl rfl rfl, .inl ⟨rfl, hend⟩, Nat.zero_le _⟩
    | some i =>
      have hp : (ready o r.frame (rs.map Row.frame) m).Poised S i r rs := hruns.ready h.holds hi
      have hout := Exec.execute_outcome ho hp (within_of_deeds hdeeds hruns.frames hi)
      have hdepth : (ready o r.frame (rs.map Row.frame) m).frames.length ≤ o.maxCallDepth + 1 := by
        have hd := h.depth
        rw [hruns.frames] at hd
        rw [hp.runs.frames]
        exact hd
      rw [step_eq hruns.frames hi]
      cases hx : Exec.execute o i (ready o r.frame (rs.map Row.frame) m) with
      | ok u m' =>
        rw [hx] at hout
        exact Good.status ⟨hout.holds, .inr hout.runs,
          Nat.le_trans hout.depth (Nat.max_le.2 ⟨hdepth, Nat.le_refl _⟩)⟩
      | error f m' =>
        rw [hx] at hout
        exact Good.recovered ((Fallen.recovered hp hout i.span).of_le hdepth)

end Machine

end Eleu
