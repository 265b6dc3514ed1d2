import Eleu.Proofs.Machine.FaultFree

/-! # Exact unwinding

    A statement that awaits a fault installs a handler, which notes three heights and an
    environment. When a fault is caught, the machine cuts its stacks to these heights. Here it is
    shown that this restores what was there when the handler was installed, whatever was executed
    in between (`Machine.exact_unwinding`): nothing below the heights of a handler is touched while
    the handler is there. -/

namespace Eleu

variable {hs : List Handler} {h : Handler} {rs : List Row} {r : Row}

variable {S : Footing} {o : Options} {m m' : Machine}

/-! ## Frames up to the next instruction of the topmost -/

/-- The frames with the topmost one at `ip`. -/
def atTop (ip : Nat) : List Frame → List Frame
  | [] => []
  | f :: fs => { f with ip } :: fs

theorem Machine.frames_jump (m : Machine) (ip : Nat) : (m.jump ip).frames = atTop ip m.frames := by
  unfold Machine.jump
  split
  · rename_i h
    rw [h]
    rfl
  · rename_i f fs h
    rw [h]
    rfl

@[simp] theorem length_atTop (ip : Nat) (fs : List Frame) : (atTop ip fs).length = fs.length := by
  cases fs <;> rfl

@[simp] theorem atTop_atTop (a b : Nat) (fs : List Frame) : atTop a (atTop b fs) = atTop a fs := by
  cases fs <;> rfl

theorem exists_atTop (fs : List Frame) : ∃ ip, fs = atTop ip fs := by
  cases fs with
  | nil => exact ⟨0, rfl⟩
  | cons f fs => exact ⟨f.ip, rfl⟩

/-- Where the topmost frame stands matters only to a cut that leaves it. -/
theorem cutTo_atTop {n : Nat} {fs : List Frame} (ip : Nat) (h : n ≤ fs.length) :
    ∃ ip', cutTo n (atTop ip fs) = atTop ip' (cutTo n fs) := by
  cases fs with
  | nil => exact ⟨ip, by simp [cutTo, atTop]⟩
  | cons f fs =>
    rcases Nat.lt_or_ge fs.length n with hn | hn
    · have hn : n = (f :: fs).length := Nat.le_antisymm h hn
      refine ⟨ip, ?_⟩
      rw [hn, cutTo_of_length rfl]
      exact cutTo_of_length (length_atTop ip (f :: fs))
    · obtain ⟨ip', hip⟩ := exists_atTop (cutTo n fs)
      refine ⟨ip', ?_⟩
      show cutTo n ([_] ++ fs) = atTop ip' (cutTo n ([f] ++ fs))
      rw [cutTo_append _ hn, cutTo_append _ hn]
      exact hip

/-! ## What a handler will restore -/

/-- Up to the heights of the handler, the stacks of `m'` are those of `m`. -/
structure Machine.Keeps (h : Handler) (m m' : Machine) : Prop where
  height : h.stack ≤ m'.stack.length
  stack : cutTo h.stack m'.stack = cutTo h.stack m.stack
  envs : cutTo h.envs m'.envs = cutTo h.envs m.envs
  frames : ∃ ip, cutTo h.frames m'.frames = atTop ip (cutTo h.frames m.frames)

/-- What the handler will restore is what the machine `b` has. -/
structure Machine.Restores (b : Machine) (h : Handler) (m : Machine) : Prop where
  height : h.stack ≤ m.stack.length
  stack : cutTo h.stack m.stack = b.stack
  envs : cutTo h.envs m.envs = b.envs
  env : h.env = b.env
  frames : ∃ ip, cutTo h.frames m.frames = atTop ip b.frames

/-- The heights of handlers, the innermost first, are within the heights of the stacks and do not
    grow outwards. -/
structure Nested (frames stack : Nat) (hs : List Handler) : Prop where
  within : ∀ h ∈ hs, h.envs + 1 = h.frames ∧ h.frames ≤ frames ∧ h.stack ≤ stack
  order : hs.Pairwise fun a b => b.frames ≤ a.frames ∧ b.stack ≤ a.stack

namespace Nested

variable {frames stack : Nat} {h : Handler} {hs : List Handler}

theorem nil : Nested frames stack [] := ⟨fun _ h => (nomatch h), .nil⟩

theorem mono (h : Nested frames stack hs) {frames' stack' : Nat} (hf : frames ≤ frames')
    (hst : stack ≤ stack') : Nested frames' stack' hs :=
  ⟨fun x hx => ⟨(h.within x hx).1, Nat.le_trans (h.within x hx).2.1 hf,
    Nat.le_trans (h.within x hx).2.2 hst⟩, h.order⟩

theorem suffix (h : Nested frames stack hs) {hs' : List Handler} (hsuf : hs' <:+ hs) :
    Nested frames stack hs' :=
  ⟨fun x hx => h.within x (hsuf.subset hx), h.order.sublist hsuf.sublist⟩

theorem cons (henvs : h.envs + 1 = h.frames) (hf : h.frames ≤ frames) (hst : h.stack ≤ stack)
    (hn : Nested h.frames h.stack hs) : Nested frames stack (h :: hs) := by
  refine ⟨fun x hx => ?_, List.pairwise_cons.2 ⟨fun x hx => (hn.within x hx).2, hn.order⟩⟩
  cases hx with
  | head => exact ⟨henvs, hf, hst⟩
  | tail _ hx => exact (hn.mono hf hst).within x hx

/-- Below a handler, all heights are within its own. -/
theorem tail (hn : Nested frames stack (h :: hs)) : Nested h.frames h.stack hs := by
  obtain ⟨hfirst, horder⟩ := List.pairwise_cons.1 hn.order
  exact ⟨fun x hx => ⟨(hn.within x (.tail _ hx)).1, hfirst x hx⟩, horder⟩

end Nested

theorem Row.Installs.nested {depth : Nat} {rest : List Handler}
    (hi : r.Installs (depth + 1) hs rest) (hn : Nested depth r.frame.base rest) :
    Nested (depth + 1) (r.frame.base + r.shape.floor) hs := by
  rw [Row.Installs] at hi
  split at hi
  · subst hi
    exact hn.mono (Nat.le_succ _) (Nat.le_add_right _ _)
  · obtain ⟨h, rfl, hh⟩ := hi
    have hframes := hh.frames
    have hstack := hh.stack
    refine .cons (hh.envs.trans hframes.symm) (Nat.le_of_eq hframes) (Nat.le_of_eq hstack) ?_
    exact hn.mono (by omega) (by omega)

/-- The handlers of the rows are nested. -/
theorem Below.nested {s : Store} {base : Nat} (h : Below S s base rs hs) :
    Nested rs.length base hs := by
  induction rs generalizing base hs with
  | nil =>
    rw [show hs = [] from h]
    exact .nil
  | cons r rs ih =>
    obtain ⟨hr, -, hl, rest, hi, hb⟩ := h
    have hheight := hr.height
    exact (hi.nested (ih hb)).mono (Nat.le_refl _) (by omega)

namespace Machine

theorem Runs.nested {ip : Nat} (h : m.Runs S ip r rs) :
    Nested (rs.length + 1) (r.frame.base + r.shape.floor) m.handlers := by
  obtain ⟨rest, hi, hb⟩ := h.below
  exact hi.nested hb.nested

/-! ## One instruction -/

theorem Keeps.trans {m'' : Machine} (h₁ : Keeps h m m') (h₂ : Keeps h m' m'') : Keeps h m m'' := by
  obtain ⟨ip₁, hf₁⟩ := h₁.frames
  obtain ⟨ip₂, hf₂⟩ := h₂.frames
  exact ⟨h₂.height, h₂.stack.trans h₁.stack, h₂.envs.trans h₁.envs, ip₂, by rw [hf₂, hf₁, atTop_atTop]⟩

theorem Restores.keeps {b : Machine} (hr : Restores b h m) (hk : Keeps h m m') :
    Restores b h m' := by
  obtain ⟨ip₁, hf₁⟩ := hr.frames
  obtain ⟨ip₂, hf₂⟩ := hk.frames
  exact ⟨hk.height, hk.stack.trans hr.stack, hk.envs.trans hr.envs, hr.env, ip₂,
    by rw [hf₂, hf₁, atTop_atTop]⟩

/-- Stacks that are the same, up to the next instruction of the topmost frame, keep all. -/
theorem Keeps.of_eq (ip : Nat) (hst : m'.stack = m.stack) (he : m'.envs = m.envs)
    (hf : m'.frames = atTop ip m.frames) (hframes : h.frames ≤ m.frames.length)
    (hstack : h.stack ≤ m.stack.length) : Keeps h m m' := by
  obtain ⟨ip', hip⟩ := cutTo_atTop ip hframes
  exact ⟨by rw [hst]; exact hstack, by rw [hst], by rw [he], ip', by rw [hf, hip]⟩

theorem SameLow.before (h : SameLow r m m') : r.frame.base + r.shape.floor ≤ m.stack.length := by
  have hlen := congrArg List.length h.1
  rw [length_cutTo h.2, cutTo, List.length_drop] at hlen
  omega

/-- Where the values below a height stay the same, so do those below a smaller one. -/
theorem SameLow.cut (h : SameLow r m m') {n : Nat} (hn : n ≤ r.frame.base + r.shape.floor) :
    cutTo n m'.stack = cutTo n m.stack ∧ n ≤ m'.stack.length := by
  refine ⟨?_, Nat.le_trans hn h.2⟩
  rw [← cutTo_cutTo hn h.2, h.1, cutTo_cutTo hn h.before]

/-- An instruction that was executed touches nothing that a handler will restore. -/
theorem Advanced.keeps {i : Instr} (hp : m.Poised S i r rs) (ha : m.Advanced S o r m')
    (hh : h ∈ m.handlers) : Keeps h m m' := by
  obtain ⟨henvs, hframes, hstack⟩ := hp.runs.nested.within h hh
  obtain ⟨hst, hheight⟩ := ha.low.cut hstack
  have hlen : m.frames.length = rs.length + 1 := by rw [hp.runs.frames]; simp
  have hlenvs : m.envs.length = rs.length := by rw [hp.runs.envs]; simp
  have hframes' : h.frames ≤ m.frames.length := by omega
  cases ha.shift with
  | stays ip hf he _ _ =>
    obtain ⟨ip', hip⟩ := cutTo_atTop ip hframes'
    exact ⟨hheight, hst, by rw [he], ip', by rw [hf, frames_jump, hip]⟩
  | awaits h₀ _ hf he _ _ _ _ _ _ =>
    obtain ⟨ip, hip⟩ := exists_atTop (cutTo h.frames m.frames)
    exact ⟨hheight, hst, by rw [he], ip, by rw [hf]; exact hip⟩
  | calls f hf he _ =>
    obtain ⟨ip, hip⟩ := exists_atTop (cutTo h.frames m.frames)
    refine ⟨hheight, hst, ?_, ip, ?_⟩
    · rw [he]
      exact cutTo_append [m.env] (by omega)
    · rw [hf, ← hip]
      exact cutTo_append [f] hframes'
  | returns f hguard hf he _ =>
    -- The frame that returns has no handler, so all handlers are further out.
    obtain ⟨-, hframes, -⟩ := (hp.runs.handlers_eq hguard).nested.within h hh
    obtain ⟨ip, hip⟩ := exists_atTop (cutTo h.frames m'.frames)
    have hl : m'.frames.length = rs.length := by
      have := hlen
      rw [hf, List.length_cons] at this
      omega
    have hle : m'.envs.length + 1 = rs.length := by
      have := hlenvs
      rw [he, List.length_cons] at this
      omega
    refine ⟨hheight, hst, ?_, ip, ?_⟩
    · rw [he]
      exact (cutTo_append [m'.env] (by omega)).symm
    · rw [hip, hf]
      congr 1
      exact (cutTo_append [f] (by omega)).symm

/-- An instruction that has ended with a fault touches nothing that a handler will restore. -/
theorem Fallen.keeps {i : Instr} {f : Fault} (hp : m.Poised S i r rs) (hf : m.Fallen S r f m')
    (hh : h ∈ m.handlers) : Keeps h m m' := by
  obtain ⟨-, -, hstack⟩ := hp.runs.nested.within h hh
  obtain ⟨hst, hheight⟩ := hf.low.cut hstack
  obtain ⟨ip, hip⟩ := exists_atTop (cutTo h.frames m.frames)
  exact ⟨hheight, hst, by rw [hf.envs], ip, by rw [hf.frames]; exact hip⟩

/-! ## Recovery -/

theorem Keeps.unwindTo (henvs : m.envs.length + 1 = m.frames.length)
    (hn : Nested m.frames.length m.stack.length (h :: hs)) {g : Handler} (hg : g ∈ hs) :
    Keeps g m (m.unwindTo h hs) := by
  obtain ⟨heh, hfh, hsh⟩ := hn.within h (.head _)
  obtain ⟨heg, hfg, hsg⟩ := hn.tail.within g hg
  obtain ⟨ip, hip⟩ := exists_atTop (cutTo g.frames m.frames)
  refine ⟨?_, cutTo_cutTo hsg hsh, cutTo_cutTo (by omega) (by omega), ip, ?_⟩
  · show g.stack ≤ (cutTo h.stack m.stack).length
    rw [length_cutTo hsh]
    exact hsg
  · exact (cutTo_cutTo hfg hfh).trans hip

/-- The machine that a handler which accepts a fault goes on with. -/
def resume (m : Machine) (h : Handler) (below : List Handler) : Machine :=
  { m with
    stack := cutTo h.stack m.stack
    envs := cutTo h.envs m.envs
    env := h.env
    handlers := below
    frames := atTop h.catchAt (cutTo h.frames m.frames) }

theorem unwindTo_jump (m : Machine) (h : Handler) (below : List Handler) :
    (m.unwindTo h below).jump h.catchAt = m.resume h below := by
  have hf := frames_jump (m.unwindTo h below) h.catchAt
  unfold jump at hf ⊢
  split at hf
  · rename_i hnil
    have hnil : cutTo h.frames m.frames = [] := hnil
    unfold resume unwindTo
    rw [hnil]
    rfl
  · unfold resume unwindTo at *
    dsimp only at hf ⊢
    rw [← hf]

/-- What a handler further out restores is kept. -/
theorem Keeps.resume (henvs : m.envs.length + 1 = m.frames.length)
    (hn : Nested m.frames.length m.stack.length (h :: hs)) {g : Handler} (hg : g ∈ hs) :
    Keeps g m (m.resume h hs) := by
  obtain ⟨-, hfh, -⟩ := hn.within h (.head _)
  obtain ⟨-, hfg, -⟩ := hn.tail.within g hg
  have hu := Keeps.unwindTo henvs hn hg
  refine hu.trans (Keeps.of_eq (m := m.unwindTo h hs) _ rfl rfl rfl ?_ hu.height)
  show g.frames ≤ (cutTo h.frames m.frames).length
  rw [length_cutTo hfh]
  exact hfg

/-- A fault is caught by one of the handlers, and the handlers above it do not matter. -/
theorem recover_eq {f : Fault} (henvs : m.envs.length + 1 = m.frames.length)
    (hn : Nested m.frames.length m.stack.length hs) (hr : recover hs f m = (none, m')) :
    ∃ h below, h :: below <:+ hs ∧ m' = m.resume h below ∧ ∀ g ∈ below, Keeps g m m' := by
  induction hs generalizing m f with
  | nil => exact nomatch hr
  | cons h hs ih =>
    rw [recover, unwindTo_jump] at hr
    have hcaught : ((none, m.resume h hs) : Option Fault × Machine) = (none, m') →
        ∃ g below, g :: below <:+ h :: hs ∧ m' = m.resume g below ∧ ∀ x ∈ below, Keeps x m m' := by
      intro heq
      obtain rfl := (Prod.mk.inj heq).2
      exact ⟨h, hs, List.suffix_refl _, rfl, fun g hg => Keeps.resume henvs hn hg⟩
    split at hr
    · exact hcaught hr
    · split at hr
      · exact hcaught hr
      · -- the handler awaits another message
        obtain ⟨heh, hfh, hsh⟩ := hn.within h (.head _)
        have hlf : (m.unwindTo h hs).frames.length = h.frames := length_cutTo hfh
        have hle : (m.unwindTo h hs).envs.length = h.envs := length_cutTo (by omega)
        have hls : (m.unwindTo h hs).stack.length = h.stack := length_cutTo hsh
        obtain ⟨g, below, hsuf, heq, hkeeps⟩ := ih (m := m.unwindTo h hs) (by omega)
          (by rw [hlf, hls]; exact hn.tail) hr
        have hg : g ∈ hs := hsuf.subset (.head _)
        obtain ⟨heg, hfg, hsg⟩ := hn.tail.within g hg
        refine ⟨g, below, hsuf.trans (List.suffix_cons _ _), ?_, fun x hx => ?_⟩
        · rw [heq]
          unfold resume unwindTo
          dsimp only
          rw [cutTo_cutTo hsg hsh, cutTo_cutTo (by omega) (by omega), cutTo_cutTo hfg hfh]
        · exact (Keeps.unwindTo henvs hn (hsuf.subset (.tail _ hx))).trans (hkeeps x hx)

/-! ## The life of a handler -/

/-- The machine is about to execute the instruction that installs the handler. -/
structure Begins (b : Machine) (h : Handler) : Prop where
  code : ∃ frame frames, b.frames = frame :: frames
    ∧ frame.chunk.instr? frame.ip = some ⟨.failureBegin h.message h.catchAt, h.span⟩
  frames : h.frames = b.frames.length
  envs : h.envs = b.envs.length
  env : h.env = b.env
  stack : h.stack = b.stack.length

/-- The handler that `b` has installed has been there ever since, on top of those that `b` had. -/
inductive Awaits (o : Options) (b : Machine) (h : Handler) : Machine → Prop where
  | begins (hb : b.Begins h) (hh : (b.step o).2.handlers = h :: b.handlers) : Awaits o b h (b.step o).2
  | goes {m m' : Machine} (ha : Awaits o b h m) (hn : m.Next o m')
      (hh : h :: b.handlers <:+ m'.handlers) : Awaits o b h m'

/-- A step leaves some of the handlers and all that these will restore, or installs one more. -/
inductive Turn (m m' : Machine) : Prop where
  | leaves (handlers : m'.handlers <:+ m.handlers) (keeps : ∀ h ∈ m'.handlers, Keeps h m m')
  | installs (h : Handler) (begins : m.Begins h) (handlers : m'.handlers = h :: m.handlers)
      (restores : m.Restores h m') (keeps : ∀ g ∈ m.handlers, Keeps g m m')

/-- What a machine with rows has when the next instruction is at hand. -/
theorem Keeps.ready (hruns : m.Runs S r.frame.ip r rs)
    (hlow : r.frame.base + r.shape.floor ≤ m.stack.length) (hh : h ∈ m.handlers) :
    Keeps h m (m.ready o r.frame (rs.map Row.frame)) := by
  obtain ⟨-, hframes, hstack⟩ := hruns.nested.within h hh
  obtain ⟨w, hw, -⟩ := ready_eq o r.frame (rs.map Row.frame) m
  rw [hw]
  refine Keeps.of_eq (r.frame.ip + 1) rfl rfl ?_ ?_ (Nat.le_trans hstack hlow)
  · rw [hruns.frames]
    rfl
  · rw [hruns.frames, List.length_cons, List.length_map]
    exact hframes

/-- A turn does not depend on whether a program that has come to its end is removed. -/
theorem Turn.status (hg : m'.Good S o) (h : Turn m m') : Turn m (m'.status).2 := by
  rcases hg.status_eq with heq | ⟨hh, heq⟩
  · rw [heq]
    exact h
  · have hnil : (m'.status).2.handlers = [] := by
      rw [heq]
      exact hh
    refine .leaves (by rw [hnil]; exact List.nil_suffix) fun h hmem => ?_
    rw [hnil] at hmem
    exact nomatch hmem

section

variable {r : Row} {rs : List Row} {i : Instr}

/-- Going on after an instruction. -/
theorem Advanced.turn (hruns : m.Runs S r.frame.ip r rs)
    (hp : (m.ready o r.frame (rs.map Row.frame)).Poised S i r rs)
    (ha : (m.ready o r.frame (rs.map Row.frame)).Advanced S o r m') : Turn m m' := by
  obtain ⟨w, hw, -⟩ := ready_eq o r.frame (rs.map Row.frame) m
  have hhandlers : (m.ready o r.frame (rs.map Row.frame)).handlers = m.handlers := by rw [hw]
  have hstack : (m.ready o r.frame (rs.map Row.frame)).stack = m.stack := by rw [hw]
  have hlow : r.frame.base + r.shape.floor ≤ m.stack.length := hstack ▸ ha.low.before
  have hkeeps : ∀ h ∈ m.handlers, Keeps h m m' := fun h hh =>
    (Keeps.ready hruns hlow hh).trans (Advanced.keeps hp ha (by rw [hhandlers]; exact hh))
  have hsame : m'.handlers = (m.ready o r.frame (rs.map Row.frame)).handlers → Turn m m' := by
    intro heq
    rw [hhandlers] at heq
    refine .leaves (heq ▸ List.suffix_refl _) fun h hh => hkeeps h ?_
    rwa [heq] at hh
  cases ha.shift with
  | stays _ _ _ _ hh => exact hsame hh
  | calls _ _ _ hh => exact hsame hh
  | returns _ _ _ _ hh => exact hsame hh
  | awaits h _ hf he _ hheights hcode henv hst hh =>
    obtain ⟨hlf, hle, hls⟩ := hheights
    rw [hw] at hf he henv hst hh hlf hle hls
    have hlf : h.frames = m.frames.length := hlf.trans (by rw [hruns.frames]; rfl)
    refine .installs h ⟨⟨_, _, hruns.frames, hcode⟩, hlf, hle, henv, hls⟩ hh
      ?_ hkeeps
    refine ⟨by rw [hst]; exact Nat.le_of_eq hls, ?_, ?_, henv, r.frame.ip + 1, ?_⟩
    · rw [hst, hls]
      exact cutTo_of_length rfl
    · rw [he, hle]
      exact cutTo_of_length rfl
    · rw [hf, hruns.frames]
      refine cutTo_of_length ?_
      rw [hlf, hruns.frames]
      rfl

/-- What is left of the handlers after a fault, and what they will restore. -/
theorem Fallen.left (hruns : m.Runs S r.frame.ip r rs)
    (hp : (m.ready o r.frame (rs.map Row.frame)).Poised S i r rs) {f : Fault}
    (hf : (m.ready o r.frame (rs.map Row.frame)).Fallen S r f m') :
    m'.handlers <:+ m.handlers ∧ (∀ h ∈ m'.handlers, Keeps h m m')
      ∧ m'.envs.length + 1 = m'.frames.length
      ∧ Nested m'.frames.length m'.stack.length m'.handlers := by
  obtain ⟨w, hw, -⟩ := ready_eq o r.frame (rs.map Row.frame) m
  have hhandlers : (m.ready o r.frame (rs.map Row.frame)).handlers = m.handlers := by rw [hw]
  have hstack : (m.ready o r.frame (rs.map Row.frame)).stack = m.stack := by rw [hw]
  have hlow : r.frame.base + r.shape.floor ≤ m.stack.length := hstack ▸ hf.low.before
  have hsuffix : m'.handlers <:+ m.handlers := by
    rw [← hhandlers]
    rcases hf.handlers with hh | ⟨-, hh⟩
    · exact hh ▸ List.suffix_refl _
    · rw [hh]
      exact List.tail_suffix _
  have hlen : m'.frames.length = rs.length + 1 := by
    rw [hf.frames, hp.runs.frames]
    simp
  refine ⟨hsuffix, fun h hh => ?_, ?_, ?_⟩
  · have hh := hsuffix.subset hh
    exact (Keeps.ready hruns hlow hh).trans (Fallen.keeps hp hf (by rw [hhandlers]; exact hh))
  · rw [hlen, hf.envs, hp.runs.envs, List.length_map]
  · rw [hlen]
    exact (hruns.nested.suffix hsuffix).mono (Nat.le_refl _) hf.low.2

end

/-- What a step does to the handlers. -/
theorem Good.turn (ho : S.Bears o) (h : m.Good S o)
    (hdeeds : (m.deeds o).Within S.history) : Turn m (m.step o).2 := by
  rcases h.rows with ⟨hnil, hhandlers⟩ | ⟨r, rs, hruns⟩
  · rw [Machine.step, hnil]
    refine .leaves (List.suffix_refl _) fun h hh => ?_
    rw [show _ = [] from hhandlers] at hh
    cases hh
  · cases hi : r.frame.chunk.instr? r.frame.ip with
    | none =>
      have hend := (hruns.ended (Chunk.instr?_eq_none.1 hi)).2
      rw [Machine.step, hruns.frames]
      dsimp only
      rw [hi]
      refine .leaves (List.suffix_refl _) fun h hh => ?_
      rw [show _ = [] from hend] at hh
      cases hh
    | some i =>
      have hp : (m.ready o r.frame (rs.map Row.frame)).Poised S i r rs := hruns.ready h.holds hi
      have hout := Exec.execute_outcome ho hp (within_of_deeds hdeeds hruns.frames hi)
      have hdepth : (m.ready o r.frame (rs.map Row.frame)).frames.length ≤ o.maxCallDepth + 1 := by
        have hd := h.depth
        rw [hruns.frames] at hd
        rw [hp.runs.frames]
        exact hd
      rw [step_eq hruns.frames hi]
      cases hx : Exec.execute o i (m.ready o r.frame (rs.map Row.frame)) with
      | ok u m' =>
        rw [hx] at hout
        exact Turn.status ⟨hout.holds, .inr hout.runs,
          Nat.le_trans hout.depth (Nat.max_le.2 ⟨hdepth, Nat.le_refl _⟩)⟩ (hout.turn hruns hp)
      | error f m' =>
        rw [hx] at hout
        obtain ⟨hsuffix, hkeeps, henvs, hnested⟩ := hout.left hruns hp
        have hrec := (Fallen.recovered hp hout i.span).of_le hdepth
        dsimp only
        cases hr : recover m'.handlers (f.locate i.span) m' with
        | mk result m'' =>
          rw [hr] at hrec
          cases result with
          | some f =>
            exact .leaves List.nil_suffix (by rintro _ ⟨⟩)
          | none =>
            obtain ⟨hholds, hrows, hd⟩ := hrec
            obtain ⟨g, below, hsuf, heq, hbelow⟩ := recover_eq henvs hnested hr
            have hbsuf := (List.suffix_cons g below).trans hsuf
            refine Turn.status ⟨hholds, .inr hrows, hd⟩ (.leaves ?_ fun x hx => ?_)
            · rw [heq]
              exact hbsuf.trans hsuffix
            · rw [heq] at hx
              exact (hkeeps x (hbsuf.subset hx)).trans (hbelow x hx)

/-- Every handler was installed by a machine that it will restore, and has been there ever since. -/
def Tracked (o : Options) (m : Machine) : Prop :=
  ∀ h below, h :: below <:+ m.handlers →
    ∃ b, b.Reachable o ∧ b.handlers = below ∧ Awaits o b h m ∧ b.Restores h m

/-- What leaves handlers and what they will restore keeps them tracked. -/
theorem Tracked.leaves (ht : m.Tracked o) (hn : m.Next o m') (hh : m'.handlers <:+ m.handlers)
    (hk : ∀ h ∈ m'.handlers, Keeps h m m') : m'.Tracked o := by
  intro h below hsuf
  obtain ⟨b, hb, hbelow, hawaits, hrestores⟩ := ht h below (hsuf.trans hh)
  refine ⟨b, hb, hbelow, .goes hawaits hn (by rw [hbelow]; exact hsuf), ?_⟩
  exact hrestores.keeps (hk h (hsuf.subset (.head _)))

/-- What happens between two instructions leaves the stacks alone, or starts anew. -/
theorem Tracked.same (ht : m.Tracked o) (hn : m.Next o m') (hh : m'.handlers = m.handlers)
    (hst : m'.stack = m.stack) (he : m'.envs = m.envs) (hf : m'.frames = m.frames) :
    m'.Tracked o := by
  refine ht.leaves hn (hh ▸ List.suffix_refl _) fun h hmem => ?_
  rw [hh] at hmem
  obtain ⟨above, below, hsplit⟩ := List.append_of_mem hmem
  obtain ⟨b, -, -, -, hrestores⟩ := ht h below ⟨above, hsplit.symm⟩
  obtain ⟨ip, hip⟩ := exists_atTop (cutTo h.frames m.frames)
  exact ⟨by rw [hst]; exact hrestores.height, by rw [hst], by rw [he], ip, by rw [hf]; exact hip⟩

theorem Tracked.nil (h : m.handlers = []) : m.Tracked o := by
  intro g below hsuf
  rw [h] at hsuf
  exact nomatch List.suffix_nil.1 hsuf

/-- A step keeps the handlers tracked. -/
theorem Tracked.step (ho : o.SafeHost) (hm : m.Reachable o) (ht : m.Tracked o) :
    (m.step o).2.Tracked o := by
  cases (hm.good ho).turn (Footing.loose_bears ho) (.all _) with
  | leaves hh hk => exact ht.leaves .step hh hk
  | installs h hbegins hh hrestores hk =>
    intro g below hsuf
    rw [hh] at hsuf
    rcases List.suffix_cons_iff.1 hsuf with heq | hsuf
    · cases heq
      exact ⟨m, hm, rfl, .begins hbegins hh, hrestores⟩
    · obtain ⟨b, hb, hbelow, hawaits, hrest⟩ := ht g below hsuf
      refine ⟨b, hb, hbelow, .goes hawaits .step ?_, hrest.keeps (hk g (hsuf.subset (.head _)))⟩
      rw [hh, hbelow]
      exact hsuf.trans (List.suffix_cons _ _)

/-- Every handler of a reachable machine is tracked. -/
theorem Reachable.tracked (ho : o.SafeHost) (hm : m.Reachable o) : m.Tracked o := by
  induction hm with
  | fresh => exact .nil rfl
  | @next m m' hm hn ih =>
    cases hn with
    | step => exact ih.step ho hm
    | cancelled => exact .nil rfl
    | defineNative name params => exact ih.same (.defineNative name params) rfl rfl rfl rfl
    | polled => exact ih.same .polled rfl rfl rfl rfl
    | complained lines => exact ih.same (.complained lines) rfl rfl rfl rfl
    | start parsed =>
      have hsame := ih.same (.start parsed)
      unfold Machine.start at hsame ⊢
      split
      · rename_i hr
        rw [hr] at hsame
        exact hsame rfl rfl rfl rfl
      · rename_i d hr
        rw [hr] at hsame
        dsimp only at hsame ⊢
        split
        · rename_i f hc
          rw [hc] at hsame
          exact hsame rfl rfl rfl rfl
        · exact .nil rfl

end Machine

/-! ## Where handlers are -/

/-- A frame stands between the instruction that installs the handler and the one that removes it. -/
def Between (f : Frame) (h : Handler) : Prop :=
  ∃ (begins ends : Nat) (span : Span), begins < f.ip ∧ f.ip ≤ ends ∧ h.catchAt = ends + 1
    ∧ f.chunk.instr? begins = some ⟨.failureBegin h.message h.catchAt, h.span⟩
    ∧ f.chunk.instr? ends = some ⟨.failureEnd, span⟩

theorem Row.Handles.between {s : Store} {call : Bool} {depth height b : Nat}
    (hst : r.Stands S s call height) (hg : r.shape.guard = some b) (hh : r.Handles depth b h) :
    Between r.frame h := by
  obtain ⟨k, message, begins, ends, e, hbegin, hend, hlt, hle, -⟩ :=
    hst.balanced.guarded hst.shape b hg
  have heq := Option.some.inj (hh.code.symm.trans hbegin)
  injection heq with hop
  injection hop with _ hcatch
  exact ⟨b, e, ends, hlt, hle, hcatch, hh.code, hend⟩

/-- The handlers of a row are its own and those of the rows below. -/
theorem Row.Installs.between {s : Store} {call : Bool} {height : Nat} {rest : List Handler}
    (hst : r.Stands S s call height) (hi : r.Installs (rs.length + 1) hs rest)
    (hrest : ∀ h ∈ rest, ∃ above r' below, rs = above ++ r' :: below
      ∧ below.length + 1 = h.frames ∧ Between r'.frame h) :
    ∀ h ∈ hs, ∃ above r' below, r :: rs = above ++ r' :: below
      ∧ below.length + 1 = h.frames ∧ Between r'.frame h := by
  have hlift : ∀ h ∈ rest, ∃ above r' below, r :: rs = above ++ r' :: below
      ∧ below.length + 1 = h.frames ∧ Between r'.frame h := by
    intro h hh
    obtain ⟨above, r', below, heq, hl, hb⟩ := hrest h hh
    exact ⟨r :: above, r', below, by rw [heq]; rfl, hl, hb⟩
  rw [Row.Installs] at hi
  split at hi
  · subst hi
    exact hlift
  · rename_i b hg
    obtain ⟨h, rfl, hh⟩ := hi
    intro g hmem
    cases hmem with
    | head => exact ⟨[], r, rs, rfl, hh.frames.symm, hh.between hst hg⟩
    | tail _ hmem => exact hlift g hmem

theorem Below.between {s : Store} {base : Nat} (h : Below S s base rs hs) :
    ∀ h ∈ hs, ∃ above r' below, rs = above ++ r' :: below
      ∧ below.length + 1 = h.frames ∧ Between r'.frame h := by
  induction rs generalizing base hs with
  | nil =>
    rw [show hs = [] from h]
    exact fun _ h => nomatch h
  | cons r rs ih =>
    obtain ⟨hr, -, -, rest, hi, hb⟩ := h
    exact hi.between hr (ih hb)

namespace Machine

theorem Good.between (hg : m.Good S o) (hh : h ∈ m.handlers) :
    ∃ above f below, m.frames = above ++ f :: below ∧ below.length + 1 = h.frames ∧ Between f h := by
  rcases hg.rows with ⟨-, hnil⟩ | ⟨r, rs, hruns⟩
  · rw [hnil] at hh
    exact nomatch hh
  · obtain ⟨rest, hi, hb⟩ := hruns.below
    obtain ⟨above, r', below, heq, hl, hbetween⟩ := hi.between hruns.top (Below.between hb) h hh
    refine ⟨above.map Row.frame, r'.frame, below.map Row.frame, ?_, by simpa using hl, hbetween⟩
    rw [show m.frames = (r :: rs).map Row.frame from hruns.frames, heq]
    simp

/-- A fault that is caught leads back to the machine that installed the handler: the values, the
    environments, the frames up to the next instruction, and the handlers are those from before,
    and nothing else changes. A handler is there only while the frame that installed it is, and
    stands in the part of its code that the handler watches. -/
theorem exact_unwinding (o : Options) (ho : o.SafeHost) (m : Machine) (hm : m.Reachable o) :
    (∀ frame frames i f m₁ m', m.frames = frame :: frames → frame.chunk.instr? frame.ip = some i →
      Exec.execute o i (m.ready o frame frames) = .error f m₁ →
      recover m₁.handlers (f.locate i.span) m₁ = (none, m') →
        ∃ b h, b.Reachable o ∧ h :: b.handlers <:+ m₁.handlers ∧ Awaits o b h m
          ∧ m' = { m₁ with
              stack := b.stack, envs := b.envs, env := b.env, handlers := b.handlers,
              frames := (b.jump h.catchAt).frames })
      ∧ ∀ h ∈ m.handlers, ∃ above f below, m.frames = above ++ f :: below
        ∧ below.length + 1 = h.frames ∧ Between f h := by
  have hgood := hm.good ho
  refine ⟨fun frame frames i f m₁ m' hf hi hx hr => ?_, fun h hh => hgood.between hh⟩
  rcases hgood.rows with ⟨hnil, -⟩ | ⟨r, rs, hruns⟩
  · exact nomatch hnil.symm.trans hf
  · cases hf.symm.trans hruns.frames
    have hp : (m.ready o r.frame (rs.map Row.frame)).Poised .loose i r rs := hruns.ready hgood.holds hi
    have hfallen := Exec.execute_outcome (Footing.loose_bears ho) hp (.all _)
    rw [hx] at hfallen
    obtain ⟨hsuffix, hkeeps, henvs, hnested⟩ := hfallen.left hruns hp
    obtain ⟨h, below, hsuf, rfl, -⟩ := recover_eq henvs hnested hr
    obtain ⟨b, hb, rfl, hawaits, hrestores⟩ := hm.tracked ho h below (hsuf.trans hsuffix)
    have hrestores := hrestores.keeps (hkeeps h (hsuf.subset (.head _)))
    refine ⟨b, h, hb, hsuf, hawaits, ?_⟩
    obtain ⟨ip, hip⟩ := hrestores.frames
    rw [resume, hrestores.stack, hrestores.envs, hrestores.env, hip, atTop_atTop, frames_jump]

/-- A fault is caught where a name that is not defined is awaited to fail. -/
theorem exists_caught : ∃ (m : Machine) (frame : Frame) (frames : List Frame) (i : Instr) (f : Fault)
    (m₁ m' : Machine), m.Reachable {} ∧ m.frames = frame :: frames
    ∧ frame.chunk.instr? frame.ip = some i
    ∧ Exec.execute {} i (m.ready {} frame frames) = .error f m₁
    ∧ recover m₁.handlers (f.locate i.span) m₁ = (none, m') := by
  have hcheck : ((parseText .resume 0 "" "assert break x;").toOption.any fun items =>
      (fun m : Machine => m.frames.head?.any fun frame => (frame.chunk.instr? frame.ip).any fun i =>
        (Outcome.error? (Exec.execute {} i (m.ready {} frame m.frames.tail))).any fun p =>
          (recover p.2.handlers (p.1.locate i.span) p.2).1.isNone)
        ((Machine.fresh.start items).2.step {}).2) = true := by
    decide +kernel
  obtain ⟨items, hparsed, hcheck⟩ := Outcome.any_toOption.1 hcheck
  have hreach : ((Machine.fresh.start items).2.step {}).2.Reachable {} :=
    .next (.next .fresh (.start hparsed)) .step
  generalize ((Machine.fresh.start items).2.step {}).2 = m at hcheck hreach
  obtain ⟨frame, hframe, hcheck⟩ := (Option.any_eq_true _ _).1 hcheck
  obtain ⟨i, hi, hcheck⟩ := (Option.any_eq_true _ _).1 hcheck
  obtain ⟨⟨f, m₁⟩, hx, hcheck⟩ := (Option.any_eq_true _ _).1 hcheck
  obtain ⟨frames, hframes⟩ := List.head?_eq_some_iff.1 hframe
  rw [hframes] at hx
  exact ⟨m, frame, frames, i, f, m₁, _, hreach, hframes, hi, Outcome.error?_eq_some.1 hx,
    Prod.ext (Option.isNone_iff_eq_none.1 hcheck) rfl⟩

theorem exact_unwinding_caught : ∃ m b h, Reachable {} m ∧ Awaits {} b h m := by
  obtain ⟨m, frame, frames, i, f, m₁, m', hm, hf, hi, hx, hr⟩ := exists_caught
  obtain ⟨b, h, -, -, hawaits, -⟩ :=
    (exact_unwinding {} safeHost_default m hm).1 frame frames i f m₁ m' hf hi hx hr
  exact ⟨m, b, h, hm, hawaits⟩

end Machine

end Eleu
