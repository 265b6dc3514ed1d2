import Eleu.Proofs.Machine.Rows

/-! # What one instruction does to the rows

    A machine that is about to execute an instruction of its top row is `Poised`. Executing the
    instruction either succeeds, and the machine has rows again (`Advanced`), or ends with a fault,
    and all that the handlers will restore is still there (`Fallen`).

    Most instructions take a few values and leave others: for these, `Poised.moves` and
    `Poised.fails` cover all that can happen. The rest change the environment, the frames or the
    handlers, and are treated one by one. -/

namespace Eleu

variable {st : List Value} {pops : Nat} {name : String}

/-! ## Cutting stacks -/

section Cut

variable {α : Type} {n : Nat} {xs ys : List α}

theorem cutTo_of_length (h : xs.length = n) : cutTo n xs = xs := by
  simp [cutTo, h]

theorem length_cutTo (h : n ≤ xs.length) : (cutTo n xs).length = n := by
  simp only [cutTo, List.length_drop]
  omega

/-- What stands above the height of the cut does not matter. -/
theorem cutTo_append (xs : List α) (h : n ≤ ys.length) : cutTo n (xs ++ ys) = cutTo n ys := by
  unfold cutTo
  rw [List.length_append, show xs.length + ys.length - n = xs.length + (ys.length - n) by omega,
    List.drop_append]
  simp

theorem cutTo_drop {k : Nat} (h : n + k ≤ xs.length) : cutTo n (xs.drop k) = cutTo n xs := by
  conv => rhs; rw [← List.take_append_drop k xs]
  refine (cutTo_append _ ?_).symm
  rw [List.length_drop]
  omega

/-- A lower cut undoes a higher one. -/
theorem cutTo_cutTo {k : Nat} (hn : n ≤ k) (hk : k ≤ xs.length) : cutTo n (cutTo k xs) = cutTo n xs := by
  unfold cutTo
  rw [List.length_drop, List.drop_drop]
  congr 1
  omega

end Cut

variable {S : Footing} {o : Options} {i : Instr} {m : Machine} {r : Row} {rs : List Row}

namespace Machine

/-! ## Before and after an instruction -/

/-- The machine is about to execute `i`, the instruction of its top row. -/
structure Poised (S : Footing) (i : Instr) (m : Machine) (r : Row) (rs : List Row) : Prop where
  runs : m.Runs S (r.frame.ip + 1) r rs
  code : r.frame.chunk.instr? r.frame.ip = some i
  fits : i.Fits S.rules r.shapes r.frame.ip r.shape
  holds : m.Holds S

/-- How an instruction may change the frames, the environments and the handlers. -/
inductive Shift (r : Row) (m m' : Machine) : Prop where
  /-- The same frame goes on. While it has a handler, its environment stays. -/
  | stays (ip : Nat) (frames : m'.frames = (m.jump ip).frames) (envs : m'.envs = m.envs)
      (env : r.shape.guard.isSome → m'.env = m.env) (handlers : m'.handlers = m.handlers)
  | awaits (h : Handler) (unguarded : r.shape.guard = none) (frames : m'.frames = m.frames)
      (envs : m'.envs = m.envs) (env : m'.env = m.env)
      (heights : h.frames = m.frames.length ∧ h.envs = m.envs.length ∧ h.stack = m.stack.length)
      (code : r.frame.chunk.instr? r.frame.ip = some ⟨.failureBegin h.message h.catchAt, h.span⟩)
      (kept : h.env = m.env) (stack : m'.stack = m.stack) (handlers : m'.handlers = h :: m.handlers)
  | calls (f : Frame) (frames : m'.frames = f :: m.frames) (envs : m'.envs = m.env :: m.envs)
      (handlers : m'.handlers = m.handlers)
  | returns (f : Frame) (unguarded : r.shape.guard = none) (frames : m.frames = f :: m'.frames)
      (envs : m.envs = m'.env :: m'.envs) (handlers : m'.handlers = m.handlers)

/-- The values that the handler of the row will restore are the same. -/
def SameLow (r : Row) (m m' : Machine) : Prop :=
  cutTo (r.frame.base + r.shape.floor) m'.stack = cutTo (r.frame.base + r.shape.floor) m.stack
    ∧ r.frame.base + r.shape.floor ≤ m'.stack.length

/-- An instruction of the row `r` has been executed. -/
structure Advanced (S : Footing) (o : Options) (r : Row) (m m' : Machine) : Prop where
  holds : m'.Holds S
  runs : ∃ r' rs', m'.Runs S r'.frame.ip r' rs'
  depth : m'.frames.length ≤ max m.frames.length (o.maxCallDepth + 1)
  low : SameLow r m m'
  shift : Shift r m m'

/-- An instruction of the row `r` has ended with a fault. -/
structure Fallen (S : Footing) (r : Row) (m : Machine) (f : Fault) (m' : Machine) : Prop where
  sound : f.cause.Sound
  holds : m'.Holds S
  store : S.keeps m.world.store m'.world.store
  globals : m'.globals = m.globals
  frames : m'.frames = m.frames
  envs : m'.envs = m.envs
  env : m'.env = m.env
  low : SameLow r m m'
  /-- The handler of the row is gone if it had waited to the end. -/
  handlers : m'.handlers = m.handlers ∨ r.shape.guard.isSome ∧ m'.handlers = m.handlers.tail

/-- The outcome of an instruction. -/
abbrev Outcome (S : Footing) (o : Options) (r : Row) (m : Machine)
    (result : EStateM.Result Fault Machine Unit) : Prop :=
  Ends result (fun _ m' => m.Advanced S o r m') (fun f m' => m.Fallen S r f m')

/-! ## Instructions that take values and leave others -/

/-- What a machine holds stays as it should be if what is new is. -/
theorem Holds.update (h : m.Holds S) {w : World} (hw : w.store.Obeys S.law)
    (hg : S.grows m.world.store w.store) (hst : ∀ v ∈ st, v ∈ m.stack ∨ v.Obeys S.law w.store) :
    { m with world := w, stack := st }.Holds S := by
  refine ⟨hw, fun v hv => ?_, h.chunks, h.compiles, S.root_grows hg h.root⟩
  rcases hst v hv with hv | hv
  · exact S.value_grows hg (h.stack v hv)
  · exact hv

/-- The same row at another instruction: what it has on the stack and in scope fits the shape there. -/
theorem Runs.goTo {ip n : Nat} {l : Shape} {m' : Machine} (h : m.Runs S ip r rs)
    (hl : r.shapes n = some l) (hframes : m'.frames = (m.jump n).frames) (henvs : m'.envs = m.envs)
    (henv : m'.env = m.env) (hhandlers : m'.handlers = m.handlers)
    (hg : S.grows m.world.store m'.world.store) (hcall : l.call = r.shape.call)
    (hguard : l.guard = r.shape.guard) (hfloor : l.floor = r.shape.floor)
    (hheight : r.frame.base + l.height = m'.stack.length)
    (hchain : S.chain m'.world.store r.env l.scopes) (howned : m'.Owns S ((r.goTo n l) :: rs))
    (hflag : ∀ b, l.flag = some b → m'.stack.head? = some (.bool b)) :
    m'.Runs S n (r.goTo n l) rs := by
  obtain ⟨rest, hi, hb⟩ := h.below
  refine ⟨?_, henv.trans h.env, henvs.trans h.envs, ?_, hflag, howned, rest, ?_, hb.grows hg⟩
  · rw [hframes, jump, h.frames]
    rfl
  · exact ⟨h.top.balanced, hl, hcall.trans h.top.call, hheight, hchain⟩
  · rw [hhandlers]
    unfold Row.Installs at hi ⊢
    rw [show (r.goTo n l).shape.guard = r.shape.guard from hguard]
    split at hi
    · exact hi
    · obtain ⟨hd, hhs, hh⟩ := hi
      exact ⟨hd, hhs, hh.code, hh.frames, hh.envs, hh.env, hh.stack.trans (by rw [← hfloor]; rfl)⟩

/-- The next instruction after one that moved values. -/
theorem Runs.moved {w : World} {k : Shape} {pushes : Nat} (h : m.Runs S (r.frame.ip + 1) r rs)
    (hk : k.Calm) (hl : r.shape = k.push pops)
    (hn : r.shapes (r.frame.ip + 1) = some (k.push pushes)) (hg : S.keeps m.world.store w.store)
    (hst : st.length + pops = m.stack.length + pushes) :
    { m with world := w, stack := st }.Runs S (r.frame.ip + 1)
      (r.goTo (r.frame.ip + 1) (k.push pushes)) rs := by
  have hheight : r.frame.base + (k.height + pops) = m.stack.length := by
    rw [← h.top.height, hl]
    rfl
  have hchain : S.chain w.store r.env k.scopes := by
    have := S.chain_grows (S.keeps_grows hg) h.top.chain
    rwa [hl] at this
  have howned := S.owned_keeps hg h.owned
  rw [List.map_cons, Row.place, hl] at howned
  refine h.goTo hn ?_ rfl rfl rfl (S.keeps_grows hg) ?_ ?_ ?_ ?_ hchain howned ?_
  · rw [jump, h.frames]
  · rw [hl]
    rfl
  · rw [hl]
    rfl
  · rw [hl]
    rfl
  · show r.frame.base + (k.height + pushes) = st.length
    omega
  · exact Shape.flagless (l := k.push pushes) hk.flag

theorem Poised.height (h : m.Poised S i r rs) : r.frame.base + r.shape.height = m.stack.length :=
  h.runs.top.height

theorem Poised.frames_next (h : m.Poised S i r rs) :
    m.frames = (m.jump (r.frame.ip + 1)).frames := by
  rw [jump, h.runs.frames]

/-- An instruction that takes `pops` values and leaves the values `vs`. -/
theorem Poised.moves (h : m.Poised S i r rs) (vs : List Value)
    (hm : r.shape.Moves r.shapes r.frame.ip pops vs.length) {w : World}
    (hst : st = vs ++ m.stack.drop pops) (hw : w.store.Obeys S.law)
    (hg : S.keeps m.world.store w.store) (hvs : ∀ v ∈ vs, v ∈ m.stack ∨ v.Obeys S.law w.store) :
    m.Advanced S o r { m with world := w, stack := st } := by
  obtain ⟨k, hk, hl, hn⟩ := hm
  have hheight : r.frame.base + (k.height + pops) = m.stack.length := by
    rw [← h.height, hl]
    rfl
  have hlow : r.frame.base + k.floor + pops ≤ m.stack.length := by
    have := hk.floor
    omega
  have hfloor : r.shape.floor = k.floor := by rw [hl]; rfl
  subst hst
  refine ⟨h.holds.update hw (S.keeps_grows hg) fun v hv => ?_,
    ⟨r.goTo (r.frame.ip + 1) (k.push vs.length), rs, h.runs.moved hk hl hn hg ?_⟩,
    Nat.le_max_left _ _, ?_, .stays (r.frame.ip + 1) h.frames_next rfl (fun _ => rfl) rfl⟩
  · rcases List.mem_append.1 hv with hv | hv
    · exact hvs v hv
    · exact .inl (List.mem_of_mem_drop hv)
  · rw [List.length_append, List.length_drop]
    omega
  · rw [SameLow, hfloor]
    have hlen : r.frame.base + k.floor ≤ (m.stack.drop pops).length := by
      rw [List.length_drop]
      omega
    exact ⟨(cutTo_append _ hlen).trans (cutTo_drop hlow), by rw [List.length_append]; omega⟩

/-- An instruction that takes up to `pops` values and fails. -/
theorem Poised.fails (h : m.Poised S i r rs) (hm : r.shape.Takes pops) (taken : Nat)
    (ht : taken ≤ pops) {w : World} {f : Fault} (hst : st = m.stack.drop taken) (hf : f.cause.Sound)
    (hw : w.store.Obeys S.law) (hg : S.keeps m.world.store w.store) :
    m.Fallen S r f { m with world := w, stack := st } := by
  obtain ⟨k, hk, hl⟩ := hm
  have hheight : r.frame.base + (k.height + pops) = m.stack.length := by
    rw [← h.height, hl]
    rfl
  have hlow : r.frame.base + r.shape.floor + taken ≤ m.stack.length := by
    rw [show r.shape.floor = k.floor by rw [hl]; rfl]
    have := hk.floor
    omega
  subst hst
  refine ⟨hf, h.holds.update hw (S.keeps_grows hg) fun v hv => .inl (List.mem_of_mem_drop hv), hg, rfl, rfl, rfl, rfl,
    ⟨cutTo_drop hlow, ?_⟩, .inl rfl⟩
  rw [List.length_drop]
  omega

/-- An instruction that fails and leaves the world alone. -/
theorem Poised.fails_here (h : m.Poised S i r rs) (hm : r.shape.Takes pops) (taken : Nat)
    (ht : taken ≤ pops) {c : Cause} (hst : st = m.stack.drop taken) (hc : c.Dynamic) :
    m.Fallen S r { cause := c } { m with stack := st } :=
  h.fails hm taken ht hst hc.sound h.holds.store (S.keeps_of (.refl _ _))

/-- An instruction that leaves the world alone. -/
theorem Poised.moves_here (h : m.Poised S i r rs) (vs : List Value)
    (hm : r.shape.Moves r.shapes r.frame.ip pops vs.length) (hst : st = vs ++ m.stack.drop pops)
    (hvs : ∀ v ∈ vs, v ∈ m.stack ∨ v.Obeys S.law m.world.store) :
    m.Advanced S o r { m with stack := st } :=
  h.moves vs hm hst h.holds.store (S.keeps_of (.refl _ _)) hvs

theorem Poised.length (h : m.Poised S i r rs) (hm : r.shape.Takes pops) :
    pops ≤ m.stack.length := by
  obtain ⟨k, -, hl⟩ := hm
  have := h.runs.top.height
  rw [hl, Shape.push] at this
  dsimp only at this
  omega

theorem Poised.one (h : m.Poised S i r rs) (hm : r.shape.Takes 1) : ∃ v st, m.stack = v :: st :=
  List.exists_cons_of_length_pos (h.length hm)

theorem Poised.two (h : m.Poised S i r rs) (hm : r.shape.Takes 2) :
    ∃ v x st, m.stack = v :: x :: st := by
  have hlen := h.length hm
  match hst : m.stack with
  | [] | [_] => simp [hst] at hlen
  | v :: x :: st => exact ⟨v, x, st, rfl⟩

/-- An instruction that goes on at `n` in the same environment. -/
theorem Poised.goes (h : m.Poised S i r rs) {n : Nat} {l : Shape} {m' : Machine}
    (hl : r.shapes n = some l) (hframes : m'.frames = (m.jump n).frames) (henvs : m'.envs = m.envs)
    (henv : m'.env = m.env) (hhandlers : m'.handlers = m.handlers)
    (hg : S.grows m.world.store m'.world.store) (hcall : l.call = r.shape.call)
    (hguard : l.guard = r.shape.guard) (hfloor : l.floor = r.shape.floor)
    (hheight : r.frame.base + l.height = m'.stack.length)
    (hchain : S.chain m'.world.store r.env l.scopes) (howned : m'.Owns S ((r.goTo n l) :: rs))
    (hflag : ∀ b, l.flag = some b → m'.stack.head? = some (.bool b))
    (hholds : m'.Holds S) (hlow : SameLow r m m') : m.Advanced S o r m' := by
  refine ⟨hholds, ⟨r.goTo n l, rs, ?_⟩, ?_, hlow, .stays n hframes henvs (fun _ => henv) hhandlers⟩
  · exact h.runs.goTo hl hframes henvs henv hhandlers hg hcall hguard hfloor hheight hchain howned hflag
  · rw [hframes, jump, h.runs.frames]
    exact Nat.le_max_left _ _

/-- A jump leaves all else alone. -/
theorem Poised.jumps (h : m.Poised S i r rs) {n : Nat} (hc : r.shape.Calm)
    (hl : r.shapes n = some r.shape) : m.Advanced S o r (m.jump n) := by
  have hj : m.jump n = { m with frames := (m.jump n).frames } := by
    rw [jump, h.runs.frames]
  rw [hj]
  refine h.goes hl rfl rfl rfl rfl (S.grows_of (.refl _ _)) rfl rfl rfl h.height h.runs.top.chain h.runs.owned
    (Shape.flagless hc.flag) ⟨h.holds.store, h.holds.stack, h.holds.chunks,
      h.holds.compiles, h.holds.root⟩ ⟨rfl, ?_⟩
  have := hc.floor
  have := h.height
  show _ ≤ m.stack.length
  omega

/-- A test of the value on top of the stack goes on in one of two ways. -/
theorem Poised.goes_on (h : m.Poised S i r rs) (hm : r.shape.Moves r.shapes r.frame.ip 1 1)
    {v : Value} (hst : m.stack = v :: st) : m.Advanced S o r m :=
  h.moves_here [v] hm (by simp [hst]) (by simp [hst])

end Machine

namespace Machine

theorem Holds.lookup (h : m.Holds S) (name : String) (depth : Option Nat) :
    Yields (m.lookup name depth) (fun v => v.Obeys S.law m.world.store) Cause.Dynamic := by
  cases depth with
  | none => exact h.store.get _ _
  | some d => exact h.store.getAt _ _ _

theorem holder_sound (m : Machine) (name : String) (depth : Option Nat) :
    Yields (m.holder name depth) (fun a => m.world.store.hasLocal a name = true) Cause.Dynamic := by
  cases depth with
  | none => exact m.world.store.holder_sound _ _
  | some d => exact m.world.store.holderAt_sound _ _ _

end Machine

namespace Exec

open Machine

variable {span : Span}

theorem constant_outcome {v : Value} (h : m.Poised S ⟨.constant v, span⟩ r rs) :
    m.Outcome S o r (execute o ⟨.constant v, span⟩ m) := by
  obtain ⟨hv, hl, hn⟩ := h.fits
  rw [execute_constant]
  rcases hn with hn | ⟨b, rfl, hn⟩
  · have hm : r.shape.Moves r.shapes r.frame.ip 0 1 := ⟨r.shape, hl, rfl, hn⟩
    exact h.moves_here [v] hm rfl (fun x hx => .inr (List.mem_singleton.1 hx ▸ hv.obeys))
  · have hheight := h.height
    have hfloor := hl.floor
    refine h.goes hn h.frames_next rfl rfl rfl (S.grows_of (.refl _ _)) rfl rfl rfl ?_ h.runs.top.chain
      h.runs.owned ?_ ?_ ?_
    · show r.frame.base + (r.shape.height + 1) = m.stack.length + 1
      omega
    · rintro b ⟨⟩
      rfl
    · exact h.holds.update h.holds.store (S.grows_of (.refl _ _)) fun x hx => by
        rcases List.mem_cons.1 hx with rfl | hx
        · exact .inr (S.law.inert trivial)
        · exact .inl hx
    · have hlow : r.frame.base + r.shape.floor ≤ m.stack.length := by omega
      exact ⟨cutTo_append [Value.bool b] hlow, Nat.le_succ_of_le hlow⟩

theorem pop_outcome (h : m.Poised S ⟨.pop, span⟩ r rs) :
    m.Outcome S o r (execute o ⟨.pop, span⟩ m) := by
  obtain ⟨v, st, hst⟩ := h.one h.fits.takes
  rw [execute_pop hst]
  exact h.moves_here [] h.fits (by simp [hst]) (fun v hv => nomatch hv)

theorem lookup_outcome {depth : Option Nat} (h : m.Poised S ⟨.lookup name depth, span⟩ r rs) :
    m.Outcome S o r (execute o ⟨.lookup name depth, span⟩ m) := by
  have hm := h.fits.2
  have hl := h.holds.lookup name depth
  rw [execute_lookup]
  cases hv : m.lookup name depth with
  | ok v =>
    rw [hv] at hl
    exact h.moves_here [v] hm rfl fun x hx => .inr (List.mem_singleton.1 hx ▸ hl)
  | error c =>
    rw [hv] at hl
    exact h.fails_here hm.takes 0 (Nat.zero_le _) rfl hl

theorem assign_outcome {depth : Option Nat} (h : m.Poised S ⟨.assign name depth, span⟩ r rs) :
    m.Outcome S o r (execute o ⟨.assign name depth, span⟩ m) := by
  obtain ⟨hn, -, hm⟩ := h.fits
  obtain ⟨v, st, hst⟩ := h.one hm.takes
  have hl := m.holder_sound name depth
  rw [execute_assign hst]
  cases he : m.holder name depth with
  | ok e =>
    rw [he] at hl
    have hg : m.world.store.Keeps Reserved (m.world.store.define e name v) := .define hn hl v
    have hv : v.Obeys S.law m.world.store := h.holds.stack v (by simp [hst])
    exact h.moves [v] hm (by simp [hst])
      (h.holds.store.define hg.toGrows (hv.grows hg.toGrows)) (S.keeps_of hg) (by simp [hst])
  | error c =>
    rw [he] at hl
    exact h.fails_here hm.takes 0 (Nat.zero_le _) rfl hl

/-! ## Members and operators -/

theorem getField_outcome (h : m.Poised S ⟨.getField name, span⟩ r rs) :
    m.Outcome S o r (execute o ⟨.getField name, span⟩ m) := by
  have hm := h.fits
  obtain ⟨v, st, hst⟩ := h.one hm.takes
  by_cases hv : ∃ q, v = .object q
  · obtain ⟨q, rfl⟩ := hv
    have hsound := m.world.store.findMember_sound q name
    rw [execute_getField hst]
    cases hf : m.world.store.findMember q name with
    | ok found =>
      have hx := Store.Obeys.value_take (h.holds.store.findMember hf)
      exact h.moves [(m.world.store.take found).1] hm (by simp [hst]) (h.holds.store.take found)
        (S.keeps_of (.take _ found)) fun x hx' => .inr (List.mem_singleton.1 hx' ▸ hx)
    | error c =>
      rw [hf] at hsound
      exact h.fails_here hm.takes 1 (Nat.le_refl _) (by simp [hst]) hsound
  · rw [execute_getField_other hst fun q hq => hv ⟨q, hq⟩]
    exact h.fails_here hm.takes 1 (Nat.le_refl _) (by simp [hst]) rfl

theorem setField_outcome (h : m.Poised S ⟨.setField name, span⟩ r rs) :
    m.Outcome S o r (execute o ⟨.setField name, span⟩ m) := by
  have hm := h.fits
  obtain ⟨v, x, st, hst⟩ := h.two hm.takes
  by_cases hx : ∃ q, x = .object q
  · obtain ⟨q, rfl⟩ := hx
    have hv : v.Obeys S.law m.world.store := h.holds.stack v (by simp [hst])
    rw [execute_setField hst]
    exact h.moves [v] hm (by simp [hst]) (h.holds.store.setField q name hv)
      (S.keeps_of (.of_eq rfl rfl))
      (by simp [hst])
  · rw [execute_setField_other hst fun q hq => hx ⟨q, hq⟩]
    exact h.fails_here hm.takes 2 (Nat.le_refl _) (by simp [hst]) rfl

theorem getSuper_outcome {method : String} {depth : Nat}
    (h : m.Poised S ⟨.getSuper method depth, span⟩ r rs) :
    m.Outcome S o r (execute o ⟨.getSuper method depth, span⟩ m) := by
  have hm := h.fits.2
  have hsound := m.world.store.findSuper_sound m.env depth method
  rw [execute_getSuper]
  cases hf : m.world.store.findSuper m.env depth method with
  | ok found =>
    have hx := Store.Obeys.value_take (h.holds.store.findSuper hf)
    exact h.moves [(m.world.store.take found).1] hm rfl (h.holds.store.take found)
      (S.keeps_of (.take _ found)) fun x hx' => .inr (List.mem_singleton.1 hx' ▸ hx)
  | error c =>
    rw [hf] at hsound
    exact h.fails_here hm.takes 0 (Nat.zero_le _) rfl hsound

theorem unary_outcome {op : UnaryOp} (h : m.Poised S ⟨.unary op, span⟩ r rs) :
    m.Outcome S o r (execute o ⟨.unary op, span⟩ m) := by
  have hm := h.fits
  obtain ⟨v, st, hst⟩ := h.one hm.takes
  have hx := m.world.store.unary_inert op v
  rw [execute_unary hst]
  cases he : m.world.store.unary op v with
  | ok x =>
    rw [he] at hx
    exact h.moves_here [x] hm (by simp [hst]) (by simp [hx.obeys])
  | error c =>
    rw [he] at hx
    exact h.fails_here hm.takes 1 (Nat.le_refl _) (by simp [hst]) hx

theorem binary_outcome {op : BinaryOp} (h : m.Poised S ⟨.binary op, span⟩ r rs) :
    m.Outcome S o r (execute o ⟨.binary op, span⟩ m) := by
  have hm := h.fits
  obtain ⟨v, x, st, hst⟩ := h.two hm.takes
  have hy := m.world.store.binary_inert op x v
  rw [execute_binary hst]
  cases he : m.world.store.binary op x v with
  | ok y =>
    rw [he] at hy
    exact h.moves_here [y] hm (by simp [hst]) (by simp [hy.obeys])
  | error c =>
    rw [he] at hy
    exact h.fails_here hm.takes 2 (Nat.le_refl _) (by simp [hst]) hy

theorem logical_outcome {op : LogicalOp} (h : m.Poised S ⟨.logical op, span⟩ r rs) :
    m.Outcome S o r (execute o ⟨.logical op, span⟩ m) := by
  have hm := h.fits
  obtain ⟨v, x, st, hst⟩ := h.two hm.takes
  have hy := m.world.store.logical_inert op x v
  rw [execute_logical hst]
  cases he : m.world.store.logical op x v with
  | ok y =>
    rw [he] at hy
    exact h.moves_here [y] hm (by simp [hst]) (by simp [hy.obeys])
  | error c =>
    rw [he] at hy
    exact h.fails_here hm.takes 2 (Nat.le_refl _) (by simp [hst]) hy

theorem assert_outcome {message : Option String} (h : m.Poised S ⟨.assert message, span⟩ r rs) :
    m.Outcome S o r (execute o ⟨.assert message, span⟩ m) := by
  have hm := h.fits
  obtain ⟨v, st, hst⟩ := h.one hm.takes
  have ht := m.world.store.truth_sound v
  rw [execute_assert hst]
  cases he : m.world.store.truth v with
  | ok b =>
    cases b with
    | true => exact h.moves_here [] hm (by simp [hst]) (fun v hv => nomatch hv)
    | false => exact h.fails_here hm.takes 1 (Nat.le_refl _) (by simp [hst]) rfl
  | error c =>
    rw [he] at ht
    exact h.fails_here hm.takes 1 (Nat.le_refl _) (by simp [hst]) ht

/-! ## Jumps -/

theorem jump_outcome {target : Nat} (h : m.Poised S ⟨.jump target, span⟩ r rs) :
    m.Outcome S o r (execute o ⟨.jump target, span⟩ m) :=
  h.jumps h.fits.1 h.fits.2

theorem jumpIfFalse_outcome {target : Nat} (h : m.Poised S ⟨.jumpIfFalse target, span⟩ r rs) :
    m.Outcome S o r (execute o ⟨.jumpIfFalse target, span⟩ m) := by
  obtain ⟨hm, ht⟩ := h.fits
  obtain ⟨v, st, hst⟩ := h.one hm.takes
  have hsound := m.world.store.truth_sound v
  rw [execute_jumpIfFalse hst]
  cases he : m.world.store.truth v with
  | ok b =>
    cases b with
    | true => exact h.goes_on hm hst
    | false => exact h.jumps hm.calm ht
  | error c =>
    rw [he] at hsound
    exact h.fails_here hm.takes 0 (Nat.zero_le _) rfl hsound

theorem repeatTest_outcome {target : Nat} (h : m.Poised S ⟨.repeatTest target, span⟩ r rs) :
    m.Outcome S o r (execute o ⟨.repeatTest target, span⟩ m) := by
  obtain ⟨hm, ht⟩ := h.fits
  obtain ⟨v, st, hst⟩ := h.one hm.takes
  have hsound := m.world.store.rounds_sound v
  rw [execute_repeatTest hst]
  cases he : m.world.store.rounds v with
  | ok k =>
    cases k with
    | zero => exact h.jumps hm.calm ht
    | succ k => exact h.goes_on hm hst
  | error c =>
    rw [he] at hsound
    exact h.fails_here hm.takes 0 (Nat.zero_le _) rfl hsound

end Exec

end Eleu
