import Eleu.Proofs.Agreement.Mirror
import Eleu.Proofs.Code.Total
import Eleu.Proofs.Walker.Sound
import Mathlib.Algebra.Group.Nat.Defs

/-! # What it means that the machine does what the walker does

    `Simulates` says it of one task of the walker: the machine comes to the same result, or to the
    same fault, or goes on for as long as one likes if the walker has not enough fuel. There is one
    way out. The executors part where the object of a field assignment is no instance, since the
    walker looks at it before it evaluates the assigned value and the machine does so afterwards,
    and where the count of a `repeat` is too large to be counted down one by one. There both of
    them go astray (`Visit.Strays`, `Machine.Strays`).

    The lemmas about `Simulates` follow the computations of the walker: `bind`, `located`, `inEnv`
    and `inCall`. -/

namespace Eleu

/-! ## Where the executors part -/

/-- The walker has evaluated the object of a field assignment, which is no instance, or the count of a
    `repeat`, which is above 2 ^ 53. -/
inductive Visit.Strays (o : Options) : Visit → Prop where
  | setField (evaluated : Walk.expr o n object w = .ok x w') (other : ∀ r, x ≠ .object r) :
      Strays o ⟨n + 1, .expr (.setField object field value span), w⟩
  | «repeat» {w' : Walker} (counted : Walk.expr o n count w = .ok x w')
      (whole : w'.world.store.rounds x = .ok times) (large : 2 ^ 53 < times) :
      Strays o ⟨n + 1, .statement (.repeat count body span), w⟩

/-- In the course of the visit, the walker goes astray. -/
def Visit.GoesAstray (o : Options) (v : Visit) : Prop := ∃ v', v.Leads o v' ∧ v'.Strays o

/-- The machine has a value on top of its stack that is no instance and is about to evaluate what is
    assigned to a field of it, or it is about to test the count of a `repeat`, which is above
    2 ^ 53. -/
inductive Machine.Strays (m : Machine) : Prop where
  | setField {frame : Frame} {rest : List Frame} {value : Expr} {code : List Instr} {field : String}
      {span : Option Span} {x : Value} {st : List Value} (frames : m.frames = frame :: rest)
      (compiled : exprCode m.distances value = .ok code)
      (next : Segment frame.chunk.instr? frame.ip (code ++ [⟨.setField field, span⟩]))
      (stack : m.stack = x :: st) (other : ∀ r, x ≠ .object r)
  | «repeat» {frame : Frame} {rest : List Frame} {target : Nat} {span : Option Span} {x : Value}
      {st : List Value} {times : Nat} (frames : m.frames = frame :: rest)
      (next : frame.chunk.instr? frame.ip = some ⟨.repeatTest target, span⟩)
      (stack : m.stack = x :: st) (whole : m.world.store.rounds x = .ok times)
      (large : 2 ^ 53 < times)

theorem Visit.GoesAstray.of_calls {o : Options} {v v' : Visit} (hc : v.Calls o v')
    (h : v'.GoesAstray o) : v.GoesAstray o := by
  obtain ⟨v'', hl, hs⟩ := h
  exact ⟨v'', .head hc hl, hs⟩

/-! ## Simulation -/

/-- From `m` on, the machine does what a task of the walker with the outcome `r` does. A result and the
    states after it satisfy `P`. If the walker runs out of fuel, the machine executes at least `k`
    instructions. `V` holds if the walker goes astray. -/
inductive Simulates (o : Options) (D : List FunctionDecl) (d : Distances) (V : Prop) (a : Activation)
    (st : List Value) (k : Nat) {α : Type} (P : α → Walker → Machine → Prop) (m : Machine) :
    EStateM.Result Interrupt Walker α → Prop where
  | astray {r : EStateM.Result Interrupt Walker α} {j : Nat} {m' : Machine} (walker : V)
      (ticks : Machine.Ticks o j m m') (machine : m'.Strays) : Simulates o D d V a st k P m r
  | ok {x : α} {w : Walker} {j : Nat} {m' : Machine} (ticks : Machine.Ticks o j m m')
      (post : P x w m') : Simulates o D d V a st k P m (.ok x w)
  | fault {f : Fault} {w : Walker} {j : Nat} {m₁ m₂ : Machine} (placed : f.span.isSome = true)
      (ticks : Machine.Ticks o j m m₁) (active : m₁.Active) (step : m₁.step o = m₂.raise o f)
      (struck : m₂.Struck D d a st w) : Simulates o D d V a st k P m (.error (.fault f) w)
  | outOfFuel {w : Walker} (lasts : Machine.Lasts o k m) :
      Simulates o D d V a st k P m (.error .outOfFuel w)

/-- The innermost place wins. -/
theorem Fault.locate_of_placed {f : Fault} (h : f.span.isSome = true) (span : Option Span) :
    f.locate span = f := by
  obtain ⟨cause, place⟩ := f
  obtain ⟨p, rfl⟩ := Option.isSome_iff_exists.1 h
  rfl

theorem Fault.placed_locate (f : Fault) (span : Span) :
    (f.locate (some span)).span.isSome = true := by
  show (f.span.or (some span)).isSome = true
  cases f.span with
  | none => rfl
  | some p => rfl

variable {o : Options} {D : List FunctionDecl} {d : Distances} {V V' : Prop} {a a' : Activation}
  {st st' : List Value} {i j k ip : Nat} {w w' : Walker} {m m' : Machine} {α β : Type}

/-! ## Executing an instruction -/

section Instructions

variable {instr : Instr}

/-- An instruction that succeeds. -/
theorem Machine.Shadows.tick {Q : Machine → Prop} (h : m.Shadows D d a ip st w)
    (hi : a.code ip = some instr)
    (hx : (m.ready o { a.frame with ip } a.frames).Shadows D d a (ip + 1) st w →
      ∃ m', Exec.execute o instr (m.ready o { a.frame with ip } a.frames) = .ok () m' ∧ Q m') :
    ∃ m', m.Ticks o 1 m' ∧ Q m' := by
  obtain ⟨m', hm', hq⟩ := hx h.ready
  exact ⟨m', .single (Machine.tick_of_execute h.frames hi hm'), hq⟩

/-- An instruction that succeeds where the machine mirrors the walker. -/
theorem Machine.Mirrors.tick {Q : Machine → Prop} (h : m.Mirrors D d a ip st w)
    (hi : a.code ip = some instr)
    (hx : ∀ m₁, m₁.Mirrors D d a (ip + 1) st w →
      ∃ m', Exec.execute o instr m₁ = .ok () m' ∧ Q m') :
    ∃ m', m.Ticks o 1 m' ∧ Q m' :=
  h.toShadows.tick hi fun _ => hx _ h.ready

end Instructions

namespace Simulates

variable {P : α → Walker → Machine → Prop} {Q : β → Walker → Machine → Prop}
  {r : EStateM.Result Interrupt Walker α}

theorem mono {P' : α → Walker → Machine → Prop} (h : Simulates o D d V a st k P m r) (hV : V → V')
    (hP : ∀ x w m, P x w m → P' x w m) : Simulates o D d V' a st k P' m r := by
  cases h with
  | astray hv ht hs => exact .astray (hV hv) ht hs
  | ok ht hp => exact .ok ht (hP _ _ _ hp)
  | fault hf ht ha hs hm => exact .fault hf ht ha hs hm
  | outOfFuel hl => exact .outOfFuel hl

/-- The machine may go on after a result. -/
theorem extend {P' : α → Walker → Machine → Prop} (h : Simulates o D d V a st k P m r)
    (hP : ∀ x w m, r = .ok x w → P x w m → ∃ j m', m.Ticks o j m' ∧ P' x w m') :
    Simulates o D d V a st k P' m r := by
  cases h with
  | astray hv ht hs => exact .astray hv ht hs
  | ok ht hp =>
    obtain ⟨j, m', ht', hp'⟩ := hP _ _ _ rfl hp
    exact .ok (ht.trans ht') hp'
  | fault hf ht ha hs hm => exact .fault hf ht ha hs hm
  | outOfFuel hl => exact .outOfFuel hl

/-- Instructions that the walker has no part in. -/
theorem of_ticks (ht : m.Ticks o j m') (h : Simulates o D d V a st k P m' r) :
    Simulates o D d V a st k P m r := by
  cases h with
  | astray hv ht' hs => exact .astray hv (ht.trans ht') hs
  | ok ht' hp => exact .ok (ht.trans ht') hp
  | fault hf ht' ha hs hm => exact .fault hf (ht.trans ht') ha hs hm
  | outOfFuel hl => exact .outOfFuel ((Machine.Lasts.ticks ht hl).of_le (Nat.le_add_left _ _))

/-- An instruction makes up for what is lost in the bound for a walker without fuel. -/
theorem of_tick (ht : m.Ticks o (j + 1) m') (h : Simulates o D d V a st (k - 1) P m' r) :
    Simulates o D d V a st k P m r := by
  cases h with
  | astray hv ht' hs => exact .astray hv (ht.trans ht') hs
  | ok ht' hp => exact .ok (ht.trans ht') hp
  | fault hf ht' ha hs hm => exact .fault hf (ht.trans ht') ha hs hm
  | outOfFuel hl => exact .outOfFuel ((Machine.Lasts.ticks ht hl).of_le (by omega))

/-- Two tasks one after the other. -/
theorem bind {x : Walk α} {f : α → Walk β} (hx : Simulates o D d V a st k P m (x w))
    (hf : ∀ y w' m', x w = .ok y w' → P y w' m' → Simulates o D d V a st k Q m' (f y w')) :
    Simulates o D d V a st k Q m ((x >>= f) w) := by
  rw [Outcome.bind_apply]
  generalize hr : x w = r at hx
  cases hx with
  | astray hv ht hs => exact .astray hv ht hs
  | ok ht hp => exact .of_ticks ht (hf _ _ _ hr hp)
  | fault hf' ht ha hs hm => exact .fault hf' ht ha hs hm
  | outOfFuel hl => exact .outOfFuel hl

/-- A fault that has its place keeps it. -/
theorem located {span : Span} {act : Walk α} (h : Simulates o D d V a st k P m (act w)) :
    Simulates o D d V a st k P m (Walk.located span act w) := by
  unfold Walk.located
  generalize act w = r at h
  cases h with
  | astray hv ht hs => exact .astray hv ht hs
  | ok ht hp => exact .ok ht hp
  | fault hf ht ha hs hm =>
    dsimp only
    rw [Fault.locate_of_placed hf]
    exact .fault hf ht ha hs hm
  | outOfFuel hl => exact .outOfFuel hl

/-- What comes after a task whose faults have their places gets its place from outside. -/
theorem bind_located {span : Span} {x : Walk α} {f : α → Walk β}
    (hx : Simulates o D d V a st k P m (x w))
    (hf : ∀ y w' m', x w = .ok y w' → P y w' m' →
      Simulates o D d V a st k Q m' (Walk.located span (f y) w')) :
    Simulates o D d V a st k Q m (Walk.located span (x >>= f) w) := by
  unfold Walk.located
  rw [Outcome.bind_apply]
  generalize hr : x w = r at hx
  cases hx with
  | astray hv ht hs => exact .astray hv ht hs
  | ok ht hp => exact .of_ticks ht (hf _ _ _ hr hp)
  | fault hf' ht ha hs hm =>
    dsimp only
    rw [Fault.locate_of_placed hf']
    exact .fault hf' ht ha hs hm
  | outOfFuel hl => exact .outOfFuel hl

/-- An instruction that does what the walker does, in a place that both know. -/
theorem execute {op : Op} {span : Span} {act : Walk α} (hf : m.frames = a.framesAt ip)
    (hi : a.code ip = some ⟨op, span⟩)
    (hx : Matches P (Machine.Struck D d a st) (act w)
      (Exec.execute o ⟨op, span⟩ (m.ready o { a.frame with ip } a.frames))) :
    Simulates o D d V a st k P m (Walk.located span act w) := by
  unfold Walk.located
  generalize act w = r at hx
  generalize hr : Exec.execute o ⟨op, span⟩ (m.ready o { a.frame with ip } a.frames) = r' at hx
  cases hx with
  | ok hp => exact .ok (.single (Machine.tick_of_execute hf hi hr)) hp
  | @fault f w' m₂ hs =>
    exact .fault (f.placed_locate span) (.refl m) ⟨_, _, _, hf, hi⟩ (Machine.step_of_fault hf hi hr)
      hs

/-- Such an instruction where the machine mirrors the walker. -/
theorem exec {op : Op} {span : Span} {act : Walk α} (h : m.Mirrors D d a ip st' w)
    (hi : a.code ip = some ⟨op, span⟩)
    (hx : ∀ m₁, m₁.Mirrors D d a (ip + 1) st' w →
      Matches P (Machine.Struck D d a st) (act w) (Exec.execute o ⟨op, span⟩ m₁)) :
    Simulates o D d V a st k P m (Walk.located span act w) :=
  execute h.frames hi (hx _ h.ready)

/-- A scope of the walker that is left again. -/
theorem inEnv {Q : α → Walker → Machine → Prop} {e : EnvRef} {act : Walk α}
    (h : Simulates o D d V a st k P m (act { w with env := e }))
    (hQ : ∀ x v m', P x v m' → Q x { v with env := w.env } m') :
    Simulates o D d V a st k Q m (Walk.inEnv e act w) := by
  unfold Walk.inEnv
  generalize act { w with env := e } = r at h
  cases h with
  | astray hv ht hs => exact .astray hv ht hs
  | ok ht hp => exact .ok ht (hQ _ _ _ hp)
  | fault hf ht ha hs hm => exact .fault hf ht ha hs { hm with }
  | outOfFuel hl => exact .outOfFuel hl

/-- The values that lie deeper are left alone as well. -/
theorem of_suffix (h : Simulates o D d V a st' k P m r) (hst : st <:+ st') :
    Simulates o D d V a st k P m r := by
  cases h with
  | astray hv ht hs => exact .astray hv ht hs
  | ok ht hp => exact .ok ht hp
  | fault hf ht ha hs hm => exact .fault hf ht ha hs { hm with stack := hst.trans hm.stack }
  | outOfFuel hl => exact .outOfFuel hl

end Simulates

/-! ## Calls -/

/-- The activation `a'` is a call that `a` has made, and returns to the instruction at `ip`. -/
structure Activation.Returns (a' a : Activation) (ip : Nat) (e : EnvRef) (st : List Value) : Prop where
  frames : a'.frames = a.framesAt ip
  envs : a'.envs = e :: a.envs
  handlers : a'.handlers = a.handlers
  base : a'.frame.base = st.length

/-- A call of `c`, made by `a` at an instruction before `ip`. -/
def Activation.calling (a : Activation) (ip : Nat) (e : EnvRef) (st : List Value) (c : Closure)
    (span : Span) (chunk : Chunk) : Activation where
  frame := { chunk, ip := 0, name := c.decl.name, span := some span, base := st.length }
  frames := a.framesAt ip
  envs := e :: a.envs
  handlers := a.handlers

theorem Activation.returns_calling (a : Activation) (ip : Nat) (e : EnvRef) (st : List Value)
    (c : Closure) (span : Span) (chunk : Chunk) :
    (a.calling ip e st c span chunk).Returns a ip e st :=
  ⟨rfl, rfl, rfl, rfl⟩

theorem Store.classes_defineAll (s : Store) (e : EnvRef) (names : List String) (vs : List Value) :
    (s.defineAll e names vs).classes = s.classes := by
  induction names generalizing s vs with
  | nil => rfl
  | cons name names ih =>
    cases vs with
    | nil => rfl
    | cons v vs => exact ih _ vs

/-- The machine enters the body of a function when the walker does. -/
theorem Machine.Mirrors.entered {chunks : Table Nat Chunk} (h : m.Mirrors D d a ip st w)
    (hco : (m.withCode d chunks).Coherent D d) (c : Closure) (args : List Value) (span : Span)
    (chunk : Chunk) :
    ((m.withCode d chunks).entered c args span chunk).Mirrors D d
      (a.calling ip w.env st c span chunk) 0 st (w.inBody c args span) where
  frames := by
    show ({ chunk, ip := 0, name := c.decl.name, span := some span, base := m.stack.length } : Frame)
      :: m.frames = _
    rw [h.stack, h.frames]
    rfl
  envs := by
    show m.env :: m.envs = _
    rw [h.env, h.envs]
    rfl
  handlers := h.handlers
  stack := h.stack
  globals := h.globals
  world := by
    show World.Like _ { m.world with store := m.world.store.callStore c args }
    rw [h.store]
    exact h.world.setStore _
  coherent := ⟨rfl, hco.chunks⟩
  distances := h.distances
  calls := by
    refine ⟨congrArg Nat.succ h.calls.length, ?_⟩
    show _ :: (a.framesAt ip).dropLast.map Frame.text = _ :: w.calls.map CallSite.text
    rw [h.calls.texts_at]
    rfl
  trace := h.trace
  named := h.named.of_classes (Store.classes_defineAll _ _ _ _)
  env := congrArg (·.envs.size) h.store

/-- A fault that strikes a body strikes its caller. -/
theorem Machine.Struck.caller {e : EnvRef} {calls : List CallSite} (h : m.Struck D d a' st w)
    (ha : a'.Returns a ip e st) :
    m.Struck D d a st { w with calls := calls, trace := w.trace.or (some w.calls) } where
  frames := by
    obtain ⟨n, hn⟩ := h.frames
    refine ⟨ip, ?_⟩
    rw [Activation.framesAt, ha.frames] at hn
    exact (List.suffix_cons _ _).trans hn
  envs := by
    have he := h.envs
    rw [ha.envs] at he
    exact (List.suffix_cons _ _).trans he
  handlers := h.handlers.trans ha.handlers
  stack := h.stack
  globals := h.globals
  world := h.world
  coherent := h.coherent
  named := h.named
  texts := by
    rw [h.texts]
    cases w.trace <;> rfl

/-- The body of a call. -/
theorem Simulates.inCall {P Q : α → Walker → Machine → Prop} {c : CallSite} {act : Walk α} {e : EnvRef}
    (ha : a'.Returns a ip e st)
    (h : Simulates o D d V a' st k P m (act { w with calls := c :: w.calls }))
    (hQ : ∀ x v m', P x v m' → ∃ j m'', m'.Ticks o j m'' ∧ Q x { v with calls := v.calls.tail } m'') :
    Simulates o D d V a st k Q m (Walk.inCall c act w) := by
  unfold Walk.inCall
  generalize act { w with calls := c :: w.calls } = r at h
  cases h with
  | astray hv ht hs => exact .astray hv ht hs
  | ok ht hp =>
    obtain ⟨j, m'', ht', hq⟩ := hQ _ _ _ hp
    exact .ok (ht.trans ht') hq
  | fault hf ht ha' hs hm => exact .fault hf ht ha' hs (hm.caller ha)
  | outOfFuel hl => exact .outOfFuel hl

/-- The machine returns from a call. -/
theorem Machine.Shadows.return {p : Nat} {y : Value} {span : Option Span} {e : EnvRef}
    {calls : List CallSite} (h : m.Shadows D d a' p (y :: st') w)
    (hi : a'.code p = some ⟨.return, span⟩) (ha : a'.Returns a ip e st) (hst : st <:+ st')
    (hcalls : a.Lists calls) :
    ∃ m', m.Ticks o 1 m' ∧ m'.Mirrors D d a ip (y :: st) { w with env := e, calls := calls } := by
  refine h.tick hi fun hr => ?_
  have hframes : (m.ready o { a'.frame with ip := p } a'.frames).frames
      = { a'.frame with ip := p + 1 } :: a'.frames := hr.frames
  refine ⟨_, Exec.execute_return hr.stack hframes (hr.envs.trans ha.envs), ?_⟩
  exact {
    frames := ha.frames
    envs := rfl
    handlers := hr.handlers.trans ha.handlers
    stack := by
      show y :: cutTo a'.frame.base st' = y :: st
      rw [ha.base, cutTo_suffix hst]
    globals := hr.globals
    world := hr.world
    coherent := ⟨hr.coherent.distances, hr.coherent.chunks⟩
    distances := hr.distances
    calls := hcalls
    trace := hr.trace
    named := hr.named
    env := rfl }

/-! ## Tasks -/

/-- The fuel `n` suffices for a tree of the size `need` and for `k` calls or rounds of loops, each of
    which takes at most `B` units before the machine executes an instruction. -/
def Enough (B need k n : Nat) : Prop := k = 0 ∨ need + k * B ≤ n

/-- A part needs less than the whole. -/
theorem Enough.child {B need need' n : Nat} (h : Enough B need k (n + 1)) (hn : need' < need) :
    Enough B need' k n := by
  rcases h with rfl | h
  · exact .inl rfl
  · exact .inr (by omega)

/-- One call or round less needs less. -/
theorem Enough.pred {B need need' n : Nat} (h : Enough B need k (n + 1)) (hn : need' < need + B) :
    Enough B need' (k - 1) n := by
  rcases h with rfl | h
  · exact .inl rfl
  · cases k with
    | zero => exact .inl rfl
    | succ k =>
      rw [Nat.succ_mul] at h
      exact .inr (by simp only [Nat.add_sub_cancel]; omega)

theorem Enough.zero {B need : Nat} (hB : 0 < B) (h : Enough B need k 0) : k = 0 := by
  rcases h with h | h
  · exact h
  · exact (Nat.mul_eq_zero.1 (Nat.le_zero.1 (Nat.le_trans (Nat.le_add_left _ _) h))).resolve_right
      (Nat.ne_of_gt hB)

/-- The environment `e` lies inside the scopes of the surroundings `c`. If these belong to an
    initialiser, it closes over the environment `home`, which has the instance. -/
structure Grounded (c : Surroundings) (role : Option FunctionRole) (home : EnvRef) (s : Store)
    (e : EnvRef) : Prop where
  nested : c.Nested
  inside : ∃ b, s.ancestor? e c.scopes = some b
  role : c.initialiser = true → role = some .initialiser
  this : c.initialiser = true → s.ancestor? e (c.scopes + 1) = some home
    ∧ (∃ p, (s.env home).parent = some p) ∧ ∃ y, s.local? home "this" = some y

namespace Grounded

variable {c : Surroundings} {role : Option FunctionRole} {home e : EnvRef} {s t : Store}

theorem grows (h : Grounded c role home s e) (hg : s.Grows Reserved t) :
    Grounded c role home t e where
  nested := h.nested
  inside := by
    obtain ⟨b, hb⟩ := h.inside
    exact ⟨b, Store.ancestor?_grows hg hb⟩
  role := h.role
  this := by
    intro hi
    obtain ⟨ha, ⟨p, hp⟩, y, hy⟩ := h.this hi
    refine ⟨Store.ancestor?_grows hg ha, ⟨p, ?_⟩, y, ?_⟩
    · rw [hg.parent home (Store.parent_lt_size hp), hp]
    · rw [hg.fixed hp "this" (.inl rfl), hy]

/-- What a task leaves. -/
theorem kept {S : Setting} (h : Grounded c role home w.world.store w.env) (hk : w.Kept S w') :
    Grounded c role home w'.world.store w'.env := by
  rw [hk.env]
  exact h.grows hk.grows

/-- A new scope inside. -/
theorem enter (h : Grounded c role home s e) :
    Grounded c.inScope role home (s.newEnv (some e)).2 s.envs.size where
  nested := h.nested.inScope
  inside := by
    obtain ⟨b, hb⟩ := h.inside
    exact ⟨b, Store.ancestor?_newEnv s e c.scopes hb⟩
  role := h.role
  this := by
    intro hi
    obtain ⟨-, hp, hy⟩ := (h.grows (.newEnv s (some e))).this hi
    exact ⟨Store.ancestor?_newEnv s e (c.scopes + 1) (h.this hi).1, hp, hy⟩

theorem inLoop (h : Grounded c role home s e) (breakTo continueTo : Nat) :
    Grounded (c.inLoop breakTo continueTo) role home s e :=
  ⟨c.nested_inLoop _ _, h.inside, h.role, h.this⟩

/-- The scopes inside the innermost loop can be left. -/
theorem unwind (h : Grounded c role home s e) : ∃ b, s.ancestor? e c.unwind = some b := by
  obtain ⟨b, hb⟩ := h.inside
  have hsplit : c.scopes = c.unwind + (c.scopes - c.unwind) :=
    (Nat.add_sub_cancel' (Nat.sub_le _ _)).symm
  rw [hsplit, Store.ancestor?_add] at hb
  obtain ⟨x, hx, -⟩ := Option.bind_eq_some_iff.1 hb
  exact ⟨x, hx⟩

/-- An initialiser reads its instance from anywhere in its body. -/
theorem getAt (h : Grounded c role home s e) (hi : c.initialiser = true) :
    ∃ y, s.getAt e "this" (c.scopes + 1) = .ok y ∧ s.getAt home "this" 0 = .ok y := by
  obtain ⟨ha, -, y, hy⟩ := h.this hi
  exact ⟨y, Store.getAt_of_local ha hy, Store.getAt_of_local rfl hy⟩

end Grounded

/-- The machine stands at `target` and has left the scopes inside the innermost loop. The walker has not
    left them yet. -/
def Left (D : List FunctionDecl) (d : Distances) (a : Activation) (c : Surroundings) (target : Nat)
    (st : List Value) (w : Walker) (m : Machine) : Prop :=
  ∃ e, w.world.store.ancestor? w.env c.unwind = some e
    ∧ m.Mirrors D d a target st { w with env := e }

/-- Where the machine stands after items that have ended in the given way: behind them, at one of the
    exits of the innermost loop, or at an instruction that returns the value. What an initialiser
    returns is its instance. -/
def Flowed (D : List FunctionDecl) (d : Distances) (a : Activation) (c : Surroundings)
    (role : Option FunctionRole) (home : EnvRef) (next : Nat) (st : List Value) :
    Flow → Walker → Machine → Prop
  | .next, w, m => m.Mirrors D d a next st w
  | .break, w, m => ∃ x ∈ c.innermost, Left D d a c x.breakTo st w m
  | .continue, w, m => ∃ x ∈ c.innermost, Left D d a c x.continueTo st w m
  | .return v, w, m => role.isSome = true ∧ ∃ p span y st', m.Shadows D d a p (y :: st') w
      ∧ a.code p = some ⟨.return, span⟩ ∧ st <:+ st'
      ∧ (c.initialiser = false → y = v)
      ∧ (c.initialiser = true → w.world.store.getAt home "this" 0 = .ok y)

/-- The machine is about to execute the code of an item, or of items, that stands in the frame of `a` in
    the surroundings `c`. -/
structure Stands (D : List FunctionDecl) (d : Distances) (a : Activation) (c : Surroundings)
    (role : Option FunctionRole) (home : EnvRef) (ip : Nat) (st : List Value) (code : List Instr)
    (w : Walker) (m : Machine) : Prop where
  distances : c.distances = d
  segment : Segment a.code ip code
  mirrors : m.Mirrors D d a ip st w
  grounded : Grounded c role home w.world.store w.env

/-- A task of the walker is simulated by every machine that is about to execute its code. -/
def Task.Simulated (o : Options) (T : List Reference) (D : List FunctionDecl) (d : Distances) (B : Nat)
    (V : Prop) (n : Nat) (w : Walker) : Task → Prop
  | .expr e => ∀ ⦃a ip st code k m⦄, exprCode d e = .ok code → Segment a.code ip code →
      m.Mirrors D d a ip st w → Enough B (3 * sizeOf e) k n →
      Simulates o D d V a st k (fun v w' m' => m'.Mirrors D d a (ip + code.length) (v :: st) w') m
        (Walk.expr o n e w)
  | .exprs es => ∀ ⦃a ip st code k m⦄, exprsCode d es = .ok code → Segment a.code ip code →
      m.Mirrors D d a ip st w → Enough B (3 * sizeOf es) k n →
      Simulates o D d V a st k (fun vs w' m' => vs.length = es.length
          ∧ m'.Mirrors D d a (ip + code.length) (vs.reverse ++ st) w') m
        (Walk.exprs o n es w)
  | .call callee args span => ∀ ⦃a ip st k m⦄, a.code ip = some ⟨.call args.length, span⟩ →
      m.Mirrors D d a ip (callee :: (args.reverse ++ st)) w → Enough B 2 k n →
      Simulates o D d V a st k (fun v w' m' => m'.Mirrors D d a (ip + 1) (v :: st) w') m
        (Walk.located span (Walk.call o n callee args span) w)
  | .closure c args span => ∀ ⦃a ip st k m m₁ op⦄, m.frames = a.framesAt ip →
      a.code ip = some ⟨op, span⟩ →
      Exec.execute o ⟨op, span⟩ (m.ready o { a.frame with ip } a.frames)
        = Exec.enter o c args span m₁ →
      m₁.Mirrors D d a (ip + 1) st w → Enough B 1 k n →
      Simulates o D d V a st k (fun v w' m' => m'.Mirrors D d a (ip + 1) (v :: st) w'
          ∧ (c.isInit = true → w'.world.store.getAt c.env "this" 0 = .ok v)) m
        (Walk.located span (Walk.closure o n c args span) w)
  | .item i => ∀ ⦃a c role home ip st code k m Γ⦄, itemCode c ip i = .ok code →
      i.Follows (Rules.exact D T d) d role c.innermost.isSome Γ →
      Stands D d a c role home ip st code w m → Enough B (3 * sizeOf i + 1) k n →
      Simulates o D d V a st k (Flowed D d a c role home (ip + code.length) st) m (Walk.item o n i w)
  | .items is => ∀ ⦃a c role home ip st code k m Γ⦄, itemsCode c ip is = .ok code →
      itemsFollow (Rules.exact D T d) d role c.innermost.isSome Γ is →
      Stands D d a c role home ip st code w m → Enough B (3 * sizeOf is) k n →
      Simulates o D d V a st k (Flowed D d a c role home (ip + code.length) st) m (Walk.items o n is w)
  | .statement i => ∀ ⦃a c role home ip st code k m Γ⦄, itemCode c ip i = .ok code →
      i.Follows (Rules.exact D T d) d role c.innermost.isSome Γ →
      Stands D d a c role home ip st code w m → Enough B (3 * sizeOf i) k n →
      Simulates o D d V a st k (Flowed D d a c role home (ip + code.length) st) m
        (Walk.located i.span (Walk.statement o n i) w)
  | .whileLoop condition body increment => ∀ ⦃a c role home ip st code k m Γ span⦄,
      itemCode c ip (.while condition body increment span) = .ok code →
      (Item.while condition body increment span).Follows (Rules.exact D T d) d role
        c.innermost.isSome Γ →
      Stands D d a c role home ip st code w m →
      Enough B (3 * (sizeOf condition + sizeOf body + sizeOf increment) + 2) k n →
      Simulates o D d V a st k (Flowed D d a c role home (ip + code.length) st) m
        (Walk.whileLoop o n condition body increment w)
  | .repeatLoop times body => ∀ ⦃a c role home ip st code k m Γ v span span'⦄,
      itemCode (c.inLoop (ip + 1 + body.size 0 + 3) (ip + 1 + body.size 0)) (ip + 1) body = .ok code →
      body.Follows (Rules.exact D T d) d role true Γ →
      Stands D d a c role home ip (v :: st)
        (⟨.repeatTest (ip + 1 + body.size 0 + 3), span'⟩ :: code ++ [⟨.constant (.number .one), span⟩,
          ⟨.binary .minus, span⟩, ⟨.jump ip, span⟩, ⟨.pop, span⟩]) w m →
      w.world.store.rounds v = .ok times → times ≤ 2 ^ 53 →
      Enough B (3 * sizeOf body + 2) k n →
      Simulates o D d V a st k (Flowed D d a c role home (ip + code.length + 5) st) m
        (Walk.repeatLoop o n times body w)
  | .program is => ∀ ⦃a c role home ip st code k m Γ⦄, itemsCode c ip is = .ok code →
      c.innermost = none → role = none → itemsFollow (Rules.exact D T d) d role false Γ is →
      Stands D d a c role home ip st code w m → Enough B (3 * sizeOf is) k n →
      Simulates o D d V a st k (fun _ w' m' => m'.Mirrors D d a (ip + code.length) st w') m
        (Walk.program o n is w)

end Eleu
