import Eleu.Proofs.Agreement.Expressions

/-! # Statements on both executors

    The code of a statement takes the machine where the statement takes the walker: behind its code,
    to one of the exits of the innermost loop, or to a return (`Flowed`). The loops are in a module
    of their own. -/

namespace Eleu

variable {message : Option String} {span : Span} {code : List Instr} {target : Nat}

open Outcome

variable {o : Options} {T : List Reference} {D : List FunctionDecl} {d : Distances} {B n : Nat}
  {w : Walker} {a : Activation} {c : Surroundings} {role : Option FunctionRole} {home : EnvRef}
  {ip next next' k : Nat} {st : List Value} {m : Machine} {V : Prop}

/-! ## Ways to end -/

/-- Items that do not end normally do not come to what stands behind them. -/
theorem Flowed.other {flow : Flow} (h : Flowed D d a c role home next st flow w m)
    (hf : flow ≠ .next) : Flowed D d a c role home next' st flow w m := by
  cases flow with
  | next => exact absurd rfl hf
  | «break» | «continue» | «return» => exact h

/-- To proceed is one of the ways to end. -/
theorem Matches.flowed {F : Walker → Machine → Prop} {r : EStateM.Result Interrupt Walker Flow}
    {x : EStateM.Result Fault Machine Unit} (h : Matches (Proceeds D d a next st) F r x) :
    Matches (Flowed D d a c role home next st) F r x := by
  cases h with
  | ok hp =>
    obtain ⟨rfl, hm⟩ := hp
    exact .ok hm
  | fault hf => exact .fault hf

/-- A piece of code that goes on at another place when it ends normally. -/
theorem Simulates.flow {r : EStateM.Result Interrupt Walker Flow}
    (h : Simulates o D d V a st k (Flowed D d a c role home next st) m r)
    (hnext : ∀ (w' : Walker) (m' : Machine), m'.Mirrors D d a next st w' →
      ∃ j m'', m'.Ticks o j m'' ∧ m''.Mirrors D d a next' st w') :
    Simulates o D d V a st k (Flowed D d a c role home next' st) m r := by
  refine h.extend fun flow w' m' _ hf => ?_
  cases flow with
  | next => exact hnext w' m' hf
  | «break» | «continue» | «return» => exact ⟨0, m', .refl m', hf⟩

/-- The code of `break` or `continue` leaves the scopes inside the innermost loop. -/
theorem leave_ticks (hs : Stands D d a c role home ip st (c.leave (some target) span) w m) :
    ∃ j m', m.Ticks o j m' ∧ Left D d a c target st w m' := by
  obtain ⟨-, hseg, hm, hg⟩ := hs
  obtain ⟨b, hb⟩ := hg.unwind
  by_cases hzero : c.unwind = 0
  · simp only [Surroundings.leave, if_pos hzero] at hseg
    obtain ⟨m', ht, hm'⟩ := hm.tick (o := o) hseg.1 fun m₁ h₁ => ⟨_, rfl, h₁.jump target⟩
    refine ⟨1, m', ht, w.env, ?_, hm'⟩
    rw [hzero]
    rfl
  · simp only [Surroundings.leave, if_neg hzero] at hseg
    obtain ⟨hleave, hjump, -⟩ := hseg
    obtain ⟨m₁, ht₁, hm₁⟩ := hm.tick (o := o)
      (Q := fun m' => m'.Mirrors D d a (ip + 1) st { w with env := b }) hleave fun m₁ h₁ => by
        refine ⟨_, Exec.execute_leaveScope (a := b) ?_, ?_⟩
        · rw [h₁.store, h₁.env]
          exact hb
        · exact { h₁ with coherent := ⟨h₁.coherent.distances, h₁.coherent.chunks⟩, env := rfl }
    obtain ⟨m₂, ht₂, hm₂⟩ := hm₁.tick (o := o) hjump fun m₁ h₁ => ⟨_, rfl, h₁.jump target⟩
    exact ⟨2, m₂, ht₁.trans ht₂, b, hb, hm₂⟩

theorem Walk.condition_eq_ok {v : Value} {b : Bool} {w' : Walker}
    (h : Walk.condition v span w = .ok b w') : w.world.store.truth v = .ok b := by
  rw [Walk.condition_apply] at h
  split at h
  · next hb =>
      cases h
      exact hb
  · exact nomatch h

/-- Both executors enter a new scope. -/
theorem Machine.Mirrors.inScope (h : m.Mirrors D d a ip st w) :
    Machine.Mirrors D d a ip st w.inScope
      { m.setStore (m.world.store.newEnv (some m.env)).2 with env := m.world.store.envs.size } := by
  have hstore : m.world.store.newEnv (some m.env) = w.world.store.newEnv (some w.env) := by
    rw [h.store, h.env]
  have hsize : m.world.store.envs.size = w.world.store.envs.size := by rw [h.store]
  have hnew := h.inStore (s := (w.world.store.newEnv (some w.env)).2) rfl
  rw [hstore, hsize]
  exact { hnew with coherent := ⟨h.coherent.distances, h.coherent.chunks⟩, env := rfl }

/-- The parent of a scope is where it was when the body of a block has ended. -/
theorem Walker.Kept.parent {S : Setting} {w' : Walker} (h : w.inScope.Kept S w') :
    (w'.world.store.env w'.env).parent = some w.env := by
  rw [h.env]
  show (w'.world.store.env w.world.store.envs.size).parent = some w.env
  have hlt : w.world.store.envs.size < (w.world.store.newEnv (some w.env)).2.envs.size := by simp
  rw [h.grows.parent _ hlt]
  show ((w.world.store.newEnv (some w.env)).2.env w.world.store.envs.size).parent = _
  rw [Store.env_newEnv, if_pos rfl]

/-- A machine that has left scopes inside a block has left the scope of the block as well. -/
theorem Left.block (h : Left D d a c.inScope target st w m) (hc : c.Nested) {e : EnvRef}
    (hparent : (w.world.store.env w.env).parent = some e) :
    Left D d a c target st { w with env := e } m := by
  obtain ⟨b, hb, hm⟩ := h
  rw [hc.unwind_inScope, Store.ancestor?_succ, hparent] at hb
  exact ⟨b, hb, hm⟩

/-! ## Handlers -/

/-- The activation inside a statement that awaits a fault. -/
def Activation.awaiting (a : Activation) (hd : Handler) : Activation :=
  { a with handlers := hd :: a.handlers }

theorem Machine.Mirrors.await (h : m.Mirrors D d a ip st w) (hd : Handler) :
    Machine.Mirrors D d (a.awaiting hd) ip st w { m with handlers := hd :: m.handlers } :=
  { h with
    handlers := congrArg _ h.handlers
    coherent := ⟨h.coherent.distances, h.coherent.chunks⟩
    calls := ⟨h.calls.length, h.calls.texts⟩ }

/-- A handler brings the machine back to where it was installed. -/
theorem Machine.Struck.unwindTo {S : Setting} {m₀ : Machine} {w' : Walker} {catchAt : Nat}
    (h₀ : m₀.Mirrors D d a ip st w) (hk : w.Kept S w')
    (h : m.Struck D d (a.awaiting (m₀.handlerFor message span catchAt)) st w') :
    ∃ ip', (m.unwindTo (m₀.handlerFor message span catchAt) a.handlers).Mirrors D d a ip' st
      { w' with trace := none } := by
  obtain ⟨ip', hframes⟩ := h.frames
  have hframes' : cutTo m₀.frames.length m.frames = a.framesAt ip' := by
    rw [h₀.frames]
    exact cutTo_suffix hframes
  have henvs : cutTo m₀.envs.length m.envs = a.envs := by
    rw [h₀.envs]
    exact cutTo_suffix h.envs
  have hstack : cutTo m₀.stack.length m.stack = st := by
    rw [h₀.stack]
    exact cutTo_suffix h.stack
  exact ⟨ip', {
    frames := hframes'
    envs := henvs
    handlers := rfl
    stack := hstack
    globals := h.globals
    world := h.world
    coherent := ⟨h.coherent.distances, h.coherent.chunks⟩
    distances := hk.distances.trans h₀.distances
    calls := by
      show a.Lists w'.calls
      rw [hk.calls]
      exact h₀.calls
    trace := rfl
    named := h.named
    env := h₀.env.trans hk.env.symm }⟩

/-- A message that is awaited, if any, is the message of the fault. -/
def Fault.Awaited (message : Option String) (f : Fault) : Prop :=
  ∀ expected ∈ message, expected = f.message

/-- The awaited fault is caught. -/
theorem Walk.checkFailure_awaited {f : Fault} (h : f.Awaited message) :
    Walk.checkFailure message (.error f) w = .ok .next w := by
  cases message with
  | none => rfl
  | some expected =>
    simp only [Walk.checkFailure, if_pos (h expected rfl)]
    rfl

/-- Any other gives a fault of its own. -/
theorem Walk.checkFailure_other {f : Fault} (h : ¬ f.Awaited message) :
    Walk.checkFailure message (.error f) w
      = .error (.fault { cause := .otherError f.message }) w := by
  cases message with
  | none => exact absurd (fun _ hx => nomatch hx) h
  | some expected =>
    have hne : expected ≠ f.message := fun heq => h (by rintro x ⟨⟩; exact heq)
    simp only [Walk.checkFailure, if_neg hne]
    rfl

namespace Machine

variable {hd : Handler} {hs : List Handler} {f : Fault}

/-- A handler that awaits the fault takes over. -/
theorem raise_awaited (hh : m.handlers = hd :: hs) (h : f.Awaited hd.message) :
    m.raise o f = ((m.unwindTo hd hs).jump hd.catchAt).status := by
  unfold raise
  rw [hh, recover]
  cases hm : hd.message with
  | none => rfl
  | some expected =>
    rw [hm] at h
    simp only [if_pos (h expected rfl)]

/-- If the innermost one does not, a fault of its own goes on to the next. -/
theorem raise_other (hh : m.handlers = hd :: hs) (h : ¬ f.Awaited hd.message) :
    m.raise o f
      = (m.unwindTo hd hs).raise o { cause := .otherError f.message, span := hd.span } := by
  unfold raise
  rw [hh, recover]
  cases hm : hd.message with
  | none =>
    rw [hm] at h
    exact absurd (by rintro _ ⟨⟩) h
  | some expected =>
    rw [hm] at h
    have hne : expected ≠ f.message := fun heq => h (by rintro x ⟨⟩; exact heq)
    simp only [if_neg hne]
    rfl

end Machine

theorem Walk.attempt_bind {α β : Type} (act : Walk α) (f : Except Fault α → Walk β) (w : Walker) :
    (Walk.attempt act >>= f) w =
      match act w with
      | .ok x w => f (.ok x) w
      | .error (.fault e) w => f (.error e) { w with trace := none }
      | .error .outOfFuel w => .error .outOfFuel w := by
  rw [bind_apply]
  unfold Walk.attempt
  cases act w with
  | ok x w' => rfl
  | error i w' => cases i <;> rfl

namespace Visit

/-! ## Items -/

/-- An item is its statement, once the host has been asked. -/
theorem item_simulated (hcancel : o.cancel = none) {i : Item}
    (child : CallsSimulated o T D d B n (.item i) w) :
    Task.Simulated o T D d B (GoesAstray o ⟨n + 1, .item i, w⟩) (n + 1) w (.item i) := by
  intro a c role home ip st code k m Γ hcode hf hs hfuel
  have hpoll : Walk.poll o i.span w = .ok () w := by
    rw [Walk.poll_apply, Machine.poll_none hcancel]
    rfl
  have hitem : Walk.item o (n + 1) i w
      = Walk.located i.span (Walk.statement o n i) { w with count := w.count + 1 } := by
    rw [Walk.item, bind_apply, hpoll]
    rfl
  rw [hitem]
  exact child (.statement hpoll) hcode hf { hs with mirrors := hs.mirrors.count _ }
    (hfuel.child (Nat.lt_succ_self _))

/-- Items up to the first that does not go on. -/
theorem items_simulated {is : List Item} (child : CallsSimulated o T D d B n (.items is) w)
    (kept : CallsKept o (.plain D T d) n (.items is) w) :
    Task.Simulated o T D d B (GoesAstray o ⟨n + 1, .items is, w⟩) (n + 1) w (.items is) := by
  intro a c role home ip st code k m Γ hcode hf hs hfuel
  cases is with
  | nil =>
    cases hcode
    exact .ok (.refl m) hs.mirrors
  | cons i is =>
    simp only [itemsCode, except_bind_eq_ok, Except.ok.injEq] at hcode
    obtain ⟨first, hfirst, rest, hrest, rfl⟩ := hcode
    obtain ⟨hseg, hseg'⟩ := Segment.append.1 hs.segment
    refine .bind (child .firstItem hfirst hf.1 { hs with segment := hseg }
      (hfuel.child (by simp +arith))) ?_
    intro flow w₁ m₁ hr hm₁
    cases flow with
    | next =>
      have hk := kept.ok .firstItem hr
      rw [List.length_append, ← Nat.add_assoc]
      exact child (.restItems hr) hrest hf.2 ⟨hs.distances, hseg', hm₁, hs.grounded.kept hk⟩
        (hfuel.child (by simp +arith))
    | «break» | «continue» | «return» => exact .ok (.refl m₁) (hm₁.other (by rintro ⟨⟩))

/-- The items of a program. -/
theorem program_simulated {is : List Item} (child : CallsSimulated o T D d B n (.program is) w)
    (kept : CallsKept o (.plain D T d) n (.program is) w) :
    Task.Simulated o T D d B (GoesAstray o ⟨n + 1, .program is, w⟩) (n + 1) w (.program is) := by
  intro a c role home ip st code k m Γ hcode hloop hrole hf hs hfuel
  cases is with
  | nil =>
    cases hcode
    exact .ok (.refl m) hs.mirrors
  | cons i is =>
    simp only [itemsCode, except_bind_eq_ok, Except.ok.injEq] at hcode
    obtain ⟨first, hfirst, rest, hrest, rfl⟩ := hcode
    obtain ⟨hseg, hseg'⟩ := Segment.append.1 hs.segment
    refine .bind (child .firstOfProgram hfirst (by rw [hloop]; exact hf.1)
      { hs with segment := hseg } (hfuel.child (by simp +arith))) ?_
    intro flow w₁ m₁ hr hm₁
    cases flow with
    | next =>
      have hk := kept.ok .firstOfProgram hr
      rw [List.length_append, ← Nat.add_assoc]
      exact child (.restOfProgram hr) hrest hloop hrole hf.2
        ⟨hs.distances, hseg', hm₁, hs.grounded.kept hk⟩ (hfuel.child (by simp +arith))
    | «break» | «continue» =>
      obtain ⟨x, hx, -⟩ := hm₁
      rw [hloop] at hx
      cases hx
    | «return» =>
      obtain ⟨hx, -⟩ := hm₁
      rw [hrole] at hx
      cases hx

/-! ## Statements -/

/-- The condition of a statement. -/
theorem condition_simulated {v : Value} (hm : m.Mirrors D d a ip (v :: st) w)
    (hi : a.code ip = some ⟨.jumpIfFalse target, span⟩) :
    Simulates o D d V a st k (fun b w' m' => w' = w
        ∧ m'.Mirrors D d a (if b then ip + 1 else target) (v :: st) w) m
      (Walk.condition v span w) :=
  .exec hm hi fun _ h₁ => .condition h₁ target

/-- A value that is not needed any more is popped. -/
theorem pop_tick {v : Value} {span : Option Span} (hm : m.Mirrors D d a ip (v :: st) w)
    (hi : a.code ip = some ⟨.pop, span⟩) :
    ∃ m', m.Ticks o 1 m' ∧ m'.Mirrors D d a (ip + 1) st w :=
  hm.tick hi fun _ h₁ => ⟨_, Exec.execute_pop h₁.stack, h₁.setStack st⟩

theorem jump_tick {span : Option Span} (hm : m.Mirrors D d a ip st w)
    (hi : a.code ip = some ⟨.jump target, span⟩) :
    ∃ m', m.Ticks o 1 m' ∧ m'.Mirrors D d a target st w :=
  hm.tick hi fun _ h₁ => ⟨_, rfl, h₁.jump target⟩

/-- A block, with the scope around it. -/
theorem block_simulated {body : List Item} {Γ : Context}
    (child : CallsSimulated o T D d B n (.statement (.block body span)) w)
    (kept : CallsKept o (.plain D T d) n (.statement (.block body span)) w)
    (hcode : itemsCode c.inScope (ip + 1) body = .ok code)
    (hf : (Item.block body span).Follows (Rules.exact D T d) d role c.innermost.isSome Γ)
    (hs : Stands D d a c role home ip st
      (⟨.enterScope, span⟩ :: (code ++ [⟨.leaveScope 1, span⟩])) w m)
    (hfuel : Enough B (3 * sizeOf (Item.block body span)) k (n + 1)) :
    Simulates o D d (GoesAstray o ⟨n + 1, .statement (.block body span), w⟩) a st k
      (Flowed D d a c role home (ip + (code.length + 2)) st) m
      (Walk.located span (Walk.statement o (n + 1) (.block body span)) w) := by
  obtain ⟨henter, hseg⟩ := hs.segment
  obtain ⟨hbody, hleave, -⟩ := Segment.append.1 hseg
  obtain ⟨m₁, ht, hm₁⟩ := hs.mirrors.tick (o := o)
    (Q := fun m' => m'.Mirrors D d a (ip + 1) st w.inScope) henter
    fun m₁ h₁ => ⟨_, Exec.execute_enterScope, h₁.inScope⟩
  have hsim := child .block hcode hf ⟨hs.distances, hbody, hm₁, hs.grounded.enter⟩
    (hfuel.child (by simp +arith))
  refine .of_ticks ht (.located (.inEnv (P := fun flow w' m' =>
    Flowed D d a c role home (ip + (code.length + 2)) st flow { w' with env := w.env } m')
    (hsim.extend fun flow w' m' hr hf => ?_) fun _ _ _ h => h))
  have hparent := (kept.ok .block hr).parent
  cases flow with
  | next =>
    have hf : m'.Mirrors D d a (ip + 1 + code.length) st w' := hf
    have hticks := hf.tick (o := o)
      (Q := fun m'' => m''.Mirrors D d a (ip + 1 + code.length + 1) st { w' with env := w.env })
      hleave fun m₂ h₂ => by
        refine ⟨_, Exec.execute_leaveScope (a := w.env) ?_, ?_⟩
        · rw [h₂.store, h₂.env, Store.ancestor?_succ, hparent]
          rfl
        · exact { h₂ with coherent := ⟨h₂.coherent.distances, h₂.coherent.chunks⟩, env := rfl }
    rw [show ip + (code.length + 2) = ip + 1 + code.length + 1 by omega]
    exact ⟨1, hticks⟩
  | «break» | «continue» =>
    obtain ⟨x, hx, hleft⟩ := hf
    exact ⟨0, m', .refl m', x, hx, hleft.block hs.grounded.nested hparent⟩
  | «return» v =>
    obtain ⟨hrole, p, span', y, st', hm', hreturn⟩ := hf
    exact ⟨0, m', .refl m', hrole, p, span', y, st', { hm' with }, hreturn⟩

/-- The body of a `repeat`, and the test of its count. -/
theorem repeat_simulated {count : Expr} {body : Item} {counter : List Instr} {Γ : Context}
    (child : CallsSimulated o T D d B n (.statement (.repeat count body span)) w)
    (kept : CallsKept o (.plain D T d) n (.statement (.repeat count body span)) w)
    (hcounter : exprCode d count = .ok counter)
    (hcode : itemCode (c.inLoop (ip + counter.length + 1 + body.size 0 + 3)
      (ip + counter.length + 1 + body.size 0)) (ip + counter.length + 1) body = .ok code)
    (hf : (Item.repeat count body span).Follows (Rules.exact D T d) d role c.innermost.isSome Γ)
    (hs : Stands D d a c role home ip st (counter ++
      (⟨.repeatTest (ip + counter.length + 1 + body.size 0 + 3), count.span⟩ :: code
        ++ [⟨.constant (.number .one), span⟩, ⟨.binary .minus, span⟩,
          ⟨.jump (ip + counter.length), span⟩, ⟨.pop, span⟩])) w m)
    (hfuel : Enough B (3 * sizeOf (Item.repeat count body span)) k (n + 1)) :
    Simulates o D d (GoesAstray o ⟨n + 1, .statement (.repeat count body span), w⟩) a st k
      (Flowed D d a c role home (ip + counter.length + code.length + 5) st) m
      (Walk.located span (Walk.statement o (n + 1) (.repeat count body span)) w) := by
  obtain ⟨hseg, hloop⟩ := Segment.append.1 hs.segment
  refine .bind_located (child .repeatCount hcounter hseg hs.mirrors (hfuel.child (by simp +arith))) ?_
  intro v w₁ m₁ hv hm₁
  have hk := kept.ok .repeatCount hv
  show Simulates o D d _ a st k _ m₁ (Walk.located span
    (Walk.located count.span (Walk.lift (w₁.world.store.rounds v)) >>= fun times =>
      Walk.repeatLoop o n times body) w₁)
  cases hrounds : w₁.world.store.rounds v with
  | error cause =>
    refine .bind_located (P := fun _ _ _ => False) (.exec hm₁ hloop.1 fun m₂ h₂ => ?_) fun _ _ _ _ h => h.elim
    rw [Exec.execute_repeatTest h₂.stack, h₂.store, hrounds]
    exact .fault (h₂.struck (List.suffix_cons v st))
  | ok times =>
    by_cases hlarge : times ≤ 2 ^ 53
    · exact .located (child (.repeat hv hrounds) hcode hf.2.2
        ⟨hs.distances, hloop, hm₁, hs.grounded.kept hk⟩ hrounds hlarge (hfuel.child (by simp +arith)))
    · have hlarge : 2 ^ 53 < times := Nat.lt_of_not_le hlarge
      exact .astray ⟨_, .refl, .repeat hv hrounds hlarge⟩ (.refl m₁)
        (.repeat hm₁.frames hloop.1 hm₁.stack (by rw [hm₁.store]; exact hrounds) hlarge)

/-! ## Awaited faults -/

/-- A fault that comes out of `act` goes to the handler, and it is a fault if none comes. -/
theorem attempt_simulated {m₀ : Machine} {act : Walk Bool} {span' : Span} {catchAt p q : Nat}
    (h₀ : m₀.Mirrors D d a q st w)
    (hact : Simulates o D d V (a.awaiting (m₀.handlerFor message span catchAt)) st k
      (fun b w' m' => ∃ v, m'.Mirrors D d (a.awaiting (m₀.handlerFor message span catchAt)) p
        (v :: st) w' ∧ w'.world.store.truth v = .ok b) m (act w))
    (hend : a.code p = some ⟨.failureEnd, span'⟩)
    (hkept : ∀ f w', act w = .error (.fault f) w' → w.Kept (.plain D T d) w') :
    Simulates o D d V a st k (Flowed D d a c role home catchAt st) m
      (Walk.located span (Walk.attempt act >>= Walk.checkFailure message) w) := by
  unfold Walk.located
  rw [Walk.attempt_bind]
  generalize hr : act w = r at hact
  cases hact with
  | astray hv ht hstrays => exact .astray hv ht hstrays
  | outOfFuel hl => exact .outOfFuel hl
  | @ok b w' j m' ht hp =>
    obtain ⟨v, hm', htruth⟩ := hp
    have hready := hm'.ready (o := o)
    have hx : Exec.execute o ⟨.failureEnd, span'⟩ _ = _ :=
      Exec.execute_failureEnd hready.stack hready.handlers
    rw [hready.store, htruth] at hx
    have hstep := Machine.step_of_fault hm'.frames hend hx
    refine .of_ticks ht (.fault rfl (.refl m') ⟨_, _, _, hm'.frames, hend⟩ hstep ?_)
    -- the handler is gone
    have hm : Machine.Shadows D d a (p + 1) st w' { m'.ready o { a.frame with ip := p } a.frames with
        stack := st, handlers := a.handlers } :=
      { hready with
        stack := rfl
        handlers := rfl
        coherent := ⟨hready.coherent.distances, hready.coherent.chunks⟩
        calls := ⟨hready.calls.length, hready.calls.texts⟩ }
    exact hm.struck (List.suffix_refl st)
  | @fault f w' j m₁ m₂ hf ht ha hstep hstruck =>
    obtain ⟨ip', hm⟩ := hstruck.unwindTo h₀ (hkept f w' hr)
    dsimp only
    by_cases hawaited : f.Awaited message
    · rw [Walk.checkFailure_awaited hawaited]
      refine .ok (ht.trans (.single ⟨ha, ?_⟩)) (hm.jump catchAt)
      rw [hstep]
      exact Machine.raise_awaited hstruck.handlers hawaited
    · rw [Walk.checkFailure_other hawaited]
      refine .fault rfl ht ha ?_ (hm.struck (List.suffix_refl st))
      rw [hstep]
      exact Machine.raise_other hstruck.handlers hawaited

/-- The handler is there while the expression is evaluated. -/
theorem assertFails_simulated {e : Expr}
    (child : CallsSimulated o T D d B n (.statement (.assertFails e message span)) w)
    (kept : CallsKept o (.plain D T d) n (.statement (.assertFails e message span)) w)
    (hcode : exprCode d e = .ok code)
    (hs : Stands D d a c role home ip st (⟨.failureBegin message (ip + code.length + 2), span⟩
      :: (code ++ [⟨.failureEnd, e.span⟩])) w m)
    (hfuel : Enough B (3 * sizeOf (Item.assertFails e message span)) k (n + 1)) :
    Simulates o D d (GoesAstray o ⟨n + 1, .statement (.assertFails e message span), w⟩) a st k
      (Flowed D d a c role home (ip + code.length + 2) st) m
      (Walk.located span (Walk.statement o (n + 1) (.assertFails e message span)) w) := by
  obtain ⟨hbegin, hseg⟩ := hs.segment
  obtain ⟨hexpr, hend, -⟩ := Segment.append.1 hseg
  have hready := hs.mirrors.ready (o := o)
  refine .of_ticks (.single (Machine.tick_of_execute hs.mirrors.frames hbegin
    Exec.execute_failureBegin)) (attempt_simulated (T := T) hready
      (.bind (f := fun v => Walk.condition v e.span) (child .assertFails hcode
        (a := a.awaiting _) hexpr (hready.await _) (hfuel.child (by simp +arith))) ?_) hend ?_)
  · -- the check of the value fails, or no fault has come
    intro v w' m' _ hm'
    cases htruth : w'.world.store.truth v with
    | ok b =>
      rw [Walk.condition_apply, htruth]
      exact .ok (.refl m') ⟨v, hm', htruth⟩
    | error cause =>
      show Simulates _ _ _ _ _ _ _ _ _ (Walk.located e.span (Walk.lift (w'.world.store.truth v)) w')
      refine .exec hm' hend fun m₁ h₁ => ?_
      rw [Exec.execute_failureEnd h₁.stack h₁.handlers, h₁.store, htruth]
      exact .fault ((h₁.setStack st).struck (List.suffix_refl st))
  · intro f w' hr
    rw [bind_apply] at hr
    cases hx : Walk.expr o n e w with
    | error i w₁ =>
      rw [hx] at hr
      cases hr
      exact kept.error .assertFails hx
    | ok v w₁ =>
      rw [hx] at hr
      have hr : Walk.condition v e.span w₁ = .error (.fault f) w' := hr
      rw [Walk.condition_apply] at hr
      split at hr
      · exact nomatch hr
      · cases hr
        exact kept.ok .assertFails hx

/-- The machine simulates a statement if it simulates its parts. -/
theorem statement_simulated {i : Item} (child : CallsSimulated o T D d B n (.statement i) w)
    (kept : CallsKept o (.plain D T d) n (.statement i) w) :
    Task.Simulated o T D d B (GoesAstray o ⟨n + 1, .statement i, w⟩) (n + 1) w (.statement i) := by
  intro a c role home ip st code k m Γ hcode hf hs hfuel
  cases i with
  | expr e span =>
    simp only [itemCode, except_bind_eq_ok, Except.ok.injEq, hs.distances] at hcode
    obtain ⟨es, hes, rfl⟩ := hcode
    obtain ⟨hseg, hpop, -⟩ := Segment.append.1 hs.segment
    refine .bind_located (child .exprItem hes hseg hs.mirrors (hfuel.child (by simp +arith))) ?_
    intro v w₁ m₁ _ hm₁
    obtain ⟨m₂, ht, hm₂⟩ := pop_tick (o := o) hm₁ hpop
    rw [List.length_append]
    exact .ok ht hm₂
  | var name init span =>
    simp only [itemCode, except_bind_eq_ok, Except.ok.injEq, hs.distances] at hcode
    obtain ⟨es, hes, rfl⟩ := hcode
    obtain ⟨hseg, hdeclare, -⟩ := Segment.append.1 hs.segment
    rw [List.length_append]
    cases init with
    | none =>
      cases hes
      obtain ⟨m₁, ht, hm₁⟩ := hs.mirrors.tick (o := o) hseg.1 fun m' h' => ⟨_, rfl, h'.push .nil⟩
      exact .of_ticks ht (.exec hm₁ hdeclare fun m₂ h₂ => (Matches.declareVar h₂ name).flowed)
    | some e =>
      refine .bind_located (child .var hes hseg hs.mirrors (hfuel.child (by simp +arith))) ?_
      intro v w₁ m₁ _ hm₁
      exact .exec hm₁ hdeclare fun m₂ h₂ => (Matches.declareVar h₂ name).flowed
  | block body span =>
    simp only [itemCode, except_bind_eq_ok, Except.ok.injEq] at hcode
    obtain ⟨es, hes, rfl⟩ := hcode
    rw [List.length_cons, List.length_append]
    exact block_simulated child kept hes hf hs hfuel
  | ifThen test thenItem span =>
    simp only [itemCode, except_bind_eq_ok, Except.ok.injEq, hs.distances] at hcode
    obtain ⟨ts, hts, is, his, rfl⟩ := hcode
    obtain ⟨hseg, hjump, hpop', -⟩ := Segment.append.1 hs.segment
    obtain ⟨hseg, hthen⟩ := Segment.append.1 hseg
    obtain ⟨htest, hcondition, hpop, -⟩ := Segment.append.1 hseg
    simp only [List.length_append, List.length_cons, List.length_nil, ← Nat.add_assoc] at hjump hpop' hthen ⊢
    refine .bind_located (child .ifThenTest hts htest hs.mirrors (hfuel.child (by simp +arith))) ?_
    intro v w₁ m₁ hv hm₁
    refine .bind_located (condition_simulated hm₁ hcondition) ?_
    rintro b w₁ m₂ hb ⟨rfl, hm₂⟩
    -- the value of the test is popped on both ways
    cases b with
    | true =>
      obtain ⟨m₃, ht, hm₃⟩ := pop_tick (o := o) hm₂ hpop
      have hk := kept.ok .ifThenTest hv
      refine .of_ticks ht (.located (.flow (child (.ifThen hv (Walk.condition_eq_ok hb)) his hf.2.2
        ⟨hs.distances, hthen, hm₃, hs.grounded.kept hk⟩ (hfuel.child (by simp +arith))) ?_))
      intro w' m' hm'
      exact ⟨1, jump_tick hm' hjump⟩
    | false =>
      obtain ⟨m₃, ht, hm₃⟩ := pop_tick (o := o) hm₂ hpop'
      exact .ok ht hm₃
  | ifElse test thenItem elseItem span =>
    simp only [itemCode, except_bind_eq_ok, Except.ok.injEq, hs.distances] at hcode
    obtain ⟨ts, hts, is, his, es, hes, rfl⟩ := hcode
    obtain ⟨hseg, helse⟩ := Segment.append.1 hs.segment
    obtain ⟨hseg, hjump, hpop', -⟩ := Segment.append.1 hseg
    obtain ⟨hseg, hthen⟩ := Segment.append.1 hseg
    obtain ⟨htest, hcondition, hpop, -⟩ := Segment.append.1 hseg
    simp only [List.length_append, List.length_cons, List.length_nil, ← Nat.add_assoc] at hjump hpop' hthen helse ⊢
    refine .bind_located (child .ifElseTest hts htest hs.mirrors (hfuel.child (by simp +arith))) ?_
    intro v w₁ m₁ hv hm₁
    refine .bind_located (condition_simulated hm₁ hcondition) ?_
    rintro b w₁ m₂ hb ⟨rfl, hm₂⟩
    have hk := kept.ok .ifElseTest hv
    cases b with
    | true =>
      obtain ⟨m₃, ht, hm₃⟩ := pop_tick (o := o) hm₂ hpop
      refine .of_ticks ht (.located (.flow (child (.ifElseThen hv (Walk.condition_eq_ok hb)) his
        hf.2.1.2 ⟨hs.distances, hthen, hm₃, hs.grounded.kept hk⟩ (hfuel.child (by simp +arith))) ?_))
      intro w' m' hm'
      exact ⟨1, jump_tick hm' hjump⟩
    | false =>
      obtain ⟨m₃, ht, hm₃⟩ := pop_tick (o := o) hm₂ hpop'
      exact .of_ticks ht (.located (child (.ifElseElse hv (Walk.condition_eq_ok hb)) hes hf.2.2.2
        ⟨hs.distances, helse, hm₃, hs.grounded.kept hk⟩ (hfuel.child (by simp +arith))))
  | «while» test body increment span =>
    exact .located (child .while hcode hf hs (hfuel.child (by simp +arith)))
  | «repeat» count body span =>
    simp only [itemCode, except_bind_eq_ok, Except.ok.injEq, hs.distances] at hcode
    obtain ⟨counter, hcounter, bs, hbs, rfl⟩ := hcode
    rw [List.append_assoc, List.append_assoc] at hs
    have hlength : ∀ test one minus jump pop : Instr,
        ip + (counter ++ [test] ++ bs ++ [one, minus, jump, pop]).length
          = ip + counter.length + bs.length + 5 := by
      intros
      simp +arith
    rw [hlength]
    exact repeat_simulated child kept hcounter hbs hf hs hfuel
  | «return» value span =>
    have hrole := hf.1.isSome
    cases value with
    | none =>
      cases hcode
      obtain ⟨y, m₁, ht, hm₁, hreturn, hother, hthis⟩ :=
        bareReturn_tick (o := o) hs.mirrors hs.grounded hs.segment
      exact .ok ht ⟨hrole, _, span, y, st, hm₁.toShadows, hreturn, List.suffix_refl st, hother, hthis⟩
    | some e =>
      simp only [itemCode, except_bind_eq_ok, Except.ok.injEq, hs.distances] at hcode
      obtain ⟨es, hes, rfl⟩ := hcode
      obtain ⟨hseg, hreturn, -⟩ := Segment.append.1 hs.segment
      refine .bind_located (child .return hes hseg hs.mirrors (hfuel.child (by simp +arith))) ?_
      intro v w₁ m₁ _ hm₁
      refine .ok (.refl m₁) ⟨hrole, _, span, v, st, hm₁.toShadows, hreturn, List.suffix_refl st,
        fun _ => rfl, fun hi => ?_⟩
      -- an initialiser does not return a value
      rw [hs.grounded.role hi] at hf
      cases hf.1
  | «break» span | «continue» span =>
    obtain ⟨x, hx⟩ := Option.isSome_iff_exists.1 hf
    cases hcode
    have hs' := hs
    rw [hx] at hs'
    obtain ⟨j, m', ht, hleft⟩ := leave_ticks (o := o) hs'
    exact .ok ht ⟨x, hx, hleft⟩
  | assert test message span =>
    simp only [itemCode, except_bind_eq_ok, Except.ok.injEq, hs.distances] at hcode
    obtain ⟨ts, hts, rfl⟩ := hcode
    obtain ⟨hseg, hassert, -⟩ := Segment.append.1 hs.segment
    refine .bind_located (child .assert hts hseg hs.mirrors (hfuel.child (by simp +arith))) ?_
    intro v w₁ m₁ _ hm₁
    rw [List.length_append]
    exact .exec hm₁ hassert fun m₂ h₂ => (Matches.assert h₂ message).flowed
  | assertFails e message span =>
    simp only [itemCode, except_bind_eq_ok, Except.ok.injEq, hs.distances] at hcode
    obtain ⟨es, hes, rfl⟩ := hcode
    rw [List.length_cons, List.length_append]
    exact assertFails_simulated child kept hes hs hfuel
  | function decl span =>
    cases hcode
    exact .exec hs.mirrors hs.segment.1 fun m₁ h₁ => (Matches.function h₁ decl).flowed
  | «class» name parent methods span =>
    cases hcode
    obtain ⟨hseg, hclass, -⟩ := Segment.append.1 hs.segment
    rw [List.length_append]
    cases parent with
    | none =>
      obtain ⟨m₁, ht, hm₁⟩ := hs.mirrors.tick (o := o) hseg.1
        fun m' h' => ⟨_, rfl, h'.push (.bool false)⟩
      exact .of_ticks ht (.exec hm₁ hclass fun m₂ h₂ =>
        (Matches.declareClass none name methods h₂).flowed)
    | some ident =>
      obtain ⟨hlookup, hflag, -⟩ := hseg
      rw [hs.distances] at hlookup
      -- the superclass is looked up in a step of its own
      have hwalk : Walk.statement o (n + 1) (.class name (some ident) methods span) w
          = (Walk.lookup ident >>= fun v => do
              let w ← get
              Walk.onStore (Store.declareClass w.env name (some v) methods)
              return Flow.next : Walk Flow) w := by
        rw [bind_apply, Walk.statement, bind_apply, map_apply]
        cases Walk.lookup ident w <;> rfl
      rw [Walk.located_congr hwalk, Walk.located_bind]
      refine .bind (.exec hs.mirrors hlookup fun m₁ h₁ => .lookup h₁ ident) ?_
      intro v w₁ m₁ _ hm₁
      obtain ⟨m₂, ht, hm₂⟩ := hm₁.tick (o := o) hflag fun m' h' => ⟨_, rfl, h'.push (.bool true)⟩
      exact .of_ticks ht (.exec hm₂ hclass fun m₂ h₂ =>
        (Matches.declareClass (some v) name methods h₂).flowed)

end Visit

end Eleu
