import Eleu.Proofs.Agreement.Simulation

/-! # Expressions and calls on both executors

    The code of an expression pushes the value that the walker gives, and a call of the walker is an
    activation of the machine. Each task is simulated if the tasks that it calls are. -/

namespace Eleu

variable {span : Span} {args st : List Value} {a : Activation} {m : Machine} {c : Closure}

open Outcome

/-- The setting of a resolved program in which it does not matter what has come about. -/
abbrev Setting.plain (D : List FunctionDecl) (T : List Reference) (d : Distances) : Setting :=
  .exact D T d .all

/-- The calls of a visit are simulated. -/
def Visit.CallsSimulated (o : Options) (T : List Reference) (D : List FunctionDecl) (d : Distances)
    (B n : Nat) (t : Task) (w : Walker) : Prop :=
  ∀ ⦃t' : Task⦄ ⦃w' : Walker⦄, Visit.Calls o ⟨n + 1, t, w⟩ ⟨n, t', w'⟩ →
    t'.Simulated o T D d B (Visit.GoesAstray o ⟨n + 1, t, w⟩) n w'

/-- The calls of a visit keep the state, however they end. -/
def Visit.CallsKept (o : Options) (S : Setting) (n : Nat) (t : Task) (w : Walker) : Prop :=
  ∀ ⦃t' : Task⦄ ⦃w' : Walker⦄, Visit.Calls o ⟨n + 1, t, w⟩ ⟨n, t', w'⟩ →
    Ends (t'.run o n w') (fun _ w'' => w'.Kept S w'') fun _ w'' => w'.Kept S w''

namespace Visit.CallsKept

variable {o : Options} {S : Setting} {n : Nat} {t t' : Task} {w w' w'' : Walker}

/-- A call that has a result keeps what is to be kept. -/
theorem ok (h : CallsKept o S n t w) (hc : Visit.Calls o ⟨n + 1, t, w⟩ ⟨n, t', w'⟩) {r : t'.Result}
    (hr : t'.run o n w' = .ok r w'') : w'.Kept S w'' := by
  have hk := h hc
  rw [hr] at hk
  exact hk

/-- So does one that fails. -/
theorem error (h : CallsKept o S n t w) (hc : Visit.Calls o ⟨n + 1, t, w⟩ ⟨n, t', w'⟩)
    {i : Interrupt} (hr : t'.run o n w' = .error i w'') : w'.Kept S w'' := by
  have hk := h hc
  rw [hr] at hk
  exact hk

end Visit.CallsKept

/-- A fault gets its place in the first part already, if it arises there. -/
theorem Walk.located_bind {α β : Type} {w : Walker} (span : Span) (x : Walk α) (f : α → Walk β) :
    Walk.located span (x >>= f) w = (Walk.located span x >>= fun y => Walk.located span (f y)) w := by
  rw [bind_apply]
  unfold Walk.located
  rw [bind_apply]
  cases x w with
  | ok y w' => rfl
  | error i w' => cases i <;> rfl

theorem Walk.located_congr {α : Type} {w w' : Walker} {x x' : Walk α} (h : x w = x' w') :
    Walk.located span x w = Walk.located span x' w' := by
  unfold Walk.located
  rw [h]

theorem Walk.located_eq_ok {α : Type} {w w' : Walker} {x : Walk α} {y : α}
    (h : Walk.located span x w = .ok y w') : x w = .ok y w' := by
  unfold Walk.located at h
  split at h
  · exact nomatch h
  · exact h

variable {o : Options} {T : List Reference} {D : List FunctionDecl} {d : Distances} {B n : Nat}
  {w : Walker}

namespace Visit

/-! ## Expressions -/

/-- An operand, and the instruction that takes it. -/
theorem operand_simulated {V : Prop} {e : Expr} {ip k : Nat} {op : Op} {code : List Instr}
    {act : Value → Walk Value} (he : Task.Simulated o T D d B V n w (.expr e))
    (hcode : (exprCode d e >>= fun es => .ok (es ++ [⟨op, span⟩])) = .ok code)
    (hseg : Segment a.code ip code) (hm : m.Mirrors D d a ip st w) (hfuel : Enough B (3 * sizeOf e) k n)
    (hx : ∀ {ip v w m}, m.Mirrors D d a ip (v :: st) w →
      Pushes D d a ip st (act v w) (Exec.execute o ⟨op, span⟩ m)) :
    Simulates o D d V a st k (fun v w' m' => m'.Mirrors D d a (ip + code.length) (v :: st) w') m
      (Walk.located span (Walk.expr o n e >>= act) w) := by
  obtain ⟨es, hes, hcode⟩ := except_bind_eq_ok.1 hcode
  cases hcode
  obtain ⟨hseg, hi, -⟩ := Segment.append.1 hseg
  refine .bind_located (he hes hseg hm hfuel) ?_
  intro v w₁ m₁ _ hm₁
  rw [List.length_append]
  exact .exec hm₁ hi fun m₂ h₂ => hx h₂

/-- Two operands, and the instruction that takes them. -/
theorem operands_simulated {V : Prop} {l r : Expr} {ip k : Nat} {op : Op} {code : List Instr}
    {act : Value → Value → Walk Value} (hl : Task.Simulated o T D d B V n w (.expr l))
    (hr : ∀ {x w'}, Walk.expr o n l w = .ok x w' → Task.Simulated o T D d B V n w' (.expr r))
    (hcode : (exprCode d l >>= fun ls => exprCode d r >>= fun rs => .ok (ls ++ rs ++ [⟨op, span⟩]))
      = .ok code)
    (hseg : Segment a.code ip code) (hm : m.Mirrors D d a ip st w)
    (hfuel : Enough B (3 * sizeOf l) k n ∧ Enough B (3 * sizeOf r) k n)
    (hx : ∀ {ip x y w m}, m.Mirrors D d a ip (y :: x :: st) w →
      Pushes D d a ip st (act x y w) (Exec.execute o ⟨op, span⟩ m)) :
    Simulates o D d V a st k (fun v w' m' => m'.Mirrors D d a (ip + code.length) (v :: st) w') m
      (Walk.located span (do
        let x ← Walk.expr o n l
        let y ← Walk.expr o n r
        act x y) w) := by
  obtain ⟨ls, hls, hcode⟩ := except_bind_eq_ok.1 hcode
  obtain ⟨rs, hrs, hcode⟩ := except_bind_eq_ok.1 hcode
  cases hcode
  obtain ⟨hseg, hi, -⟩ := Segment.append.1 hseg
  obtain ⟨hleft, hright⟩ := Segment.append.1 hseg
  refine .bind_located (hl hls hleft hm hfuel.1) ?_
  intro x w₁ m₁ hw₁ hm₁
  -- the first value lies below while the second is computed
  refine .bind_located ((hr hw₁ hrs hright hm₁ hfuel.2).of_suffix (List.suffix_cons x st)) ?_
  intro y w₂ m₂ _ hm₂
  simp only [List.length_append, ← Nat.add_assoc] at hi ⊢
  exact .exec hm₂ hi fun m₃ h₃ => hx h₃

/-- The machine simulates an expression if it simulates its parts. -/
theorem expr_simulated {e : Expr} (child : CallsSimulated o T D d B n (.expr e) w) :
    Task.Simulated o T D d B (GoesAstray o ⟨n + 1, .expr e, w⟩) (n + 1) w (.expr e) := by
  intro a ip st code k m hcode hseg hm hfuel
  unfold Walk.expr
  cases e with
  | literal value span =>
    simp only [exprCode] at hcode
    split at hcode
    · next v hv =>
        cases hcode
        refine .exec hm hseg.1 fun m₁ h₁ => ?_
        show Matches _ _ (Walk.lift (Value.ofLiteral value) w) _
        rw [hv]
        exact .ok (h₁.push v)
    · cases hcode
  | list elements span =>
    simp only [exprCode, except_bind_eq_ok, Except.ok.injEq] at hcode
    obtain ⟨es, hes, rfl⟩ := hcode
    obtain ⟨hseg, hmake, hcall, -⟩ := Segment.append.1 hseg
    refine .bind_located (child .list hes hseg hm (hfuel.child (by simp +arith))) ?_
    rintro vs w₁ m₁ - ⟨hlen, hm₁⟩
    obtain ⟨m₂, ht, hm₂⟩ := hm₁.tick (o := o) hmake fun m' h' => ⟨_, rfl, h'.push _⟩
    rw [List.length_append]
    refine .of_ticks ht (.exec hm₂ hcall fun m₃ h₃ => ?_)
    rw [← hlen, Exec.execute_call_args h₃.stack]
    exact .makeList (h₃.setStack st) vs
  | name ident span | this ident span =>
    cases hcode
    exact .exec hm hseg.1 fun m₁ h₁ => .lookup h₁ ident
  | assign target value span =>
    exact operand_simulated (child .assign) hcode hseg hm (hfuel.child (by simp +arith))
      fun h => (Matches.assign h target).map fun _ _ _ h => h
  | unary op operand span =>
    exact operand_simulated (child .unary) hcode hseg hm (hfuel.child (by simp +arith))
      fun h => .unary h op
  | binary left op right span =>
    exact operands_simulated (child .binaryLeft) (fun h => child (.binaryRight h)) hcode hseg hm
      ⟨hfuel.child (by simp +arith), hfuel.child (by simp +arith)⟩ fun h => .binary h op
  | logical left op right span =>
    exact operands_simulated (child .logicalLeft) (fun h => child (.logicalRight h)) hcode hseg hm
      ⟨hfuel.child (by simp +arith), hfuel.child (by simp +arith)⟩ fun h => .logical h op
  | group inner span => exact .located (child .group hcode hseg hm (hfuel.child (by simp +arith)))
  | call callee args span =>
    simp only [exprCode, except_bind_eq_ok, Except.ok.injEq] at hcode
    obtain ⟨as, has, fs, hfs, rfl⟩ := hcode
    obtain ⟨hseg, hi, -⟩ := Segment.append.1 hseg
    obtain ⟨hargs, hcallee⟩ := Segment.append.1 hseg
    refine .bind_located (child .args has hargs hm (hfuel.child (by simp +arith))) ?_
    rintro vs w₁ m₁ hvs ⟨hlen, hm₁⟩
    refine .bind_located ((child (.callee hvs) hfs hcallee hm₁
      (hfuel.child (by simp +arith))).of_suffix (List.suffix_append _ st)) ?_
    intro f w₂ m₂ hf hm₂
    simp only [List.length_append, ← Nat.add_assoc, ← hlen] at hi ⊢
    exact child (.call hvs hf) hi hm₂ (hfuel.child (by simp +arith))
  | getField object field span =>
    exact operand_simulated (child .getField) hcode hseg hm (hfuel.child (by simp +arith))
      fun h => .member h field
  | setField object field value span =>
    simp only [exprCode, except_bind_eq_ok, Except.ok.injEq] at hcode
    obtain ⟨os, hos, vs, hvs, rfl⟩ := hcode
    have hrest := hseg
    rw [List.append_assoc] at hrest
    obtain ⟨-, hrest⟩ := Segment.append.1 hrest
    obtain ⟨hseg, hi, -⟩ := Segment.append.1 hseg
    obtain ⟨hobject, hvalue⟩ := Segment.append.1 hseg
    refine .bind_located (child .setFieldObject hos hobject hm (hfuel.child (by simp +arith))) ?_
    intro x w₁ m₁ hx hm₁
    by_cases hobj : ∃ r, x = .object r
    · obtain ⟨r, rfl⟩ := hobj
      show Simulates _ _ _ _ _ _ _ _ _ (Walk.located span (do
        let v ← Walk.expr o n value
        Walk.modifyStore (·.setField r field v)
        return v) w₁)
      refine .bind_located ((child (.setFieldValue hx) hvs hvalue hm₁
        (hfuel.child (by simp +arith))).of_suffix (List.suffix_cons _ st)) ?_
      intro v w₂ m₂ _ hm₂
      simp only [List.length_append, ← Nat.add_assoc] at hi ⊢
      exact .exec hm₂ hi fun m₃ h₃ => .setField h₃ field
    · -- the walker looks at the object now, and the machine evaluates the value first
      have hother : ∀ r, x ≠ .object r := fun r hr => hobj ⟨r, hr⟩
      have hcompiled : exprCode m₁.distances value = .ok vs := by
        rw [hm₁.coherent.distances]
        exact hvs
      exact .astray ⟨_, .refl, .setField hx hother⟩ (.refl m₁)
        (.setField hm₁.frames hcompiled hrest hm₁.stack hother)
  | super ident method span =>
    simp only [exprCode] at hcode
    split at hcode
    · next depth hdepth =>
        cases hcode
        exact .exec hm hseg.1 fun m₁ h₁ => .superMethod h₁ hdepth method
    · cases hcode

/-- Arguments and elements, one after the other. -/
theorem exprs_simulated {es : List Expr} (child : CallsSimulated o T D d B n (.exprs es) w) :
    Task.Simulated o T D d B (GoesAstray o ⟨n + 1, .exprs es, w⟩) (n + 1) w (.exprs es) := by
  intro a ip st code k m hcode hseg hm hfuel
  cases es with
  | nil =>
    cases hcode
    exact .ok (.refl m) ⟨rfl, hm⟩
  | cons e es =>
    simp only [exprsCode, except_bind_eq_ok, Except.ok.injEq] at hcode
    obtain ⟨cs, hcs, rs, hrs, rfl⟩ := hcode
    obtain ⟨hfirst, hrest⟩ := Segment.append.1 hseg
    rw [Walk.exprs]
    refine .bind (child .first hcs hfirst hm (hfuel.child (by simp +arith))) ?_
    intro v w₁ m₁ hv hm₁
    refine .bind ((child (.rest hv) hrs hrest hm₁
      (hfuel.child (by simp +arith))).of_suffix (List.suffix_cons v st)) ?_
    rintro vs w₂ m₂ - ⟨hlen, hm₂⟩
    refine .ok (.refl m₂) ⟨by rw [List.length_cons, List.length_cons, hlen], ?_⟩
    rw [List.length_append, ← Nat.add_assoc, List.reverse_cons, List.append_assoc]
    exact hm₂

/-! ## Calls -/

/-- A value that is no function is called, or with the wrong number of arguments. -/
theorem call_refused {ip k : Nat} {V : Prop} {P : Value → Walker → Machine → Prop} {callee : Value}
    {c : Cause} (hi : a.code ip = some ⟨.call args.length, span⟩)
    (hm : m.Mirrors D d a ip (callee :: (args.reverse ++ st)) w)
    (hwalk : Walk.call o (n + 1) callee args span w = .error (.fault { cause := c }) w)
    (hexec : ∀ m₁ : Machine, m₁.world.store = w.world.store →
      Exec.call o callee args span m₁ = .error { cause := c } m₁) :
    Simulates o D d V a st k P m (Walk.located span (Walk.call o (n + 1) callee args span) w) := by
  refine .exec hm hi fun m₁ h₁ => ?_
  have hx := hexec { m₁ with stack := st } h₁.store
  rw [Exec.execute_call_args h₁.stack, hwalk, hx]
  exact .fault ((h₁.setStack st).struck (List.suffix_refl st))

/-- The scope of a method that is bound to an instance. -/
theorem bind_this (s : Store) (c : Closure) (i : InstanceRef) :
    (s.bind c i).2.local? (s.bind c i).1.env "this" = some (.object i)
      ∧ ((s.bind c i).2.env (s.bind c i).1.env).parent = some c.env := by
  rw [show (s.bind c i).2 = (s.newEnv (some c.env)).2.define s.envs.size "this" (.object i) from rfl,
    show (s.bind c i).1.env = s.envs.size from rfl, Store.local?_define, Store.parent_define,
    Store.env_newEnv, if_pos ⟨rfl, by simp, rfl⟩, if_pos rfl]
  exact ⟨rfl, rfl⟩

/-- A class makes an instance, and its initialiser gives that instance back. -/
theorem class_simulated {q : ClassRef} {ip k : Nat}
    (child : CallsSimulated o T D d B n (.call (.callable (.classRef q)) args span) w)
    (kept : CallsKept o (.plain D T d) n (.call (.callable (.classRef q)) args span) w)
    (ha : w.world.store.checkArity (.classRef q) args.length = .ok ())
    (hi : a.code ip = some ⟨.call args.length, span⟩)
    (hm : m.Mirrors D d a ip (.callable (.classRef q) :: (args.reverse ++ st)) w)
    (hfuel : Enough B 2 k (n + 1)) :
    Simulates o D d (GoesAstray o ⟨n + 1, .call (.callable (.classRef q)) args span, w⟩) a st k
      (fun v w' m' => m'.Mirrors D d a (ip + 1) (v :: st) w') m
      (Walk.located span (Walk.call o (n + 1) (.callable (.classRef q)) args span) w) := by
  have hready := hm.ready (o := o)
  have hcall : Exec.execute o ⟨.call args.length, span⟩ (m.ready o { a.frame with ip } a.frames)
      = Exec.call o (.callable (.classRef q)) args span
          { m.ready o { a.frame with ip } a.frames with stack := st } :=
    Exec.execute_call_args hready.stack
  rw [Exec.call_class, hready.store, ha] at hcall
  cases hinit : (w.world.store.newInstance q).2.findMethod? q "init" with
  | none =>
    refine .execute hm.frames hi ?_
    dsimp only at hcall
    rw [hinit] at hcall
    rw [Walk.call_class ha hinit, hcall]
    exact .ok ((hready.setStack _).inStore rfl)
  | some init =>
    dsimp only at hcall
    rw [hinit] at hcall
    have hwalk : Walk.located span (Walk.call o (n + 1) (.callable (.classRef q)) args span) w
        = (Walk.located span (Walk.closure o n (w.bound q init).1 args span) >>= fun _ =>
            Walk.located span (pure (.object w.world.store.instances.size)))
          (w.setStore (w.bound q init).2) := by
      rw [← Walk.located_bind]
      exact Walk.located_congr (Walk.call_init ha hinit)
    rw [hwalk]
    refine .bind (child (.init ha hinit) hm.frames hi hcall
      ((hready.setStack st).inStore rfl) (hfuel.child (by omega))) ?_
    rintro v w' m' hv ⟨hm', hthis⟩
    -- the instance is still what the scope of the initialiser has
    have hgrows := (kept.ok (.init ha hinit) (Walk.located_eq_ok hv)).grows
    obtain ⟨hlocal, hparent⟩ := bind_this (w.world.store.newInstance q).2 init
      w.world.store.instances.size
    have hlocal' : w'.world.store.local? (w.bound q init).1.env "this"
        = some (.object w.world.store.instances.size) :=
      (hgrows.fixed hparent "this" (.inl rfl)).trans hlocal
    have hisInit : init.isInit = true :=
      (hm.named.of_classes (t := (w.world.store.newInstance q).2) rfl).findMethod? hinit
    have hget := (Store.getAt_of_local rfl hlocal').symm.trans (hthis hisInit)
    rw [← Except.ok.inj hget] at hm'
    exact .ok (.refl m') hm'

/-- A call of a value, by what the value is. -/
theorem call_simulated (ho : o.TameHost) (hb : o.BlindHost) {callee : Value}
    (child : CallsSimulated o T D d B n (.call callee args span) w)
    (kept : CallsKept o (.plain D T d) n (.call callee args span) w) :
    Task.Simulated o T D d B (GoesAstray o ⟨n + 1, .call callee args span, w⟩) (n + 1) w
      (.call callee args span) := by
  intro a ip st k m hi hm hfuel
  by_cases hcallable : ∃ c, callee = .callable c
  · obtain ⟨c, rfl⟩ := hcallable
    cases ha : w.world.store.checkArity c args.length with
    | error cause =>
      refine call_refused hi hm (Walk.call_error ha) fun m₁ hs => ?_
      cases c with
      | native f => exact nomatch ha
      | closure c => rw [Exec.call_closure, hs, ha]
      | classRef q => rw [Exec.call_class, hs, ha]
    | ok u =>
      cases c with
      | native f =>
        refine .exec hm hi fun m₁ h₁ => ?_
        rw [Exec.execute_call_args h₁.stack]
        exact .native ho hb (h₁.setStack st) f args
      | closure c =>
        have hready := hm.ready (o := o)
        have hcall : Exec.execute o ⟨.call args.length, span⟩
              (m.ready o { a.frame with ip } a.frames)
            = Exec.enter o c args span
              { m.ready o { a.frame with ip } a.frames with stack := st } := by
          rw [Exec.execute_call_args hready.stack, Exec.call_closure, hready.store, ha]
        rw [Walk.located_congr (Walk.call_closure ha)]
        exact (child (.closure ha) hm.frames hi hcall (hready.setStack st)
          (hfuel.child (by omega))).mono id fun _ _ _ h => h.1
      | classRef q => exact class_simulated child kept ha hi hm hfuel
  · have hother : ∀ c, callee ≠ .callable c := fun c hc => hcallable ⟨c, hc⟩
    exact call_refused hi hm (Walk.call_other hother) fun m₁ hs => by rw [Exec.call_other hother, hs]

/-! ## Bodies -/

/-- The body of a function that closes over the context of its declaration. -/
theorem grounded_body {s : Store} {Γ : Context}
    (hknown : (Setting.plain D T d).rules.known c.decl Γ)
    (hchain : Chain (Setting.plain D T d).history s c.env Γ) (args : List Value) :
    Grounded { distances := d, initialiser := c.decl.isInitialiser } (some c.decl.role) c.env
      (s.callStore c args) s.envs.size where
  nested := by rintro _ ⟨⟩
  inside := ⟨_, rfl⟩
  role := fun hi => congrArg some ((Setting.isInitialiser_iff c.decl).1 hi)
  this := by
    intro hi
    have hparent := s.parent_callStore c args
    -- the instance is in the scope right around the parameters
    obtain ⟨scope, hscope, hmem⟩ := Context.mem_of_distance (Setting.exact_returns hknown hi)
    cases Γ with
    | nil => cases hscope
    | cons first outer =>
      obtain rfl : first = scope := Option.some.inj hscope
      obtain ⟨hinst, -, p, hp, -⟩ := hchain.grows (.callStore s c args)
      refine ⟨?_, ⟨p, hp⟩, (Store.hasLocal_iff _ _ _).1 (hinst.bound "this" hmem)⟩
      rw [Store.ancestor?_succ, hparent]
      rfl

/-- A call of `c` gives the value `v` if its body has ended in the given way. -/
structure Gives (c : Closure) (s : Store) (flow : Flow) (v : Value) : Prop where
  completes : flow.completes = true
  this : c.isInit = true → s.getAt c.env "this" 0 = .ok v
  other : c.isInit = false → ∀ w, Walk.callResult c flow w = .ok v w

/-- What a body gives is what its call gives. -/
theorem Gives.callResult {flow : Flow} {v : Value} (h : Gives c w.world.store flow v) :
    Walk.callResult c flow w = .ok v w := by
  cases hi : c.isInit with
  | false => exact h.other hi w
  | true =>
    unfold Walk.callResult
    rw [hi, h.completes, Bool.and_self, if_pos rfl]
    show Walk.lift (w.world.store.getAt c.env "this" 0) w = _
    rw [h.this hi]
    rfl

/-- The machine is about to return from a call of `c` with the value that the call gives. -/
def Returning (D : List FunctionDecl) (d : Distances) (a : Activation) (c : Closure) (st : List Value)
    (flow : Flow) (w : Walker) (m : Machine) : Prop :=
  ∃ p span y st', m.Shadows D d a p (y :: st') w ∧ a.code p = some ⟨.return, span⟩ ∧ st <:+ st'
    ∧ Gives c w.world.store flow y

/-- The code of a return without a value pushes what it gives. -/
theorem bareReturn_tick {c : Surroundings} {role : Option FunctionRole} {home : EnvRef} {ip : Nat}
    (hm : m.Mirrors D d a ip st w) (hg : Grounded c role home w.world.store w.env)
    (hseg : Segment a.code ip (c.bareReturn span)) :
    ∃ y m', m.Ticks o 1 m' ∧ m'.Mirrors D d a (ip + 1) (y :: st) w
      ∧ a.code (ip + 1) = some ⟨.return, span⟩ ∧ (c.initialiser = false → y = .nil)
      ∧ (c.initialiser = true → w.world.store.getAt home "this" 0 = .ok y) := by
  obtain ⟨hvalue, hreturn, -⟩ := hseg
  cases hi : c.initialiser with
  | false =>
    rw [hi] at hvalue
    obtain ⟨m', ht, hm'⟩ := hm.tick (o := o) hvalue fun m₁ h₁ => ⟨_, rfl, h₁.push .nil⟩
    exact ⟨.nil, m', ht, hm', hreturn, fun _ => rfl, fun h => nomatch h⟩
  | true =>
    rw [hi, if_pos rfl] at hvalue
    obtain ⟨y, hy, hy'⟩ := hg.getAt hi
    obtain ⟨m', ht, hm'⟩ := hm.tick (o := o)
      (Q := fun m' => m'.Mirrors D d a (ip + 1) (y :: st) w) hvalue fun m₁ h₁ => by
        rw [Exec.execute_lookup, h₁.lookup, Walker.lookup, hy]
        exact ⟨_, rfl, h₁.push y⟩
    exact ⟨y, m', ht, hm', hreturn, Bool.noConfusion, fun _ => hy'⟩

/-- After the body of a function, the machine comes to a return. -/
theorem returning {next : Nat} {flow : Flow} (hinit : c.isInit = c.decl.isInitialiser)
    (hflow : Flowed D d a { distances := d, initialiser := c.decl.isInitialiser }
      (some c.decl.role) c.env next st flow w m)
    (hg : Grounded { distances := d, initialiser := c.decl.isInitialiser } (some c.decl.role) c.env
      w.world.store w.env) (hseg : Segment a.code next (Surroundings.bareReturn
      { distances := d, initialiser := c.decl.isInitialiser } span)) :
    ∃ j m', m.Ticks o j m' ∧ Returning D d a c st flow w m' := by
  cases flow with
  | «break» =>
    obtain ⟨x, hx, -⟩ := hflow
    exact nomatch hx
  | «continue» =>
    obtain ⟨x, hx, -⟩ := hflow
    exact nomatch hx
  | «return» v =>
    obtain ⟨-, p, span', y, st', hm, hi, hst, hother, hthis⟩ := hflow
    refine ⟨0, m, .refl m, p, span', y, st', hm, hi, hst, rfl,
      fun h => hthis (hinit.symm.trans h), ?_⟩
    intro h w'
    rw [hother (hinit.symm.trans h), Walk.callResult, h]
    rfl
  | next =>
    -- the code behind the body returns
    obtain ⟨y, m', ht, hm', hreturn, hother, hthis⟩ := bareReturn_tick (o := o) hflow hg hseg
    refine ⟨1, m', ht, next + 1, span, y, st, hm'.toShadows, hreturn, List.suffix_refl st, rfl,
      fun h => hthis (hinit.symm.trans h), ?_⟩
    intro h w'
    unfold Walk.callResult
    rw [hother (hinit.symm.trans h), h]
    rfl

/-- A call of a function: its chunk is entered and its body simulated. -/
theorem closure_simulated (hids : IdsTell D) (hB : ∀ decl ∈ D, 3 * sizeOf decl.body ≤ B)
    (hp : Placed (.plain D T d) ⟨n + 1, .closure c args span, w⟩)
    (child : CallsSimulated o T D d B n (.closure c args span) w)
    (kept : CallsKept o (.plain D T d) n (.closure c args span) w) :
    Task.Simulated o T D d B (GoesAstray o ⟨n + 1, .closure c args span, w⟩) (n + 1) w
      (.closure c args span) := by
  intro a ip st k m m₁ op hframes hi hexec hm hfuel
  obtain ⟨⟨hinit, Γ, hknown, hchain⟩, -, -⟩ := hp.task
  have hmem := Setting.exact_mem hknown
  obtain ⟨chunk, hchunk⟩ := Setting.exact_chunk hknown
  obtain ⟨chunks, hco, henter⟩ := Exec.enter_own (o := o) hm.coherent hids hmem hchunk args span
  have hdepth : m₁.frames.length = w.calls.length + 1 := by
    rw [hm.frames, ← hm.calls.length]
    rfl
  rw [henter, hdepth] at hexec
  rcases Nat.lt_or_ge w.calls.length o.maxCallDepth with hroom | hfull
  · rw [if_neg (by omega)] at hexec
    simp only [functionChunk, except_bind_eq_ok, Except.ok.injEq] at hchunk
    obtain ⟨code, hcode, rfl⟩ := hchunk
    -- the machine enters the body with the instruction that makes the call
    refine .of_tick (.single (Machine.tick_of_execute hframes hi hexec)) ?_
    let c' : Surroundings := { distances := d, initialiser := c.decl.isInitialiser }
    let chunk : Chunk := Chunk.addAll { name := c.decl.name } (code ++ c'.bareReturn c.decl.span)
    let a' := a.calling (ip + 1) w.env st c span chunk
    have hself : Segment a'.code 0 (code ++ c'.bareReturn c.decl.span) := by
      have hcode' : a'.code = ((code ++ c'.bareReturn c.decl.span)[·]?) :=
        funext fun n => Chunk.instr?_addAll c.decl.name _ n
      rw [hcode']
      exact segment_self _
    obtain ⟨hbody, hreturn⟩ := Segment.append.1 hself
    have hgrounded := grounded_body hknown hchain args
    have hsim := child (.body hroom) hcode (Setting.exact_follows hknown)
      ⟨rfl, hbody, hm.entered hco c args span chunk, hgrounded⟩ (hfuel.pred (by have := hB _ hmem; omega))
    have hsim' : Simulates o D d _ a' st (k - 1)
        (fun flow v m' => Returning D d a' c st flow v m' ∧ v.calls.tail = w.calls) _
        (Walk.items o n c.decl.body (w.inBody c args span)) := hsim.extend fun flow w' m' hr hf => by
      have hk := kept.ok (.body hroom) hr
      obtain ⟨j, m'', ht, hret⟩ := returning hinit hf (hgrounded.kept hk) hreturn
      exact ⟨j, m'', ht, hret, congrArg List.tail hk.calls⟩
    rw [Walk.located_congr (Walk.closure_body hroom)]
    refine .bind_located (P := fun flow w' m' => ∃ y, m'.Mirrors D d a (ip + 1) (y :: st) w'
      ∧ Gives c w'.world.store flow y) (.inCall (a.returns_calling _ _ _ _ _ _) (.inEnv hsim'
        (Q := fun flow v m' => Returning D d a' c st flow v m' ∧ v.env = w.env
          ∧ v.calls.tail = w.calls) ?_) ?_) ?_
    · rintro flow v m' ⟨⟨p, span', y, st', hs, hret⟩, hcalls⟩
      exact ⟨⟨p, span', y, st', { hs with }, hret⟩, rfl, hcalls⟩
    · rintro flow v m' ⟨⟨p, span', y, st', hs, hi', hst, hgives⟩, henv, hcalls⟩
      obtain ⟨m'', ht, hm''⟩ := hs.return hi' (a.returns_calling _ _ _ _ _ _) hst hm.calls
      rw [← henv, ← hcalls] at hm''
      exact ⟨1, m'', ht, y, hm'', hgives⟩
    · rintro flow w' m' - ⟨y, hm', hgives⟩
      rw [Walk.located, hgives.callResult]
      exact .ok (.refl m') ⟨hm', hgives.this⟩
  · rw [if_pos (by omega)] at hexec
    refine .execute hframes hi ?_
    rw [Walk.closure_full hfull, hexec]
    exact .fault (hm.struck (List.suffix_refl st))

end Visit

end Eleu
