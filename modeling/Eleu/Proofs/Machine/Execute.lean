import Eleu.Machine.Step
import Eleu.Proofs.Outcome
import Eleu.Proofs.Store.Functions

/-! # What each instruction does

    One equation for each instruction: its outcome on a machine whose stack has the operands it
    needs. Nothing later opens the computations of the machine again. -/

namespace Eleu

variable {name : String} {args : List Value}

namespace Machine

/-- The machine with another store. -/
def setStore (m : Machine) (s : Store) : Machine := { m with world := { m.world with store := s } }

/-- The value of a variable: of a local one by its distance, else of the global one. -/
def lookup (m : Machine) (name : String) : Option Nat → Except Cause Value
  | some d => m.world.store.getAt m.env name d
  | none => m.world.store.get m.globals name

/-- The environment that holds a variable, found in the same way. -/
def holder (m : Machine) (name : String) : Option Nat → Except Cause EnvRef
  | some d => m.world.store.holderAt m.env name d
  | none => m.world.store.holder m.globals name

/-- The machine after it has entered a function with the given chunk. -/
def entered (m : Machine) (c : Closure) (args : List Value) (span : Option Span) (chunk : Chunk) :
    Machine :=
  { m.setStore (m.world.store.callStore c args) with
    env := m.world.store.envs.size
    envs := m.env :: m.envs
    frames :=
      { chunk, ip := 0, name := c.decl.name, span, base := m.stack.length }
        :: m.frames }

/-- The machine after it has noted the chunk of a function. -/
def noteChunk (m : Machine) (id : Nat) (chunk : Chunk) : Machine :=
  { m with chunks := m.chunks.insert id chunk }

/-- The handler that an instruction at `span` installs. -/
def handlerFor (m : Machine) (message : Option String) (span : Option Span) (catchAt : Nat) : Handler :=
  { message, span, catchAt, frames := m.frames.length, envs := m.envs.length, env := m.env,
    stack := m.stack.length }

end Machine

namespace Exec

open Outcome

variable {o : Options} {m : Machine} {span : Option Span} {v : Value} {st : List Value}

/-! ## Primitives -/

theorem pop_apply {op : Op} (h : m.stack = v :: st) : pop op m = .ok v { m with stack := st } := by
  unfold pop
  rw [bind_apply, get_apply]
  simp only [h]
  rfl

theorem peek_apply {op : Op} (h : m.stack = v :: st) : peek op m = .ok v m := by
  unfold peek
  rw [bind_apply, get_apply]
  simp only [h]
  rfl

theorem popMany_apply {op : Op} {n : Nat} (h : n ≤ m.stack.length) :
    popMany op n m = .ok (m.stack.take n).reverse { m with stack := m.stack.drop n } := by
  unfold popMany
  rw [bind_apply, get_apply]
  simp only [Nat.not_lt_of_ge h, ↓reduceIte]
  rfl

theorem store_apply : store m = .ok m.world.store m := rfl

theorem update_apply {α : Type} (f : Store → α × Store) :
    update f m = .ok (f m.world.store).1 (m.setStore (f m.world.store).2) := rfl

/-- What was done to the store is there however it ended. -/
theorem onStore_apply {α : Type} (act : StoreM α) :
    onStore act m =
      match act m.world.store with
      | .ok a s => .ok a (m.setStore s)
      | .error c s => .error { cause := c } (m.setStore s) := rfl

theorem lift_ok {α : Type} (a : α) : (lift (.ok a) : Exec α) m = .ok a m := rfl

/-! ## Constants, variables and declarations -/

theorem execute_constant :
    execute o ⟨.constant v, span⟩ m = .ok () { m with stack := v :: m.stack } := rfl

theorem execute_pop (h : m.stack = v :: st) :
    execute o ⟨.pop, span⟩ m = .ok () { m with stack := st } := by
  simp only [execute, bind_apply, pop_apply h]
  rfl

theorem execute_declareVar (h : m.stack = v :: st) :
    execute o ⟨.declareVar name, span⟩ m =
      if m.world.store.hasLocal m.env name then
        .error { cause := .alreadyDeclared name } { m with stack := st }
      else .ok () ({ m with stack := st }.setStore (m.world.store.define m.env name v)) := by
  simp only [execute, bind_apply, pop_apply h, get_apply, onStore_apply, Store.declare_apply]
  cases m.world.store.hasLocal m.env name <;> rfl

theorem execute_function {decl : FunctionDecl} :
    execute o ⟨.function decl, span⟩ m =
      .ok () (m.setStore (m.world.store.define m.env decl.name
        (.callable (.closure { decl, env := m.env, isInit := false })))) := rfl

/-- Without a superclass, a class statement pops its flag only. -/
theorem execute_class {methods : List FunctionDecl} (h : m.stack = .bool false :: st) :
    execute o ⟨.class name methods, span⟩ m =
      onStore (Store.declareClass m.env name none methods) { m with stack := st } := by
  simp only [execute, declareClass, bind_apply, pop_apply h, pure_apply, get_apply]

/-- With a superclass, it pops that as well. -/
theorem execute_subclass {methods : List FunctionDecl} (h : m.stack = .bool true :: v :: st) :
    execute o ⟨.class name methods, span⟩ m =
      onStore (Store.declareClass m.env name (some v) methods) { m with stack := st } := by
  simp only [execute, declareClass, bind_apply, pop_apply h, map_apply, get_apply,
    pop_apply (m := { m with stack := v :: st }) rfl]

theorem execute_lookup {depth : Option Nat} :
    execute o ⟨.lookup name depth, span⟩ m =
      match m.lookup name depth with
      | .ok v => .ok () { m with stack := v :: m.stack }
      | .error c => .error { cause := c } m := by
  cases depth with
  | none =>
    simp only [execute, lookup, bind_apply, get_apply, Machine.lookup]
    cases m.world.store.get m.globals name <;> rfl
  | some d =>
    simp only [execute, lookup, bind_apply, get_apply, Machine.lookup]
    cases m.world.store.getAt m.env name d <;> rfl

theorem execute_assign {depth : Option Nat} (h : m.stack = v :: st) :
    execute o ⟨.assign name depth, span⟩ m =
      match m.holder name depth with
      | .ok e => .ok () (m.setStore (m.world.store.define e name v))
      | .error c => .error { cause := c } m := by
  cases depth with
  | none =>
    simp only [execute, assign, bind_apply, peek_apply h, get_apply, Machine.holder, onStore_apply,
      Store.assign_apply]
    cases m.world.store.holder m.globals name <;> rfl
  | some d =>
    simp only [execute, assign, bind_apply, peek_apply h, get_apply, Machine.holder, onStore_apply,
      Store.assignAt_apply]
    cases m.world.store.holderAt m.env name d <;> rfl

/-! ## Members -/

theorem execute_getField {r : InstanceRef} (h : m.stack = .object r :: st) :
    execute o ⟨.getField name, span⟩ m =
      match m.world.store.findMember r name with
      | .ok found =>
        .ok () ({ m with stack := (m.world.store.take found).1 :: st }.setStore
          (m.world.store.take found).2)
      | .error c => .error { cause := c } { m with stack := st } := by
  simp only [execute, bind_apply, pop_apply h, store_apply]
  cases m.world.store.findMember r name <;> rfl

theorem execute_getField_other (h : m.stack = v :: st) (hv : ∀ r, v ≠ .object r) :
    execute o ⟨.getField name, span⟩ m =
      .error { cause := .notInstance (m.world.store.repr v) } { m with stack := st } := by
  simp only [execute, bind_apply, pop_apply h, store_apply]
  cases v with
  | object r => exact absurd rfl (hv r)
  | nil | bool | number | string | list | callable => rfl

theorem execute_setField {r : InstanceRef} (h : m.stack = v :: .object r :: st) :
    execute o ⟨.setField name, span⟩ m =
      .ok () ({ m with stack := v :: st }.setStore (m.world.store.setField r name v)) := by
  simp only [execute, bind_apply, pop_apply h,
    pop_apply (m := { m with stack := .object r :: st }) rfl]
  rfl

theorem execute_setField_other {x : Value} (h : m.stack = v :: x :: st) (hx : ∀ r, x ≠ .object r) :
    execute o ⟨.setField name, span⟩ m =
      .error { cause := .notInstance (m.world.store.repr x) } { m with stack := st } := by
  simp only [execute, bind_apply, pop_apply h, pop_apply (m := { m with stack := x :: st }) rfl]
  cases x with
  | object r => exact absurd rfl (hx r)
  | nil | bool | number | string | list | callable => rfl

theorem execute_getSuper {method : String} {depth : Nat} :
    execute o ⟨.getSuper method depth, span⟩ m =
      match m.world.store.findSuper m.env depth method with
      | .ok found =>
        .ok () ({ m with stack := (m.world.store.take found).1 :: m.stack }.setStore
          (m.world.store.take found).2)
      | .error c => .error { cause := c } m := by
  simp only [execute, bind_apply, get_apply]
  cases m.world.store.findSuper m.env depth method <;> rfl

/-! ## Operators -/

theorem execute_unary {op : UnaryOp} (h : m.stack = v :: st) :
    execute o ⟨.unary op, span⟩ m =
      match m.world.store.unary op v with
      | .ok x => .ok () { m with stack := x :: st }
      | .error c => .error { cause := c } { m with stack := st } := by
  simp only [execute, bind_apply, pop_apply h, store_apply]
  cases m.world.store.unary op v <;> rfl

theorem execute_binary {op : BinaryOp} {l r : Value} (h : m.stack = r :: l :: st) :
    execute o ⟨.binary op, span⟩ m =
      match m.world.store.binary op l r with
      | .ok x => .ok () { m with stack := x :: st }
      | .error c => .error { cause := c } { m with stack := st } := by
  simp only [execute, bind_apply, pop_apply h, pop_apply (m := { m with stack := l :: st }) rfl,
    store_apply]
  cases m.world.store.binary op l r <;> rfl

theorem execute_logical {op : LogicalOp} {l r : Value} (h : m.stack = r :: l :: st) :
    execute o ⟨.logical op, span⟩ m =
      match m.world.store.logical op l r with
      | .ok x => .ok () { m with stack := x :: st }
      | .error c => .error { cause := c } { m with stack := st } := by
  simp only [execute, bind_apply, pop_apply h, pop_apply (m := { m with stack := l :: st }) rfl,
    store_apply]
  cases m.world.store.logical op l r <;> rfl

/-! ## Jumps and scopes -/

theorem execute_jumpIfFalse {target : Nat} (h : m.stack = v :: st) :
    execute o ⟨.jumpIfFalse target, span⟩ m =
      match m.world.store.truth v with
      | .ok b => .ok () (if b then m else m.jump target)
      | .error c => .error { cause := c } m := by
  simp only [execute, bind_apply, peek_apply h, store_apply]
  cases m.world.store.truth v with
  | error c => rfl
  | ok b => cases b <;> rfl

theorem execute_repeatTest {target : Nat} (h : m.stack = v :: st) :
    execute o ⟨.repeatTest target, span⟩ m =
      match m.world.store.rounds v with
      | .ok k => .ok () (if k = 0 then m.jump target else m)
      | .error c => .error { cause := c } m := by
  simp only [execute, bind_apply, peek_apply h, store_apply]
  cases m.world.store.rounds v with
  | error c => rfl
  | ok k =>
    cases k with
    | zero => rfl
    | succ k => simp [lift_ok, pure_apply]

theorem execute_enterScope :
    execute o ⟨.enterScope, span⟩ m =
      .ok () { m.setStore (m.world.store.newEnv (some m.env)).2 with
        env := m.world.store.envs.size } := rfl

/-- Scopes that are there can be left. -/
theorem leaveScopes_apply {op : Op} {n : Nat} {a : EnvRef}
    (h : m.world.store.ancestor? m.env n = some a) :
    leaveScopes op n m = .ok () { m with env := a } := by
  induction n generalizing m with
  | zero =>
    cases Option.some.inj h
    rfl
  | succ n ih =>
    rw [Store.ancestor?_succ] at h
    unfold leaveScopes
    rw [bind_apply, get_apply]
    cases hp : (m.world.store.env m.env).parent with
    | none => rw [hp] at h; exact nomatch h
    | some p =>
      rw [hp] at h
      simp only [hp, bind_apply, set_apply]
      exact ih (m := { m with env := p }) h

theorem execute_leaveScope {n : Nat} {a : EnvRef}
    (h : m.world.store.ancestor? m.env n = some a) :
    execute o ⟨.leaveScope n, span⟩ m = .ok () { m with env := a } :=
  leaveScopes_apply h

/-! ## Calls -/

theorem execute_call {n : Nat} (h : m.stack = v :: st) (hn : n ≤ st.length) :
    execute o ⟨.call n, span⟩ m =
      call o v (st.take n).reverse span { m with stack := st.drop n } := by
  simp only [execute, bind_apply, pop_apply h, popMany_apply (m := { m with stack := st }) hn]

/-- A native changes the world only, and its result is pushed. -/
theorem native_apply {f : Native} :
    call o (.callable (.native f)) args span m =
      match NativeM.call o f args m.world with
      | .ok v world => .ok () { m with world := world, stack := v :: m.stack }
      | .error f world => .error f { m with world := world } := rfl

/-- Entering a function: its chunk is the one that was noted, or is generated and noted now. -/
theorem enter_apply {c : Closure} :
    enter o c args span m =
      if o.maxCallDepth < m.frames.length then .error { cause := .tooManyCalls } m
      else
        match m.chunks.get? c.decl.id with
        | some chunk => .ok () (m.entered c args span chunk)
        | none =>
          match functionChunk m.distances c.decl with
          | .error f => .error f m
          | .ok chunk => .ok () ((m.noteChunk c.decl.id chunk).entered c args span chunk) := by
  unfold enter
  rw [bind_apply, get_apply]
  dsimp only
  split
  · rfl
  · simp only [chunkFor, bind_apply, get_apply]
    cases m.chunks.get? c.decl.id with
    | some chunk => rfl
    | none =>
      cases functionChunk m.distances c.decl with
      | error f => rfl
      | ok chunk => rfl

theorem call_closure {c : Closure} :
    call o (.callable (.closure c)) args span m =
      match m.world.store.checkArity (.closure c) args.length with
      | .ok () => enter o c args span m
      | .error cause => .error { cause } m := by
  simp only [call, bind_apply, store_apply]
  cases m.world.store.checkArity (.closure c) args.length <;> rfl

/-- Calling a class: the instance is made first, and its initialiser is looked up then. -/
theorem call_class {r : ClassRef} :
    call o (.callable (.classRef r)) args span m =
      match m.world.store.checkArity (.classRef r) args.length with
      | .error cause => .error { cause } m
      | .ok () =>
        let i := m.world.store.instances.size
        let s := (m.world.store.newInstance r).2
        match s.findMethod? r "init" with
        | none => .ok () ({ m with stack := .object i :: m.stack }.setStore s)
        | some init => enter o (s.bind init i).1 args span (m.setStore (s.bind init i).2) := by
  simp only [call, bind_apply, store_apply]
  cases m.world.store.checkArity (.classRef r) args.length with
  | error c => rfl
  | ok u =>
    simp only [lift_ok, update_apply]
    rw [show (m.setStore (m.world.store.newInstance r).2).world.store
      = (m.world.store.newInstance r).2 from rfl]
    cases (m.world.store.newInstance r).2.findMethod? r "init" with
    | none => rfl
    | some init => rfl

theorem call_other (hv : ∀ c, v ≠ .callable c) :
    call o v args span m = .error { cause := .notCallable (m.world.store.repr v) } m := by
  simp only [call, bind_apply, store_apply]
  cases v with
  | callable c => exact absurd rfl (hv c)
  | nil | bool | number | string | list | object => rfl

theorem execute_return {f : Frame} {fs : List Frame} {e : EnvRef} {es : List EnvRef}
    (h : m.stack = v :: st) (hf : m.frames = f :: fs) (he : m.envs = e :: es) :
    execute o ⟨.return, span⟩ m =
      .ok () { m with frames := fs, stack := v :: cutTo f.base st, env := e, envs := es } := by
  simp only [execute, returnFrom, bind_apply, pop_apply h, get_apply, hf, he, set_apply]

/-! ## Assertions -/

theorem execute_assert {message : Option String} (h : m.stack = v :: st) :
    execute o ⟨.assert message, span⟩ m =
      match m.world.store.truth v with
      | .ok b =>
        if b then .ok () { m with stack := st }
        else .error { cause := .assertionFailed message } { m with stack := st }
      | .error c => .error { cause := c } { m with stack := st } := by
  simp only [execute, bind_apply, pop_apply h, store_apply]
  cases m.world.store.truth v with
  | error c => rfl
  | ok b => cases b <;> rfl

theorem execute_failureBegin {message : Option String} {catchAt : Nat} :
    execute o ⟨.failureBegin message catchAt, span⟩ m =
      .ok () { m with handlers := m.handlerFor message span catchAt :: m.handlers } := rfl

/-- The awaited fault did not come: the handler is gone only if the value could be checked. -/
theorem execute_failureEnd {hd : Handler} {hs : List Handler} (h : m.stack = v :: st)
    (hh : m.handlers = hd :: hs) :
    execute o ⟨.failureEnd, span⟩ m =
      match m.world.store.truth v with
      | .ok _ =>
        .error { cause := .errorExpected, span := hd.span }
          { m with stack := st, handlers := hs }
      | .error c => .error { cause := c } { m with stack := st } := by
  simp only [execute, missedFault, bind_apply, pop_apply h, store_apply]
  cases m.world.store.truth v with
  | error c => rfl
  | ok b => simp only [lift_ok, bind_apply, get_apply, hh, set_apply, throw_apply]

end Exec

/-! ## Chunks that were noted -/

/-- All chunks that were noted belong to declarations in `D`, under their ids. -/
def ChunksOf (D : FunctionDecl → Prop) (d : Distances) (chunks : Table Nat Chunk) : Prop :=
  ∀ id chunk, chunks.get? id = some chunk →
    ∃ decl, D decl ∧ decl.id = id ∧ functionChunk d decl = .ok chunk

theorem ChunksOf.insert {D : FunctionDecl → Prop} {d : Distances} {chunks : Table Nat Chunk}
    (h : ChunksOf D d chunks) {decl : FunctionDecl} (hdecl : D decl) {chunk : Chunk}
    (hchunk : functionChunk d decl = .ok chunk) : ChunksOf D d (chunks.insert decl.id chunk) := by
  intro id found hfound
  rw [Table.get?_insert] at hfound
  split at hfound
  · next hid =>
      cases hfound
      exact ⟨decl, hdecl, hid, hchunk⟩
  · exact h id found hfound

/-- A function gets its own chunk, noted or not, if declarations of the same id have the same one. -/
theorem Exec.chunkFor_own {D : FunctionDecl → Prop} {m : Machine} (h : ChunksOf D m.distances m.chunks)
    (hown : ∀ a b, D a → D b → a.id = b.id →
      functionChunk m.distances a = functionChunk m.distances b)
    (decl : FunctionDecl) (hdecl : D decl) :
    ∃ chunks, ChunksOf D m.distances chunks ∧ Exec.chunkFor decl m =
      match functionChunk m.distances decl with
      | .ok chunk => .ok chunk { m with chunks := chunks }
      | .error f => .error f { m with chunks := chunks } := by
  unfold Exec.chunkFor
  rw [Outcome.bind_apply, Outcome.get_apply]
  dsimp only
  cases hget : m.chunks.get? decl.id with
  | some noted =>
    obtain ⟨other, hother, hid, hchunk⟩ := h _ _ hget
    refine ⟨m.chunks, h, ?_⟩
    rw [hown decl other hdecl hother hid.symm, hchunk]
    rfl
  | none =>
    cases hchunk : functionChunk m.distances decl with
    | error f => exact ⟨m.chunks, h, rfl⟩
    | ok chunk => exact ⟨_, h.insert hdecl hchunk, rfl⟩

end Eleu
