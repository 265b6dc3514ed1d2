import Eleu.Machine.State

/-! # Executing code

    `Machine.step` executes one instruction. A fault goes to the innermost handler; the machine
    then goes back to the state in which the handler was installed. A fault that no handler
    accepts ends the program. -/

namespace Eleu

namespace Exec

/-- The chunk of a function, generated on its first call. -/
def chunkFor (decl : FunctionDecl) : Exec Chunk := do
  let m ← get
  match m.chunks.get? decl.id with
  | some chunk => return chunk
  | none =>
    match functionChunk m.distances decl with
    | .error f => throw f
    | .ok chunk =>
      set { m with chunks := m.chunks.insert decl.id chunk }
      return chunk

/-- Enters a function of the script, called at `span`. The frame of the program is no call. -/
def enter (o : Options) (c : Closure) (args : List Value) (span : Option Span) : Exec Unit := do
  if o.maxCallDepth < (← get).frames.length then fail .tooManyCalls
  let chunk ← chunkFor c.decl
  let e ← newEnv c.env
  modifyStore (·.defineAll e c.decl.params args)
  modify fun m =>
    let frame : Frame :=
      { chunk, ip := 0, name := c.decl.name, span, base := m.stack.length }
    { m with env := e, envs := m.env :: m.envs, frames := frame :: m.frames }

/-- Calls a native and pushes its result. -/
def native (o : Options) (f : Native) (args : List Value) : Exec Unit := fun m =>
  match NativeM.call o f args m.world with
  | .ok v world => .ok () { m with world := world, stack := v :: m.stack }
  | .error f world => .error f { m with world := world }

/-- Calls a value. A class makes an instance and enters its initialiser, which returns it. -/
def call (o : Options) (callee : Value) (args : List Value) (span : Option Span) : Exec Unit := do
  let s ← store
  match callee with
  | .callable c =>
    lift (s.checkArity c args.length)
    match c with
    | .native f => native o f args
    | .closure c => enter o c args span
    | .classRef r =>
      let i ← update (·.newInstance r)
      match (← store).findMethod? r "init" with
      | none => push (.object i)
      | some init =>
        let bound ← update (·.bind init i)
        enter o bound args span
  | _ => fail (.notCallable (s.repr callee))

/-- Leaves `count` scopes. -/
def leaveScopes (op : Op) : (count : Nat) → Exec Unit
  | 0 => return ()
  | count + 1 => do
    let m ← get
    match (m.world.store.env m.env).parent with
    | none => fail (.noParentScope op.text)
    | some p =>
      set { m with env := p }
      leaveScopes op count

/-- Returns from a function with the value on top of the stack. -/
def returnFrom (op : Op) : Exec Unit := do
  let v ← pop op
  let m ← get
  match m.frames with
  | [] => fail (.noFrame op.text)
  | f :: fs =>
    let m := { m with frames := fs, stack := cutTo f.base m.stack }
    set m
    match m.envs with
    | [] => fail (.noFrame op.text)
    | e :: es => set { m with env := e, envs := es, stack := v :: m.stack }

/-- The value of a variable. -/
def lookup (name : String) (depth : Option Nat) : Exec Value := do
  let m ← get
  match depth with
  | some d => lift (m.world.store.getAt m.env name d)
  | none => lift (m.world.store.get m.globals name)

/-- Changes a variable. -/
def assign (name : String) (depth : Option Nat) (v : Value) : Exec Unit := do
  let m ← get
  match depth with
  | some d => onStore (Store.assignAt m.env name v d)
  | none => onStore (Store.assign m.globals name v)

/-- Executes a class statement. -/
def declareClass (op : Op) (name : String) (methods : List FunctionDecl) : Exec Unit := do
  let superclass ←
    match ← pop op with
    | .bool true => some <$> pop op
    | _ => pure none
  onStore (Store.declareClass (← get).env name superclass methods)

/-- Installs a handler. -/
def awaitFault (message : Option String) (span : Option Span) (catchAt : Nat) : Exec Unit :=
  modify fun m =>
    let handler : Handler :=
      { message, span, catchAt, frames := m.frames.length, envs := m.envs.length, env := m.env,
        stack := m.stack.length }
    { m with handlers := handler :: m.handlers }

/-- The awaited fault did not come. Its handler still guards the check of the value, and is removed
    before the failure is reported where the handler was installed. -/
def missedFault (op : Op) : Exec Unit := do
  let v ← pop op
  let _ ← lift ((← store).truth v)
  let m ← get
  match m.handlers with
  | [] => fail .errorExpected
  | h :: hs =>
    set { m with handlers := hs }
    throw { cause := .errorExpected, span := h.span }

/-- Does what an instruction says. -/
def execute (o : Options) (i : Instr) : Exec Unit := do
  let op := i.op
  match op with
  | .constant v => push v
  | .pop => do
    let _ ← pop op
  | .declareVar name => do
    let v ← pop op
    onStore (Store.declare (← get).env name v)
  | .function decl => do
    let env := (← get).env
    let f : Closure := { decl, env, isInit := false }
    define env decl.name (.callable (.closure f))
  | .class name methods => declareClass op name methods
  | .lookup name depth => push (← lookup name depth)
  | .assign name depth => assign name depth (← peek op)
  | .getField name => do
    match ← pop op with
    | .object r =>
      let found ← lift ((← store).findMember r name)
      push (← update (·.take found))
    | v => fail (.notInstance ((← store).repr v))
  | .setField name => do
    let v ← pop op
    match ← pop op with
    | .object r =>
      modifyStore (·.setField r name v)
      push v
    | object => fail (.notInstance ((← store).repr object))
  | .getSuper method depth => do
    let m ← get
    let found ← lift (m.world.store.findSuper m.env depth method)
    push (← update (·.take found))
  | .unary op' => do
    let v ← pop op
    push (← lift ((← store).unary op' v))
  | .binary op' => do
    let r ← pop op
    let l ← pop op
    push (← lift ((← store).binary op' l r))
  | .logical op' => do
    let r ← pop op
    let l ← pop op
    push (← lift ((← store).logical op' l r))
  | .jump target => jump target
  | .jumpIfFalse target => do
    let v ← peek op
    if !(← lift ((← store).truth v)) then jump target
  | .repeatTest target => do
    let v ← peek op
    if (← lift ((← store).rounds v)) = 0 then jump target
  | .enterScope => do
    let e ← newEnv (← get).env
    modify fun m => { m with env := e }
  | .leaveScope count => leaveScopes op count
  | .call count => do
    let callee ← pop op
    let args ← popMany op count
    call o callee args i.span
  | .return => returnFrom op
  | .assert message => do
    let v ← pop op
    if !(← lift ((← store).truth v)) then fail (.assertionFailed message)
  | .failureBegin message catchAt => awaitFault message i.span catchAt
  | .failureEnd => missedFault op

end Exec

namespace Machine

/-- Goes back to the state in which `h` was installed; the handlers below it are left. -/
def unwindTo (m : Machine) (h : Handler) (below : List Handler) : Machine :=
  { m with
    handlers := below
    frames := cutTo h.frames m.frames
    envs := cutTo h.envs m.envs
    env := h.env
    stack := cutTo h.stack m.stack }

/-- Hands a fault to the handlers, the innermost first. One that awaits another message turns the
    fault into a failure of its own. The result is the fault that no handler accepts. -/
def recover : List Handler → Fault → Machine → Option Fault × Machine
  | [], f, m => (some f, { m with handlers := [] })
  | h :: hs, f, m =>
    let m := m.unwindTo h hs
    match h.message with
    | none => (none, m.jump h.catchAt)
    | some expected =>
      if expected = f.message then (none, m.jump h.catchAt)
      else recover hs { cause := .otherError f.message, span := h.span } m

/-- Ends the program with a fault, which is reported with the active calls. -/
def fail (o : Options) (f : Fault) (m : Machine) : Machine :=
  let calls := m.frames.dropLast.map Frame.text
  { m with world := m.world.reportFault o f calls, failed := true, frames := [], handlers := [] }

/-- The number of values that a line of the dump shows. -/
def dumpDepth : Nat := 10

/-- The line of the dump for the instruction at `ip`: its text and the values on top of the stack. -/
def dumpLine (m : Machine) (chunk : Chunk) (ip : Nat) : String :=
  let text := chunk.decode ip
  text ++ "".pushn ' ' (40 - text.length) ++ " | "
    ++ String.intercalate ", " ((m.stack.take dumpDepth).map m.world.store.repr)

/-- Writes the line of the dump for the instruction at `ip`, if a dump is wanted. -/
def dump (o : Options) (chunk : Chunk) (ip : Nat) (m : Machine) : Machine :=
  if o.dump then { m with world := m.world.writeDump o (m.dumpLine chunk ip) } else m

/-- Whether there is more to execute. A program that has reached its end is removed. -/
def status (m : Machine) : Verdict × Machine :=
  match m.frames with
  | [] => (.ok, m)
  | [program] =>
    if program.chunk.ops.size ≤ program.ip then (.ok, { m with frames := [] })
    else (.nextStep, m)
  | _ => (.nextStep, m)

/-- Executes one instruction. Once the program has ended, nothing changes any more. -/
def step (o : Options) (m : Machine) : Verdict × Machine :=
  match m.frames with
  | [] => (if m.failed then .runtimeError else .ok, m)
  | frame :: frames =>
    match frame.chunk.instr? frame.ip with
    | none => (.ok, { m with frames := [] })
    | some i =>
      let m := { m with frames := { frame with ip := frame.ip + 1 } :: frames, count := m.count + 1 }
      match Exec.execute o i (m.dump o frame.chunk frame.ip) with
      | .ok () m => m.status
      | .error f m =>
        match recover m.handlers (f.locate i.span) m with
        | (none, m) => m.status
        | (some f, m) => (.runtimeError, m.fail o f)

/-- Resolves and compiles a program and makes it ready to be executed. -/
def start (program : List Item) (m : Machine) : Verdict × Machine :=
  match resolve program with
  | .error f => (.compileError, { m with world := m.world.complain f.text })
  | .ok distances =>
    let m := { m with distances := m.distances.union distances }
    match programChunk m.distances "script" program with
    | .error f => (.compileError, { m with world := m.world.complain f.text })
    | .ok chunk =>
      (.nextStep,
        { m with
          failed := false
          stack := []
          handlers := []
          envs := []
          env := m.globals
          frames := [{ chunk, ip := 0, name := "script", span := none, base := 0 }] })

/-- Executes instructions until the program ends. The host is asked before each of them whether to
    stop. There is no verdict if the fuel does not suffice. -/
def interpret (o : Options) : (fuel : Nat) → Machine → Option Verdict × Machine
  | 0, m => (none, m)
  | n + 1, m =>
    match m.world.poll o with
    | (true, world) => (some .runtimeError, { m with world := world }.fail o { cause := .cancelled })
    | (false, world) =>
      match { m with world := world }.step o with
      | (.nextStep, m) => m.interpret o n
      | (verdict, m) => (some verdict, m)

/-- Executes instructions as long as the program runs and `proceed`, asked after each of them for the
    `n`-th time, agrees. -/
def stepWhile (o : Options) (proceed : Nat → Machine → Bool) :
    (fuel asked : Nat) → Machine → Option Verdict × Machine
  | 0, _, m => (none, m)
  | n + 1, asked, m =>
    match m.step o with
    | (.nextStep, m) =>
      if proceed asked m then m.stepWhile o proceed n (asked + 1) else (some .nextStep, m)
    | (verdict, m) => (some verdict, m)

/-- Resolves, compiles and runs a program. -/
def run (o : Options) (fuel : Nat) (program : List Item) (m : Machine) : Option Verdict × Machine :=
  match m.start program with
  | (.nextStep, m) => m.interpret o fuel
  | (verdict, m) => (some verdict, m)

end Machine

end Eleu
