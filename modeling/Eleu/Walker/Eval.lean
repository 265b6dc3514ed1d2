import Eleu.Walker.State

/-! # Running a program over its tree

    Evaluation of expressions and execution of items. Every round of recursion takes one unit of
    fuel, so that loops without end are functions like any other; a run that ends does so with the
    same result for every larger amount of fuel. -/

namespace Eleu

namespace Walk

/-- What the result of a body is worth to the caller. An initialiser that is completed gives its
    instance. Control of a loop that would leave the body counts for nothing. -/
def callResult (c : Closure) (flow : Flow) : Walk Value := do
  if c.isInit && flow.completes then lift ((← store).getAt c.env "this" 0)
  else
    match flow with
    | .return v => return v
    | _ => return .nil

/-- What a loop does after one round of its body: go on, or end with a result. -/
def afterRound : Flow → Option Flow
  | .next => none
  | .continue => none
  | .break => some .next
  | .return v => some (.return v)

/-- The outcome of an assertion that `attempted` fails, with the message if one is given. -/
def checkFailure (message : Option String) (attempted : Except Fault Bool) : Walk Flow :=
  match attempted with
  | .ok _ => fail .errorExpected
  | .error f =>
    match message with
    | none => return .next
    | some expected =>
      if expected = f.message then return .next else fail (.otherError f.message)

mutual

/-- The value of an expression. A fault is placed at the innermost expression. -/
def expr (o : Options) : (fuel : Nat) → Expr → Walk Value
  | 0, _ => throw .outOfFuel
  | n + 1, e => located e.span <|
    match e with
    | .literal value _ => lift (Value.ofLiteral value)
    | .list elements _ => do
      let vs ← exprs o n elements
      return .list (← update (·.newList vs.toArray))
    | .name ident _ => lookup ident
    | .this ident _ => lookup ident
    | .assign target value _ => do
      let v ← expr o n value
      assign target v
      return v
    | .unary op operand _ => do
      let v ← expr o n operand
      lift ((← store).unary op v)
    | .binary left op right _ => do
      let l ← expr o n left
      let r ← expr o n right
      lift ((← store).binary op l r)
    | .logical left op right _ => do
      let l ← expr o n left
      let r ← expr o n right
      lift ((← store).logical op l r)
    | .group inner _ => expr o n inner
    | .call callee args span => do
      let vs ← exprs o n args
      let f ← expr o n callee
      call o n f vs span
    | .getField object field _ => do
      let v ← expr o n object
      member v field
    | .setField object field value _ => do
      let r ← asInstance (← expr o n object)
      let v ← expr o n value
      modifyStore (·.setField r field v)
      return v
    | .super ident method _ => superMethod ident method

/-- The values of expressions, from left to right. -/
def exprs (o : Options) : (fuel : Nat) → List Expr → Walk (List Value)
  | 0, _ => throw .outOfFuel
  | _ + 1, [] => return []
  | n + 1, e :: es => do
    let v ← expr o n e
    let vs ← exprs o n es
    return v :: vs

/-- Calls a value. A class makes an instance and calls its initialiser. -/
def call (o : Options) : (fuel : Nat) → Value → List Value → Span → Walk Value
  | 0, _, _, _ => throw .outOfFuel
  | n + 1, callee, args, span => do
    let s ← store
    match callee with
    | .callable c =>
      lift (s.checkArity c args.length)
      match c with
      | .native f => native o f args
      | .closure c => closure o n c args span
      | .classRef r =>
        let i ← update (·.newInstance r)
        match (← store).findMethod? r "init" with
        | none => return .object i
        | some init =>
          let bound ← update (·.bind init i)
          let _ ← closure o n bound args span
          return .object i
    | _ => fail (.notCallable (s.repr callee))

/-- Calls a function of the script. -/
def closure (o : Options) : (fuel : Nat) → Closure → List Value → Span → Walk Value
  | 0, _, _, _ => throw .outOfFuel
  | n + 1, c, args, span => do
    if o.maxCallDepth ≤ (← get).calls.length then fail .tooManyCalls
    let e ← callEnv c args
    let flow ← inCall ⟨c.decl.name, span⟩ (inEnv e (items o n c.decl.body))
    callResult c flow

/-- Executes an item. The host is asked first whether to stop. -/
def item (o : Options) : (fuel : Nat) → Item → Walk Flow
  | 0, _ => throw .outOfFuel
  | n + 1, i => do
    poll o i.span
    tally
    located i.span (statement o n i)

/-- Executes items up to the first that does not end normally. -/
def items (o : Options) : (fuel : Nat) → List Item → Walk Flow
  | 0, _ => throw .outOfFuel
  | _ + 1, [] => return .next
  | n + 1, i :: is => do
    match ← item o n i with
    | .next => items o n is
    | flow => return flow

/-- Does what an item says. -/
def statement (o : Options) : (fuel : Nat) → Item → Walk Flow
  | 0, _ => throw .outOfFuel
  | n + 1, i =>
    match i with
    | .expr e _ => do
      let _ ← expr o n e
      return .next
    | .var name init _ => do
      let v ←
        match init with
        | some e => expr o n e
        | none => pure .nil
      onStore (Store.declare (← get).env name v)
      return .next
    | .block body _ => do
      let e ← newEnv (← get).env
      inEnv e (items o n body)
    | .ifThen c thenItem _ => do
      let v ← expr o n c
      if ← condition v c.span then item o n thenItem else return .next
    | .ifElse c thenItem elseItem _ => do
      let v ← expr o n c
      if ← condition v c.span then item o n thenItem else item o n elseItem
    | .while c body increment _ => whileLoop o n c body increment
    | .repeat count body _ => do
      let v ← expr o n count
      let times ← located count.span (lift ((← store).rounds v))
      repeatLoop o n times body
    | .return value _ => do
      match value with
      | some e => return .return (← expr o n e)
      | none => return .return .nil
    | .break _ => return .break
    | .continue _ => return .continue
    | .assert c message _ => do
      let v ← expr o n c
      if ← lift ((← store).truth v) then return .next
      else fail (.assertionFailed message)
    | .assertFails e message _ => do
      let attempted ← attempt (do condition (← expr o n e) e.span)
      checkFailure message attempted
    | .function decl _ => do
      let env := (← get).env
      let f : Closure := { decl, env, isInit := false }
      define env decl.name (.callable (.closure f))
      return .next
    | .class name parent methods _ => do
      let superclass ←
        match parent with
        | some ident => some <$> lookup ident
        | none => pure none
      onStore (Store.declareClass (← get).env name superclass methods)
      return .next

/-- Runs a loop as long as its condition holds. -/
def whileLoop (o : Options) : (fuel : Nat) → Expr → Item → Option Expr → Walk Flow
  | 0, _, _, _ => throw .outOfFuel
  | n + 1, c, body, increment => do
    let v ← expr o n c
    if ← condition v c.span then
      match afterRound (← item o n body) with
      | some flow => return flow
      | none =>
        match increment with
        | some e =>
          let _ ← expr o n e
          whileLoop o n c body increment
        | none => whileLoop o n c body increment
    else return .next

/-- Runs the body of a loop `times` times. -/
def repeatLoop (o : Options) : (fuel times : Nat) → Item → Walk Flow
  | 0, _, _ => throw .outOfFuel
  | _ + 1, 0, _ => return .next
  | n + 1, times + 1, body => do
    match afterRound (← item o n body) with
    | some flow => return flow
    | none => repeatLoop o n times body

end

/-- Executes the items of a program. At this level there is nothing to return from and no loop to
    leave. -/
def program (o : Options) : (fuel : Nat) → List Item → Walk Unit
  | 0, _ => throw .outOfFuel
  | _ + 1, [] => return ()
  | n + 1, i :: is => do
    let _ ← item o n i
    program o n is

end Walk

namespace Walker

/-- The walker when it sets about a program with the given distances. -/
def started (w : Walker) (distances : Distances) : Walker :=
  { w with distances := w.distances.union distances, trace := none }

/-- What is reported of a program that was begun. There is no verdict if the fuel did not suffice. -/
def report (o : Options) : EStateM.Result Interrupt Walker Unit → Option Verdict × Walker
  | .ok () w => (some .ok, w)
  | .error .outOfFuel w => (none, w)
  | .error (.fault f) w =>
    -- only a native of the host can report a static error at this point
    if f.cause.kind = .resolve then
      (some .compileError, { w with world := w.world.complain f.text })
    else
      let calls := (w.trace.getD []).map CallSite.text
      (some .runtimeError, { w with world := w.world.reportFault o f calls, trace := none })

/-- Resolves and runs a program, and reports the fault that ends it, if any. -/
def run (o : Options) (fuel : Nat) (program : List Item) (w : Walker) : Option Verdict × Walker :=
  match resolve program with
  | .error f => (some .compileError, { w with world := w.world.complain f.text })
  | .ok distances => report o (Walk.program o fuel program (w.started distances))

/-- The report of a static error. -/
theorem report_static {f : Fault} (h : f.cause.kind = .resolve) (o : Options) (w : Walker) :
    report o (.error (.fault f) w) =
      (some .compileError, { w with world := w.world.complain f.text }) :=
  if_pos h

/-- The report of any other error. -/
theorem report_fault {f : Fault} (h : f.cause.kind ≠ .resolve) (o : Options) (w : Walker) :
    report o (.error (.fault f) w) =
      (some .runtimeError,
        { w with world := w.world.reportFault o f ((w.trace.getD []).map CallSite.text)
                 trace := none }) :=
  if_neg h

/-- The run of a program that is refused. -/
theorem run_refused {program : List Item} {f : Fault} (h : resolve program = .error f) (o : Options)
    (fuel : Nat) (w : Walker) :
    w.run o fuel program = (some .compileError, { w with world := w.world.complain f.text }) := by
  rw [run, h]

/-- The run of a program that is not refused. -/
theorem run_resolved {program : List Item} {d : Distances} (h : resolve program = .ok d) (o : Options)
    (fuel : Nat) (w : Walker) :
    w.run o fuel program = report o (Walk.program o fuel program (w.started d)) := by
  rw [run, h]

/-- Executes items in the environment `e`, without resolving them. -/
def runBlock (o : Options) (fuel : Nat) (block : List Item) (e : EnvRef) : Walk Flow :=
  Walk.inEnv e (Walk.items o fuel block)

/-- Executes items, without resolving them, in a new environment inside `depth` others. The globals
    are not among its ancestors. -/
def runDetached (o : Options) (fuel depth : Nat) (block : List Item) : Walk Flow := do
  runBlock o fuel block (← Walk.update (·.newEnvs depth))

end Walker

end Eleu
