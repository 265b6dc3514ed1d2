import Eleu.Code.Basic
import Eleu.Operator
import Eleu.Scope

/-! # Generating code

    The code of a tree is the concatenation of the code of its parts and a few instructions in
    between. Expressions contain no jumps, so that their code does not depend on where it stands.
    The code of an item is generated for the offset at which it stands, and the targets of the
    jumps out of a loop follow from the sizes of its parts, which `Item.size` gives beforehand. -/

namespace Eleu

/-! ## Sizes -/

mutual

/-- The number of instructions of an expression. -/
def Expr.size : Expr → Nat
  | .literal _ _ => 1
  | .list elements _ => exprsSize elements + 2
  | .name _ _ => 1
  | .assign _ value _ => value.size + 1
  | .unary _ operand _ => operand.size + 1
  | .binary left _ right _ => left.size + right.size + 1
  | .logical left _ right _ => left.size + right.size + 1
  | .group inner _ => inner.size
  | .call callee args _ => exprsSize args + callee.size + 1
  | .getField object _ _ => object.size + 1
  | .setField object _ value _ => object.size + value.size + 1
  | .this _ _ => 1
  | .super _ _ _ => 1

/-- The number of instructions of several expressions. -/
def exprsSize : List Expr → Nat
  | [] => 0
  | e :: es => e.size + exprsSize es

end

/-- The number of instructions that compute an initial value. -/
def initSize : Option Expr → Nat
  | some e => e.size
  | none => 1

/-- The number of instructions of the increment of a loop. -/
def incrementSize : Option Expr → Nat
  | some e => e.size + 1
  | none => 0

/-- The number of instructions that leave `unwind` scopes and jump. -/
def leaveSize (unwind : Nat) : Nat := if unwind = 0 then 1 else 2

mutual

/-- The number of instructions of an item that stands `unwind` scopes inside the innermost loop. -/
def Item.size (unwind : Nat) : Item → Nat
  | .expr e _ => e.size + 1
  | .var _ init _ => initSize init + 1
  | .block items _ => itemsSize (unwind + 1) items + 2
  | .ifThen c t _ => c.size + t.size unwind + 4
  | .ifElse c t e _ => c.size + t.size unwind + e.size unwind + 4
  | .while c body increment _ => c.size + body.size 0 + incrementSize increment + 4
  | .repeat count body _ => count.size + body.size 0 + 5
  | .return (some e) _ => e.size + 1
  | .return none _ => 2
  | .break _ => leaveSize unwind
  | .continue _ => leaveSize unwind
  | .assert c _ _ => c.size + 1
  | .assertFails e _ _ => e.size + 2
  | .function _ _ => 1
  | .class _ none _ _ => 2
  | .class _ (some _) _ _ => 3

/-- The number of instructions of several items. -/
def itemsSize (unwind : Nat) : List Item → Nat
  | [] => 0
  | i :: is => i.size unwind + itemsSize unwind is

end

/-! ## Expressions -/

mutual

/-- The code that pushes the value of an expression. -/
def exprCode (d : Distances) : Expr → Except Fault (List Instr)
  | .literal value span =>
    match Value.ofLiteral value with
    | .ok v => .ok [⟨.constant v, span⟩]
    | .error cause => .error { cause, span := some span }
  | .list elements span => do
    let code ← exprsCode d elements
    .ok (code ++ [⟨.constant Value.listConstructor, span⟩, ⟨.call elements.length, span⟩])
  | .name ident span => .ok [⟨.lookup ident.name (d.get? ident.id), span⟩]
  | .this ident span => .ok [⟨.lookup ident.name (d.get? ident.id), span⟩]
  | .assign target value span => do
    let code ← exprCode d value
    .ok (code ++ [⟨.assign target.name (d.get? target.id), span⟩])
  | .unary op operand span => do
    let code ← exprCode d operand
    .ok (code ++ [⟨.unary op, span⟩])
  | .binary left op right span => do
    let l ← exprCode d left
    let r ← exprCode d right
    .ok (l ++ r ++ [⟨.binary op, span⟩])
  | .logical left op right span => do
    let l ← exprCode d left
    let r ← exprCode d right
    .ok (l ++ r ++ [⟨.logical op, span⟩])
  | .group inner _ => exprCode d inner
  | .call callee args span => do
    let a ← exprsCode d args
    let f ← exprCode d callee
    .ok (a ++ f ++ [⟨.call args.length, span⟩])
  | .getField object field span => do
    let code ← exprCode d object
    .ok (code ++ [⟨.getField field, span⟩])
  | .setField object field value span => do
    let ob ← exprCode d object
    let v ← exprCode d value
    .ok (ob ++ v ++ [⟨.setField field, span⟩])
  | .super ident method span =>
    match d.get? ident.id with
    | some depth => .ok [⟨.getSuper method depth, span⟩]
    | none => .error { cause := .misresolved "super", span := some span }

/-- The code that pushes the values of expressions from left to right. -/
def exprsCode (d : Distances) : List Expr → Except Fault (List Instr)
  | [] => .ok []
  | e :: es => do
    let code ← exprCode d e
    let rest ← exprsCode d es
    .ok (code ++ rest)

end

/-! ## Items -/

/-- Where the innermost loop is left and continued, and how many scopes were open around it. -/
structure LoopExits where
  scopes : Nat
  breakTo : Nat
  continueTo : Nat

/-- What the code of an item depends on besides the item and its offset. -/
structure Surroundings where
  distances : Distances
  /-- Whether the code belongs to an initialiser. -/
  initialiser : Bool := false
  /-- The number of scopes that the chunk has open. -/
  scopes : Nat := 0
  innermost : Option LoopExits := none

namespace Surroundings

/-- Inside one more scope. -/
def inScope (c : Surroundings) : Surroundings := { c with scopes := c.scopes + 1 }

/-- Inside a loop. -/
def inLoop (c : Surroundings) (breakTo continueTo : Nat) : Surroundings :=
  { c with innermost := some { scopes := c.scopes, breakTo, continueTo } }

/-- How many scopes are open inside the innermost loop. -/
def unwind (c : Surroundings) : Nat := c.scopes - (c.innermost.map (·.scopes)).getD 0

/-- The code that leaves the open scopes of the loop and jumps to `target`. -/
def leave (c : Surroundings) (target : Option Nat) (span : Span) : List Instr :=
  let jump : Instr := ⟨.jump (target.getD Op.nowhere), span⟩
  if c.unwind = 0 then [jump] else [⟨.leaveScope c.unwind, span⟩, jump]

/-- The code of a return without a value. Functions return nil and initialisers return their
    instance, which is bound in the scope around the parameters. -/
def bareReturn (c : Surroundings) (span : Span) : List Instr :=
  let value : Op :=
    if c.initialiser then .lookup "this" (some (c.scopes + 1)) else .constant .nil
  [⟨value, span⟩, ⟨.return, span⟩]

end Surroundings

/-- The code that pushes the initial value of a variable declared at `span`. -/
def initCode (d : Distances) (span : Span) : Option Expr → Except Fault (List Instr)
  | some e => exprCode d e
  | none => .ok [⟨.constant .nil, span⟩]

/-- The code of the increment of a loop. -/
def incrementCode (d : Distances) : Option Expr → Except Fault (List Instr)
  | some e => do
    let code ← exprCode d e
    .ok (code ++ [⟨.pop, e.span⟩])
  | none => .ok []

/-- The code that pushes the superclass of a class declared at `span`, if it has one, and a flag that
    tells whether it has. -/
def superclassCode (d : Distances) (span : Span) : Option Ident → List Instr
  | some ident => [⟨.lookup ident.name (d.get? ident.id), span⟩, ⟨.constant (.bool true), span⟩]
  | none => [⟨.constant (.bool false), span⟩]

mutual

/-- The code of an item that stands at `offset`. -/
def itemCode (c : Surroundings) (offset : Nat) : Item → Except Fault (List Instr)
  | .expr e span => do
    let code ← exprCode c.distances e
    .ok (code ++ [⟨.pop, span⟩])
  | .var name init span => do
    let code ← initCode c.distances span init
    .ok (code ++ [⟨.declareVar name, span⟩])
  | .block items span => do
    let code ← itemsCode c.inScope (offset + 1) items
    .ok (⟨.enterScope, span⟩ :: (code ++ [⟨.leaveScope 1, span⟩]))
  | .ifThen condition thenItem span => do
    let test ← exprCode c.distances condition
    let thenAt := offset + test.length + 2
    let thenCode ← itemCode c thenAt thenItem
    let elseAt := thenAt + thenCode.length + 1
    .ok (test ++ [⟨.jumpIfFalse elseAt, condition.span⟩, ⟨.pop, span⟩] ++ thenCode
      ++ [⟨.jump (elseAt + 1), span⟩, ⟨.pop, span⟩])
  | .ifElse condition thenItem elseItem span => do
    let test ← exprCode c.distances condition
    let thenAt := offset + test.length + 2
    let thenCode ← itemCode c thenAt thenItem
    let elseAt := thenAt + thenCode.length + 1
    let elseCode ← itemCode c (elseAt + 1) elseItem
    .ok (test ++ [⟨.jumpIfFalse elseAt, condition.span⟩, ⟨.pop, span⟩] ++ thenCode
      ++ [⟨.jump (elseAt + 1 + elseCode.length), span⟩, ⟨.pop, span⟩] ++ elseCode)
  | .while condition body increment span => do
    let test ← exprCode c.distances condition
    let bodyAt := offset + test.length + 2
    let next := bodyAt + body.size 0
    let exit := next + incrementSize increment + 1
    let bodyCode ← itemCode (c.inLoop (exit + 1) next) bodyAt body
    let step ← incrementCode c.distances increment
    .ok (test ++ [⟨.jumpIfFalse exit, condition.span⟩, ⟨.pop, span⟩] ++ bodyCode ++ step
      ++ [⟨.jump offset, span⟩, ⟨.pop, span⟩])
  | .repeat count body span => do
    let counter ← exprCode c.distances count
    let testAt := offset + counter.length
    let next := testAt + 1 + body.size 0
    let exit := next + 3
    let bodyCode ← itemCode (c.inLoop exit next) (testAt + 1) body
    .ok (counter ++ [⟨.repeatTest exit, count.span⟩] ++ bodyCode
      ++ [⟨.constant (.number .one), span⟩, ⟨.binary .minus, span⟩, ⟨.jump testAt, span⟩,
        ⟨.pop, span⟩])
  | .return (some e) span => do
    let code ← exprCode c.distances e
    .ok (code ++ [⟨.return, span⟩])
  | .return none span => .ok (c.bareReturn span)
  | .break span => .ok (c.leave (c.innermost.map (·.breakTo)) span)
  | .continue span => .ok (c.leave (c.innermost.map (·.continueTo)) span)
  | .assert condition message span => do
    let code ← exprCode c.distances condition
    .ok (code ++ [⟨.assert message, span⟩])
  | .assertFails e message span => do
    let code ← exprCode c.distances e
    .ok (⟨.failureBegin message (offset + code.length + 2), span⟩
      :: (code ++ [⟨.failureEnd, e.span⟩]))
  | .function decl span => .ok [⟨.function decl, span⟩]
  | .class name parent methods span =>
    .ok (superclassCode c.distances span parent ++ [⟨.class name methods, span⟩])

/-- The code of items that stand one after the other from `offset` on. -/
def itemsCode (c : Surroundings) (offset : Nat) : List Item → Except Fault (List Instr)
  | [] => .ok []
  | i :: is => do
    let code ← itemCode c offset i
    let rest ← itemsCode c (offset + code.length) is
    .ok (code ++ rest)

end

/-! ## Chunks -/

/-- The chunk of a program. -/
def programChunk (d : Distances) (name : String) (items : List Item) : Except Fault Chunk := do
  let code ← itemsCode { distances := d } 0 items
  .ok (Chunk.addAll { name } code)

/-- The chunk of a function, which ends with a return. -/
def functionChunk (d : Distances) (decl : FunctionDecl) : Except Fault Chunk := do
  let c : Surroundings := { distances := d, initialiser := decl.isInitialiser }
  let code ← itemsCode c 0 decl.body
  .ok (Chunk.addAll { name := decl.name } (code ++ c.bareReturn decl.span))

end Eleu
