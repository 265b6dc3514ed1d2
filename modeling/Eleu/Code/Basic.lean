import Eleu.Store.Display

/-! # Code of the stack machine

    A chunk is the code of a program or of one function: a sequence of operations and, beside it, the
    places in the source that they come from. -/

namespace Eleu

/-- What an instruction does. A `depth` is the distance of a local variable; globals have none. -/
inductive Op where
  /-- Pushes a value. Constants do not refer to the store. -/
  | constant (v : Value)
  | pop
  /-- Pops the initial value of a variable and declares it in the current scope. -/
  | declareVar (name : String)
  /-- Defines a function that closes over the current scope. -/
  | function (decl : FunctionDecl)
  /-- Pops a flag and, if it is set, the superclass, and executes a class statement. -/
  | class (name : String) (methods : List FunctionDecl)
  | lookup (name : String) (depth : Option Nat)
  /-- Changes a variable to the value on top of the stack, which stays there. -/
  | assign (name : String) (depth : Option Nat)
  | getField (name : String)
  | setField (name : String)
  | getSuper (method : String) (depth : Nat)
  | unary (op : UnaryOp)
  | binary (op : BinaryOp)
  | logical (op : LogicalOp)
  | jump (target : Nat)
  /-- Jumps if the value on top of the stack is false, and leaves it there. -/
  | jumpIfFalse (target : Nat)
  /-- Checks the counter on top of the stack, and jumps once it is zero. -/
  | repeatTest (target : Nat)
  | enterScope
  | leaveScope (count : Nat)
  /-- Pops the callee and then its arguments. -/
  | call (count : Nat)
  | return
  | assert (message : Option String)
  /-- Installs a handler that goes on at `catchAt` when a fault arises before the matching end. -/
  | failureBegin (message : Option String) (catchAt : Nat)
  | failureEnd

/-- A number with at least four digits. -/
def fourDigits (n : Nat) : String :=
  let digits := toString n
  "".pushn '0' (4 - digits.length) ++ digits

namespace Op

/-- The target of a jump that leads nowhere. -/
def nowhere : Nat := Nat.pow 2 64 - 1

/-- The distance in the text of an instruction. -/
def depthText : Option Nat → String
  | some d => "@" ++ toString d
  | none => ""

/-- The text of an instruction. -/
def text : Op → String
  | .constant v => "CONSTANT " ++ ({} : Store).repr v
  | .pop => "POP"
  | .declareVar name => "DECLARE_VAR " ++ name
  | .function decl => "FUNCTION " ++ decl.name
  | .class name methods => "CLASS " ++ name ++ " (" ++ toString methods.length ++ " methods)"
  | .lookup name depth => "LOOKUP_VAR " ++ name ++ depthText depth
  | .assign name depth => "ASSIGN_VAR " ++ name ++ depthText depth
  | .getField name => "GET_FIELD " ++ name
  | .setField name => "SET_FIELD " ++ name
  | .getSuper method depth => "GET_SUPER " ++ method ++ "@" ++ toString depth
  | .unary op => "UNARY " ++ op.text
  | .binary op => "BINARY " ++ op.text
  | .logical op => "LOGICAL " ++ op.text
  | .jump target => "JUMP " ++ fourDigits target
  | .jumpIfFalse target => "JUMP_IF_FALSE " ++ fourDigits target
  | .repeatTest target => "REPEAT_TEST " ++ fourDigits target
  | .enterScope => "ENTER_SCOPE"
  | .leaveScope count => "LEAVE_SCOPE " ++ toString count
  | .call count => "CALL " ++ toString count
  | .return => "RETURN"
  | .assert _ => "ASSERT"
  | .failureBegin _ catchAt => "ASSERT_ERROR_BEGIN " ++ fourDigits catchAt
  | .failureEnd => "ASSERT_ERROR_END"

/-- The instruction with another target, if it is a jump. -/
def retarget (target : Nat) : Op → Op
  | .jump _ => .jump target
  | .jumpIfFalse _ => .jumpIfFalse target
  | .repeatTest _ => .repeatTest target
  | .failureBegin message _ => .failureBegin message target
  | op => op

end Op

/-- An instruction and the place it comes from, if that is known. -/
structure Instr where
  op : Op
  span : Option Span

/-- The code of a program or function. -/
structure Chunk where
  name : String
  ops : Array Op := #[]
  spans : Array (Option Span) := #[]

namespace Chunk

/-- Appends an instruction. -/
def add (c : Chunk) (i : Instr) : Chunk :=
  { c with ops := c.ops.push i.op, spans := c.spans.push i.span }

/-- Appends instructions one after the other. -/
def addAll (c : Chunk) (code : List Instr) : Chunk := code.foldl add c

/-- Points the jump at `offset` to `target`; any other instruction is left alone. -/
def patch (c : Chunk) (offset target : Nat) : Chunk :=
  { c with ops := c.ops.modify offset (·.retarget target) }

/-- The place that the instruction at `offset` comes from, if it is known. -/
def span? (c : Chunk) (offset : Nat) : Option Span := c.spans[offset]?.join

/-- The instruction at `offset`. -/
def instr? (c : Chunk) (offset : Nat) : Option Instr :=
  c.ops[offset]?.map fun op => { op, span := c.span? offset }

/-- The text of the instruction at `offset`. -/
def decode (c : Chunk) (offset : Nat) : String :=
  fourDigits offset ++ " " ++
    match c.ops[offset]? with
    | some op => op.text
    | none => "invalid offset"

/-- The text of the chunk, one instruction a line. -/
def text (c : Chunk) : String :=
  (List.range c.ops.size).foldl (fun t i => t ++ c.decode i ++ "\n") ("=== " ++ c.name ++ " ===\n")

end Chunk

end Eleu
