import Eleu.Proofs.Walker.Evaluate
import Mathlib.Logic.Relation

/-! # What a run of the walker comes to

    The walker is a recursive function, so that its run has no states to point at. A `Visit` takes
    their place: a task, the fuel for it, and the state in which the walker sets about it. A visit
    leads to others, one for each recursive call (`Visit.Calls`); a call that comes after another
    one is made in the state in which that one has ended. -/

namespace Eleu

/-- What the walker can be asked to do. -/
inductive Task where
  | expr (e : Expr)
  | exprs (es : List Expr)
  | call (callee : Value) (args : List Value) (span : Span)
  | closure (c : Closure) (args : List Value) (span : Span)
  | item (i : Item)
  | items (is : List Item)
  | statement (i : Item)
  | whileLoop (condition : Expr) (body : Item) (increment : Option Expr)
  | repeatLoop (times : Nat) (body : Item)
  | program (is : List Item)

/-- What a task gives. -/
abbrev Task.Result : Task → Type
  | .expr _ | .call _ _ _ | .closure _ _ _ => Value
  | .exprs _ => List Value
  | .item _ | .items _ | .statement _ | .whileLoop _ _ _ | .repeatLoop _ _ => Flow
  | .program _ => Unit

/-- Does a task. -/
def Task.run (o : Options) (fuel : Nat) : (t : Task) → Walk t.Result
  | .expr e => Walk.expr o fuel e
  | .exprs es => Walk.exprs o fuel es
  | .call callee args span => Walk.call o fuel callee args span
  | .closure c args span => Walk.closure o fuel c args span
  | .item i => Walk.item o fuel i
  | .items is => Walk.items o fuel is
  | .statement i => Walk.statement o fuel i
  | .whileLoop c body increment => Walk.whileLoop o fuel c body increment
  | .repeatLoop times body => Walk.repeatLoop o fuel times body
  | .program is => Walk.program o fuel is

/-- The walker sets about a task, with some fuel and in some state. -/
structure Visit where
  fuel : Nat
  task : Task
  state : Walker

namespace Visit

/-- The outcome of a visit. -/
def outcome (o : Options) (v : Visit) : EStateM.Result Interrupt Walker v.task.Result :=
  v.task.run o v.fuel v.state

/-- A visit makes another one: one of its recursive calls. -/
inductive Calls (o : Options) : Visit → Visit → Prop where
  -- expressions
  | list : Calls o ⟨n + 1, .expr (.list elements span), w⟩ ⟨n, .exprs elements, w⟩
  | assign : Calls o ⟨n + 1, .expr (.assign target value span), w⟩ ⟨n, .expr value, w⟩
  | unary : Calls o ⟨n + 1, .expr (.unary uop e span), w⟩ ⟨n, .expr e, w⟩
  | binaryLeft : Calls o ⟨n + 1, .expr (.binary l bop r span), w⟩ ⟨n, .expr l, w⟩
  | binaryRight (left : Walk.expr o n l w = .ok x w') :
      Calls o ⟨n + 1, .expr (.binary l bop r span), w⟩ ⟨n, .expr r, w'⟩
  | logicalLeft : Calls o ⟨n + 1, .expr (.logical l lop r span), w⟩ ⟨n, .expr l, w⟩
  | logicalRight (left : Walk.expr o n l w = .ok x w') :
      Calls o ⟨n + 1, .expr (.logical l lop r span), w⟩ ⟨n, .expr r, w'⟩
  | group : Calls o ⟨n + 1, .expr (.group e span), w⟩ ⟨n, .expr e, w⟩
  | args : Calls o ⟨n + 1, .expr (.call callee args span), w⟩ ⟨n, .exprs args, w⟩
  | callee (evaluated : Walk.exprs o n args w = .ok vs w') :
      Calls o ⟨n + 1, .expr (.call callee args span), w⟩ ⟨n, .expr callee, w'⟩
  | call (evaluated : Walk.exprs o n args w = .ok vs w') (found : Walk.expr o n callee w' = .ok f w'') :
      Calls o ⟨n + 1, .expr (.call callee args span), w⟩ ⟨n, .call f vs span, w''⟩
  | getField : Calls o ⟨n + 1, .expr (.getField object field span), w⟩ ⟨n, .expr object, w⟩
  | setFieldObject :
      Calls o ⟨n + 1, .expr (.setField object field value span), w⟩ ⟨n, .expr object, w⟩
  | setFieldValue {q : InstanceRef} (found : Walk.expr o n object w = .ok (.object q) w') :
      Calls o ⟨n + 1, .expr (.setField object field value span), w⟩ ⟨n, .expr value, w'⟩
  | first : Calls o ⟨n + 1, .exprs (e :: es), w⟩ ⟨n, .expr e, w⟩
  | rest (evaluated : Walk.expr o n e w = .ok x w') :
      Calls o ⟨n + 1, .exprs (e :: es), w⟩ ⟨n, .exprs es, w'⟩
  -- calls
  | closure {w : Walker} {k : Closure} {vs : List Value}
      (arity : w.world.store.checkArity (.closure k) vs.length = .ok ()) :
      Calls o ⟨n + 1, .call (.callable (.closure k)) vs span, w⟩ ⟨n, .closure k vs span, w⟩
  | init {w : Walker} {vs : List Value}
      (arity : w.world.store.checkArity (.classRef q) vs.length = .ok ())
      (found : (w.world.store.newInstance q).2.findMethod? q "init" = some m) :
      Calls o ⟨n + 1, .call (.callable (.classRef q)) vs span, w⟩
        ⟨n, .closure (w.bound q m).1 vs span, w.setStore (w.bound q m).2⟩
  | body {w : Walker} {k : Closure} (room : w.calls.length < o.maxCallDepth) :
      Calls o ⟨n + 1, .closure k vs span, w⟩ ⟨n, .items k.decl.body, w.inBody k vs span⟩
  -- items
  | statement {i : Item} {w' : Walker} (proceeds : Walk.poll o i.span w = .ok () w') :
      Calls o ⟨n + 1, .item i, w⟩ ⟨n, .statement i, { w' with count := w'.count + 1 }⟩
  | firstItem : Calls o ⟨n + 1, .items (i :: is), w⟩ ⟨n, .item i, w⟩
  | restItems (executed : Walk.item o n i w = .ok .next w') :
      Calls o ⟨n + 1, .items (i :: is), w⟩ ⟨n, .items is, w'⟩
  -- statements
  | exprItem : Calls o ⟨n + 1, .statement (.expr e span), w⟩ ⟨n, .expr e, w⟩
  | var : Calls o ⟨n + 1, .statement (.var name (some e) span), w⟩ ⟨n, .expr e, w⟩
  | block {w : Walker} : Calls o ⟨n + 1, .statement (.block is span), w⟩ ⟨n, .items is, w.inScope⟩
  | ifThenTest : Calls o ⟨n + 1, .statement (.ifThen c t span), w⟩ ⟨n, .expr c, w⟩
  | ifThen {w' : Walker} (tested : Walk.expr o n c w = .ok x w') (holds : w'.world.store.truth x = .ok true) :
      Calls o ⟨n + 1, .statement (.ifThen c t span), w⟩ ⟨n, .item t, w'⟩
  | ifElseTest : Calls o ⟨n + 1, .statement (.ifElse c thenItem elseItem span), w⟩ ⟨n, .expr c, w⟩
  | ifElseThen {w' : Walker} (tested : Walk.expr o n c w = .ok x w') (holds : w'.world.store.truth x = .ok true) :
      Calls o ⟨n + 1, .statement (.ifElse c thenItem elseItem span), w⟩ ⟨n, .item thenItem, w'⟩
  | ifElseElse {w' : Walker} (tested : Walk.expr o n c w = .ok x w') (fails : w'.world.store.truth x = .ok false) :
      Calls o ⟨n + 1, .statement (.ifElse c thenItem elseItem span), w⟩ ⟨n, .item elseItem, w'⟩
  | «while» : Calls o ⟨n + 1, .statement (.while c body increment span), w⟩
      ⟨n, .whileLoop c body increment, w⟩
  | repeatCount : Calls o ⟨n + 1, .statement (.repeat count body span), w⟩ ⟨n, .expr count, w⟩
  | «repeat» {w' : Walker} (counted : Walk.expr o n count w = .ok x w')
      (whole : w'.world.store.rounds x = .ok times) :
      Calls o ⟨n + 1, .statement (.repeat count body span), w⟩ ⟨n, .repeatLoop times body, w'⟩
  | «return» : Calls o ⟨n + 1, .statement (.return (some e) span), w⟩ ⟨n, .expr e, w⟩
  | assert : Calls o ⟨n + 1, .statement (.assert c message span), w⟩ ⟨n, .expr c, w⟩
  | assertFails : Calls o ⟨n + 1, .statement (.assertFails e message span), w⟩ ⟨n, .expr e, w⟩
  -- loops
  | whileTest : Calls o ⟨n + 1, .whileLoop c body increment, w⟩ ⟨n, .expr c, w⟩
  | whileBody {w' : Walker} (tested : Walk.expr o n c w = .ok x w') (holds : w'.world.store.truth x = .ok true) :
      Calls o ⟨n + 1, .whileLoop c body increment, w⟩ ⟨n, .item body, w'⟩
  | increment {w' : Walker} (tested : Walk.expr o n c w = .ok x w') (holds : w'.world.store.truth x = .ok true)
      (executed : Walk.item o n body w' = .ok flow w'') (proceeds : Walk.afterRound flow = none) :
      Calls o ⟨n + 1, .whileLoop c body (some e), w⟩ ⟨n, .expr e, w''⟩
  | whileAgain {w' : Walker} (tested : Walk.expr o n c w = .ok x w') (holds : w'.world.store.truth x = .ok true)
      (executed : Walk.item o n body w' = .ok flow w'') (proceeds : Walk.afterRound flow = none) :
      Calls o ⟨n + 1, .whileLoop c body none, w⟩ ⟨n, .whileLoop c body none, w''⟩
  | forAgain {w' : Walker} (tested : Walk.expr o n c w = .ok x w') (holds : w'.world.store.truth x = .ok true)
      (executed : Walk.item o n body w' = .ok flow w'') (proceeds : Walk.afterRound flow = none)
      (incremented : Walk.expr o n e w'' = .ok v w₃) :
      Calls o ⟨n + 1, .whileLoop c body (some e), w⟩ ⟨n, .whileLoop c body (some e), w₃⟩
  | repeatBody : Calls o ⟨n + 1, .repeatLoop (times + 1) body, w⟩ ⟨n, .item body, w⟩
  | repeatAgain (executed : Walk.item o n body w = .ok flow w') (proceeds : Walk.afterRound flow = none) :
      Calls o ⟨n + 1, .repeatLoop (times + 1) body, w⟩ ⟨n, .repeatLoop times body, w'⟩
  -- programs
  | firstOfProgram : Calls o ⟨n + 1, .program (i :: is), w⟩ ⟨n, .item i, w⟩
  | restOfProgram (executed : Walk.item o n i w = .ok flow w') :
      Calls o ⟨n + 1, .program (i :: is), w⟩ ⟨n, .program is, w'⟩

/-- A visit leads to another one, directly or through others. -/
abbrev Leads (o : Options) : Visit → Visit → Prop := Relation.ReflTransGen (Calls o)

end Visit

end Eleu
