import Eleu.Fault
import Eleu.Table
import Eleu.Tree

/-! # Scope resolution

    Before a program runs, each reference to a local variable is given its distance: how many
    scopes out the variable was declared. Blocks, functions, `this` and `super` open scopes; the
    outermost scope is not tracked, and a reference without a distance is global. Misuses that
    can be seen in the text alone are refused here.

    The resolver walks the tree with a stack of open scopes and notes each distance in a table. -/

namespace Eleu

/-- Distances by the id of the reference. -/
abbrev Distances := Table Nat Nat

/-- The names declared in a scope so far; `false` while the initialiser is being read. -/
abbrev Scope := Table String Bool

/-- What kind of function is being resolved. -/
inductive FunctionRole where
  | function | method | initialiser
deriving DecidableEq

/-- What kind of class is being resolved. -/
inductive ClassRole where
  | base | subclass
deriving DecidableEq

/-- The state of the resolver. -/
structure Resolver where
  /-- The open scopes, the innermost first. -/
  scopes : List Scope := []
  distances : Distances := {}
  function : Option FunctionRole := none
  classRole : Option ClassRole := none
  loopDepth : Nat := 0

/-- Computations of the resolver, which end at the first fault. -/
abbrev Resolve := StateT Resolver (Except Fault)

namespace Resolve

/-- Ends with a fault at `span`. -/
def refuse {α : Type} (cause : Cause) (span : Span) : Resolve α :=
  throw { cause, span := some span }

/-- Opens a scope. -/
def openScope : Resolve Unit := modify fun r => { r with scopes := {} :: r.scopes }

/-- Closes the innermost scope. -/
def closeScope : Resolve Unit := modify fun r => { r with scopes := r.scopes.tail }

/-- Adds a name to the innermost scope, which must not have it. Its initialiser comes next. -/
def declare (name : String) (span : Span) : Resolve Unit := do
  let r ← get
  match r.scopes with
  | [] => return ()
  | scope :: outer =>
    if scope.contains name then refuse (.redeclared name) span
    else set { r with scopes := scope.insert name false :: outer }

/-- Makes a name of the innermost scope ready for use. -/
def define (name : String) : Resolve Unit :=
  modify fun r =>
    match r.scopes with
    | [] => r
    | scope :: outer => { r with scopes := scope.insert name true :: outer }

/-- How many scopes out `name` is declared. -/
def distanceIn (name : String) : List Scope → Option Nat
  | [] => none
  | scope :: outer => if scope.contains name then some 0 else (distanceIn name outer).map (· + 1)

/-- Notes the distance of a reference to a local variable. -/
def reference (ident : Ident) : Resolve Unit :=
  modify fun r =>
    match distanceIn ident.name r.scopes with
    | some d => { r with distances := r.distances.insert ident.id d }
    | none => r

/-- A variable may not be read in its own initialiser. -/
def checkInitialised (ident : Ident) (span : Span) : Resolve Unit := do
  match (← get).scopes with
  | [] => return ()
  | scope :: _ =>
    if scope.get? ident.name = some false then refuse (.ownInitialiser ident.name) span

/-! ## Expressions -/

mutual

/-- Resolves an expression. -/
def expr : Expr → Resolve Unit
  | .literal _ _ => return ()
  | .list elements _ => exprs elements
  | .name ident span => do
    checkInitialised ident span
    reference ident
  | .assign target value _ => do
    expr value
    reference target
  | .unary _ operand _ => expr operand
  | .binary left _ right _ => do
    expr left
    expr right
  | .logical left _ right _ => do
    expr left
    expr right
  | .group inner _ => expr inner
  | .call callee args _ => do
    expr callee
    exprs args
  | .getField object _ _ => expr object
  | .setField object _ value _ => do
    expr value
    expr object
  | .this ident span => do
    if (← get).classRole.isNone then refuse .thisOutsideClass span
    reference ident
  | .super ident _ span => do
    match (← get).classRole with
    | none => refuse .superOutsideClass span
    | some .base => refuse .superWithoutParent span
    | some .subclass => reference ident

/-- Resolves expressions from left to right. -/
def exprs : List Expr → Resolve Unit
  | [] => return ()
  | e :: es => do
    expr e
    exprs es

end

/-- Resolves an expression that may be missing. -/
def optionalExpr : Option Expr → Resolve Unit
  | none => return ()
  | some e => expr e

/-! ## Statements and declarations -/

/-- Declares the parameters of a function that stands at `span`. -/
def parameters (span : Span) : List String → Resolve Unit
  | [] => return ()
  | name :: names => do
    declare name span
    define name
    parameters span names

/-- Whether a return statement is allowed here. -/
def checkReturn (value : Option Expr) (span : Span) : Resolve Unit := do
  match (← get).function with
  | none => refuse .returnOutsideFunction span
  | some .initialiser => if value.isSome then refuse .returnFromInitialiser span
  | some _ => return ()

/-- Whether `keyword` may leave or continue a loop here. -/
def checkLoop (keyword : String) (span : Span) : Resolve Unit := do
  if (← get).loopDepth = 0 then refuse (.loopControlOutsideLoop keyword) span

/-- Enters the body of a loop. -/
def enterLoop : Resolve Unit := modify fun r => { r with loopDepth := r.loopDepth + 1 }

/-- Leaves the body of a loop. -/
def leaveLoop : Resolve Unit := modify fun r => { r with loopDepth := r.loopDepth - 1 }

/-- Opens the scopes of the methods of a class, and notes the reference to its superclass. -/
def enterClass (name : String) (parent : Option Ident) (span : Span) : Resolve Unit := do
  match parent with
  | none => return ()
  | some ident =>
    if ident.name = name then refuse (.selfInheritance name) span
    reference ident
    modify fun r => { r with classRole := some .subclass }
    openScope
    define "super"

/-- What a method is resolved as. -/
def methodRole (d : FunctionDecl) : FunctionRole :=
  if d.name = "init" then .initialiser else .method

mutual

/-- Resolves an item. -/
def item : Item → Resolve Unit
  | .expr e _ => expr e
  | .var name init span => do
    declare name span
    optionalExpr init
    define name
  | .block body _ => do
    openScope
    items body
    closeScope
  | .ifThen condition thenItem _ => do
    expr condition
    item thenItem
  | .ifElse condition thenItem elseItem _ => do
    expr condition
    item thenItem
    item elseItem
  | .while condition body increment _ => do
    expr condition
    enterLoop
    item body
    leaveLoop
    optionalExpr increment
  | .repeat count body _ => do
    expr count
    enterLoop
    item body
    leaveLoop
  | .return value span => do
    checkReturn value span
    optionalExpr value
  | .break span => checkLoop "break" span
  | .continue span => checkLoop "continue" span
  | .assert condition _ _ => expr condition
  | .assertFails e _ _ => expr e
  | .function decl span => do
    declare decl.name span
    define decl.name
    function .function decl
  | .class name parent methods span => do
    let outer := (← get).classRole
    modify fun r => { r with classRole := some .base }
    declare name span
    define name
    enterClass name parent span
    openScope
    define "this"
    members methods
    closeScope
    if parent.isSome then closeScope
    modify fun r => { r with classRole := outer }

/-- Resolves items in order. -/
def items : List Item → Resolve Unit
  | [] => return ()
  | i :: is => do
    item i
    items is

/-- Resolves a function. Loops do not reach into it. -/
def function (role : FunctionRole) : FunctionDecl → Resolve Unit
  | ⟨_, _, _, _, params, body, span⟩ => do
    let outer ← get
    set { outer with function := some role, loopDepth := 0 }
    openScope
    parameters span params
    items body
    closeScope
    modify fun r => { r with function := outer.function, loopDepth := outer.loopDepth }

/-- Resolves methods in order. -/
def members : List FunctionDecl → Resolve Unit
  | [] => return ()
  | m :: ms => do
    function (methodRole m) m
    members ms

end

end Resolve

/-- The distances of all local references of a program, or its first static error. -/
def resolve (program : List Item) : Except Fault Distances :=
  ((Resolve.items program).run {}).map fun (_, r) => r.distances

end Eleu
