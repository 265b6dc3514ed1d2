import Eleu.Token

/-! # Syntax trees

    Expressions, statements and declarations, each with its span. Statements and declarations are
    both items. Every reference to a variable carries an id that is unique within its source
    text, and so does every function declaration; a declaration also carries the number of its
    source text, so that the two numbers name it among all declarations of a session. -/

namespace Eleu

/-- Prefix operators. -/
inductive UnaryOp where
  | not | negate
deriving DecidableEq

namespace UnaryOp

/-- The operator that a token stands for. -/
def ofKind? : TokenKind → Option UnaryOp
  | .symbol .bang => some .not
  | .symbol .minus => some .negate
  | _ => none

/-- The text of the operator. -/
def text : UnaryOp → String
  | .not => "!"
  | .negate => "-"

end UnaryOp

/-- Operators on two values. -/
inductive BinaryOp where
  | divide | multiply | modulo | plus | minus
  | greater | greaterEqual | less | lessEqual | notEqual | equal
deriving DecidableEq

namespace BinaryOp

/-- The operator that a token stands for. -/
def ofKind? : TokenKind → Option BinaryOp
  | .symbol .slash => some .divide
  | .symbol .star => some .multiply
  | .symbol .percent => some .modulo
  | .symbol .plus => some .plus
  | .symbol .minus => some .minus
  | .symbol .greater => some .greater
  | .symbol .greaterEqual => some .greaterEqual
  | .symbol .less => some .less
  | .symbol .lessEqual => some .lessEqual
  | .symbol .bangEqual => some .notEqual
  | .symbol .equalEqual => some .equal
  | _ => none

/-- The text of the operator. -/
def text : BinaryOp → String
  | .divide => "/"
  | .multiply => "*"
  | .modulo => "%"
  | .plus => "+"
  | .minus => "-"
  | .greater => ">"
  | .greaterEqual => ">="
  | .less => "<"
  | .lessEqual => "<="
  | .notEqual => "!="
  | .equal => "=="

end BinaryOp

/-- Operators on two truth values. -/
inductive LogicalOp where
  | and | or
deriving DecidableEq

namespace LogicalOp

/-- The operator that a token stands for. -/
def ofKind? : TokenKind → Option LogicalOp
  | .keyword .and => some .and
  | .keyword .or => some .or
  | _ => none

/-- The text of the operator. -/
def text : LogicalOp → String
  | .and => "and"
  | .or => "or"

end LogicalOp

/-- Values that are written out in the source. -/
inductive Literal where
  | number (x : Float)
  | string (s : String)
  | bool (b : Bool)
  | nil

/-- A reference to a variable. -/
structure Ident where
  name : String
  id : Nat
deriving DecidableEq

/-- Expressions. -/
inductive Expr where
  | literal (value : Literal) (span : Span)
  | list (elements : List Expr) (span : Span)
  | name (ident : Ident) (span : Span)
  | assign (target : Ident) (value : Expr) (span : Span)
  | unary (op : UnaryOp) (operand : Expr) (span : Span)
  | binary (left : Expr) (op : BinaryOp) (right : Expr) (span : Span)
  | logical (left : Expr) (op : LogicalOp) (right : Expr) (span : Span)
  | group (inner : Expr) (span : Span)
  | call (callee : Expr) (args : List Expr) (span : Span)
  | getField (object : Expr) (field : String) (span : Span)
  | setField (object : Expr) (field : String) (value : Expr) (span : Span)
  | this (ident : Ident) (span : Span)
  | super (ident : Ident) (method : String) (span : Span)

/-- The place of an expression. -/
def Expr.span : Expr → Span
  | .literal _ s | .list _ s | .name _ s | .assign _ _ s | .unary _ _ s | .binary _ _ _ s
  | .logical _ _ _ s | .group _ s | .call _ _ s | .getField _ _ s | .setField _ _ _ s
  | .this _ s | .super _ _ s => s

/-- Whether a declaration is a function on its own or a method of a class. -/
inductive FunctionKind where
  | function | method
deriving DecidableEq

mutual

/-- Statements and declarations. -/
inductive Item where
  | expr (e : Expr) (span : Span)
  | var (name : String) (init : Option Expr) (span : Span)
  | block (items : List Item) (span : Span)
  | ifThen (condition : Expr) (thenItem : Item) (span : Span)
  | ifElse (condition : Expr) (thenItem elseItem : Item) (span : Span)
  /-- The increment runs after every round, also after one that `continue` cut short. -/
  | while (condition : Expr) (body : Item) (increment : Option Expr) (span : Span)
  | repeat (count : Expr) (body : Item) (span : Span)
  | return (value : Option Expr) (span : Span)
  | break (span : Span)
  | continue (span : Span)
  | assert (condition : Expr) (message : Option String) (span : Span)
  /-- The expression must fail, and with the given message if there is one. -/
  | assertFails (e : Expr) (message : Option String) (span : Span)
  | function (decl : FunctionDecl) (span : Span)
  | class (name : String) (parent : Option Ident) (methods : List FunctionDecl) (span : Span)

/-- The declaration of a function or method. `unit` numbers the source text and `id` the declaration
    within it. -/
structure FunctionDecl where
  unit : Nat
  id : Nat
  kind : FunctionKind
  name : String
  params : List String
  body : List Item
  span : Span

end

/-- The place of an item. -/
def Item.span : Item → Span
  | .expr _ s | .var _ _ s | .block _ s | .ifThen _ _ s | .ifElse _ _ _ s | .while _ _ _ s
  | .repeat _ _ s | .return _ s | .break s | .continue s | .assert _ _ s | .assertFails _ _ s
  | .function _ s | .class _ _ _ s => s

/-- Whether a declaration makes new instances ready for use. -/
def FunctionDecl.isInitialiser (d : FunctionDecl) : Bool :=
  d.kind == .method && d.name == "init"

/-! ## All declarations of a text -/

mutual

/-- The function and method declarations in an item, outer ones first and in the order of the text. -/
def Item.declarations : Item → List FunctionDecl
  | .block items _ => declarationsIn items
  | .ifThen _ t _ => t.declarations
  | .ifElse _ t e _ => t.declarations ++ e.declarations
  | .while _ body _ _ => body.declarations
  | .repeat _ body _ => body.declarations
  | .function decl _ => decl.declarations
  | .class _ _ methods _ => declarationsInMethods methods
  | _ => []

/-- A declaration and those in its body. -/
def FunctionDecl.declarations : FunctionDecl → List FunctionDecl
  | ⟨unit, id, kind, name, params, body, span⟩ =>
    ⟨unit, id, kind, name, params, body, span⟩ :: declarationsIn body

/-- The declarations in a list of items. -/
def declarationsIn : List Item → List FunctionDecl
  | [] => []
  | item :: items => item.declarations ++ declarationsIn items

/-- The declarations in a list of methods. -/
def declarationsInMethods : List FunctionDecl → List FunctionDecl
  | [] => []
  | m :: ms => m.declarations ++ declarationsInMethods ms

end

end Eleu
