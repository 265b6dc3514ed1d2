import Eleu.Token

/-! # Syntax errors

    What can be wrong with a source text before it is run, with its place and its wording. -/

namespace Eleu

/-- Why a source text is rejected. -/
inductive SyntaxError where
  | lexical (e : LexicalError)
  | expressionExpected
  | elseWithoutIf
  | nameExpected
  | invalidTarget
  | invalidStatement
  | numberOutOfRange
  | keywordAsName (word : String)
  | declarationAsBody (word : String)
  | emptyBody
  | tooManyParameters
  | tooManyArguments
  | semicolonExpected
  | dotExpected
  | openingParenExpected
  | closingParenExpected
  | openingBraceExpected
  | closingBraceExpected
  | closingBracketExpected
  | superclassExpected
deriving DecidableEq

/-- The wording of a syntax error. -/
def SyntaxError.message : SyntaxError → String
  | .lexical e => e.message
  | .expressionExpected => "expression expected"
  | .elseWithoutIf => "'else' without a matching 'if'"
  | .nameExpected => "expected identifier"
  | .invalidTarget => "invalid assignment target"
  | .invalidStatement =>
    "only variable assignments 'name = ...' or function calls 'name(...)' may be used as statements"
  | .numberOutOfRange => "number literal is out of range"
  | .keywordAsName word => "a keyword cannot be used as a name ('" ++ word ++ "')"
  | .declarationAsBody word =>
    "a declaration is not allowed here, wrap it in a block ('" ++ word ++ "')"
  | .emptyBody => "a ';' directly after ')' leaves the body empty"
  | .tooManyParameters => "a function cannot have more than 255 parameters"
  | .tooManyArguments => "a call cannot have more than 255 arguments"
  | .semicolonExpected => "expected ';'"
  | .dotExpected => "expected '.' after 'super'"
  | .openingParenExpected => "expected '('"
  | .closingParenExpected => "expected ')'"
  | .openingBraceExpected => "expected '\x7b'"
  | .closingBraceExpected => "expected '\x7d'"
  | .closingBracketExpected => "expected ']'"
  | .superclassExpected => "expected superclass name"

/-- A syntax error and its place. -/
structure Diagnostic where
  span : Span
  cause : SyntaxError
deriving DecidableEq

/-- The line that reports the error. -/
def Diagnostic.text (d : Diagnostic) : String := d.span.text ++ ": " ++ d.cause.message

end Eleu
