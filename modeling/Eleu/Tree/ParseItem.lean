import Eleu.Token.Scan
import Eleu.Tree.ParseExpr

/-! # Parsing statements and declarations

    A program is a list of items. An item that is not well formed is reported; when recovering, the
    parser then goes on at the next statement of the same block. A `for` loop is read as a `while`
    loop with an increment, inside a block of its own when it starts with an initialiser. -/

namespace Eleu

namespace Parser

/-- Takes the semicolon that ends a statement. -/
def semicolon : Parser Unit := do
  let _ ← expect (.symbol .semicolon) .semicolonExpected

/-- A condition or count in parentheses. -/
def parenthesised (n : Nat) : Parser Expr := do
  let _ ← expect (.symbol .leftParen) .openingParenExpected
  let e ← expression n
  let _ ← expect (.symbol .rightParen) .closingParenExpected
  return e

/-- Rejects a body that is a declaration and, directly after a closing parenthesis, one that is
    empty. -/
def checkBody (afterParen : Bool) : Parser Unit := do
  let t ← peek
  match t.kind with
  | .symbol .semicolon => if afterParen then reject t.span .emptyBody
  | .keyword .var | .keyword .fun | .keyword .class => reject t.span (.declarationAsBody t.lexeme)
  | _ => return ()

/-- The declaration of a variable. -/
def varDeclaration (n : Nat) : Parser Item := do
  let start := (← advance).span
  let t ← peek
  if t.kind.isKeyword then reject t.span (.keywordAsName t.lexeme)
  let name ← expect .name .nameExpected
  let init ← if ← accept (.symbol .equal) then some <$> expression n else pure none
  semicolon
  return .var name.lexeme init (← spanFrom start)

/-- An assertion. -/
def assertion (n : Nat) : Parser Item := do
  let start := (← advance).span
  let fails ← accept (.keyword .break)
  let e ← expression n
  let t ← peek
  let message := if t.kind == .string then some t.lexeme else none
  let _ ← accept .string
  semicolon
  let span ← spanFrom start
  return if fails then .assertFails e message span else .assert e message span

/-- A return statement. -/
def returnStatement (n : Nat) : Parser Item := do
  let start := (← advance).span
  let value ← if ← check (.symbol .semicolon) then pure none else some <$> expression n
  semicolon
  return .return value (← spanFrom start)

/-- The expressions that may stand alone as a statement. -/
def standsAlone : Expr → Bool
  | .assign .. | .setField .. | .call .. => true
  | _ => false

/-- An expression as a statement. The initialiser of a `for` is not `restricted` to expressions that
    do something. A semicolon alone is the empty statement. -/
def expressionStatement (n : Nat) (restricted : Bool) : Parser Item := do
  let start := (← peek).span
  if ← accept (.symbol .semicolon) then return .expr (.literal .nil start) start
  let e ← expression n
  if restricted && !standsAlone e then reject e.span .invalidStatement
  semicolon
  return .expr e (← spanFrom start)

/-- The initialiser of a `for`, if it has one. -/
def forInitialiser (n : Nat) : Parser (Option Item) := do
  match (← peek).kind with
  | .symbol .semicolon =>
    let _ ← advance
    return none
  | .keyword .var => some <$> varDeclaration n
  | _ => some <$> expressionStatement n false

/-- The head of a `for`, after the keyword at `start`: initialiser, condition and increment. Without
    a condition the loop goes on for ever. -/
def forHead (n : Nat) (start : Span) : Parser (Option Item × Expr × Option Expr) := do
  let _ ← expect (.symbol .leftParen) .openingParenExpected
  let init ← forInitialiser n
  let condition ←
    if ← check (.symbol .semicolon) then pure (.literal (.bool true) start) else expression n
  semicolon
  let increment ←
    if ← check (.symbol .rightParen) then pure none else some <$> expression n
  let _ ← expect (.symbol .rightParen) .closingParenExpected
  return (init, condition, increment)

/-- The item that a `for` stands for. -/
def forLoop (init : Option Item) (condition : Expr) (increment : Option Expr) (body : Item)
    (span : Span) : Item :=
  let loop := Item.while condition body increment span
  match init with
  | some item => .block [item, loop] span
  | none => loop

/-- The parameters of a function after the first `count`. -/
def parameters : (rounds count : Nat) → Parser (List String)
  | 0, _ => throw .outOfRounds
  | n + 1, count => do
    if maxArguments ≤ count then reject (← peek).span .tooManyParameters
    let name ← expect .name .nameExpected
    if ← accept (.symbol .comma) then return name.lexeme :: (← parameters n (count + 1))
    else return [name.lexeme]

/-- The superclass in the head of a class, if there is one. -/
def superclass : Parser (Option Ident) := do
  if ← accept (.symbol .less) then
    let parent ← expect .name .superclassExpected
    some <$> freshIdent parent.lexeme
  else
    return none

/-- Runs `p`; when recovering, an error is noted down and parsing goes on after it. -/
def recovering {α : Type} (r : Recovery) (p : Parser α) : Parser (Option α) := fun c =>
  match p c with
  | .ok a c => .ok (some a) c
  | .error .outOfRounds c => .error .outOfRounds c
  | .error (.error d) c =>
    match r with
    | .stop => .error (.error d) c
    | .resume => .ok none { c with reported := d :: c.reported }.recover

mutual

/-- An item, or nothing if it was reported and skipped. -/
def declaration (r : Recovery) (unit : Nat) : (rounds : Nat) → Parser (Option Item)
  | 0 => throw .outOfRounds
  | n + 1 => recovering r (item r unit n)

/-- A declaration or a statement. -/
def item (r : Recovery) (unit : Nat) : (rounds : Nat) → Parser Item
  | 0 => throw .outOfRounds
  | n + 1 => do
    match (← peek).kind with
    | .keyword .fun =>
      let start := (← advance).span
      let decl ← function r unit n .function start
      return .function decl decl.span
    | .keyword .class => classDeclaration r unit n
    | .keyword .var => varDeclaration n
    | _ => statement r unit n

/-- A statement. -/
def statement (r : Recovery) (unit : Nat) : (rounds : Nat) → Parser Item
  | 0 => throw .outOfRounds
  | n + 1 => do
    let t ← peek
    match t.kind with
    | .keyword .assert => assertion n
    | .symbol .leftBrace =>
      let start := (← advance).span
      let items ← blockItems r unit n
      return .block items (← spanFrom start)
    | .keyword .for =>
      let start := (← advance).span
      let (init, condition, increment) ← forHead n start
      let body ← bodyStatement r unit n true
      return forLoop init condition increment body (← spanFrom start)
    | .keyword .if =>
      let start := (← advance).span
      let condition ← parenthesised n
      let thenItem ← bodyStatement r unit n true
      if ← accept (.keyword .else) then
        let elseItem ← bodyStatement r unit n false
        return .ifElse condition thenItem elseItem (← spanFrom start)
      else
        return .ifThen condition thenItem (← spanFrom start)
    | .keyword .return => returnStatement n
    | .keyword .while =>
      let start := (← advance).span
      let condition ← parenthesised n
      let body ← bodyStatement r unit n true
      return .while condition body none (← spanFrom start)
    | .keyword .repeat =>
      let start := (← advance).span
      let count ← parenthesised n
      let body ← bodyStatement r unit n true
      return .repeat count body (← spanFrom start)
    | .keyword .break =>
      let start := (← advance).span
      semicolon
      return .break (← spanFrom start)
    | .keyword .continue =>
      let start := (← advance).span
      semicolon
      return .continue (← spanFrom start)
    | _ => expressionStatement n true

/-- The statement that is the body of a loop or a branch. -/
def bodyStatement (r : Recovery) (unit : Nat) : (rounds : Nat) → (afterParen : Bool) → Parser Item
  | 0, _ => throw .outOfRounds
  | n + 1, afterParen => do
    checkBody afterParen
    statement r unit n

/-- The items of a block up to its closing brace, which is taken. -/
def blockItems (r : Recovery) (unit : Nat) : (rounds : Nat) → Parser (List Item)
  | 0 => throw .outOfRounds
  | n + 1 => do
    if (← check (.symbol .rightBrace)) || (← atEnd) then
      let _ ← expect (.symbol .rightBrace) .closingBraceExpected
      return []
    else
      let first ← declaration r unit n
      let items ← blockItems r unit n
      return first.toList ++ items

/-- A function or method from its name on. Its id is handed out after those in its body. -/
def function (r : Recovery) (unit : Nat) :
    (rounds : Nat) → FunctionKind → (start : Span) → Parser FunctionDecl
  | 0, _, _ => throw .outOfRounds
  | n + 1, kind, start => do
    let name ← expect .name .nameExpected
    let _ ← expect (.symbol .leftParen) .openingParenExpected
    let params ← if ← check (.symbol .rightParen) then pure [] else parameters n 0
    let _ ← expect (.symbol .rightParen) .closingParenExpected
    let _ ← expect (.symbol .leftBrace) .openingBraceExpected
    let body ← blockItems r unit n
    let id ← freshId
    let span ← spanFrom start
    return { unit, id, kind, name := name.lexeme, params, body, span }

/-- A class. -/
def classDeclaration (r : Recovery) (unit : Nat) : (rounds : Nat) → Parser Item
  | 0 => throw .outOfRounds
  | n + 1 => do
    let start := (← advance).span
    let name ← expect .name .nameExpected
    let parent ← superclass
    let _ ← expect (.symbol .leftBrace) .openingBraceExpected
    let members ← methods r unit n
    let _ ← expect (.symbol .rightBrace) .closingBraceExpected
    return .class name.lexeme parent members (← spanFrom start)

/-- The methods of a class up to its closing brace, which is not taken. -/
def methods (r : Recovery) (unit : Nat) : (rounds : Nat) → Parser (List FunctionDecl)
  | 0 => throw .outOfRounds
  | n + 1 => do
    if (← check (.symbol .rightBrace)) || (← atEnd) then return []
    else
      let start := (← peek).span
      let method ← function r unit n .method start
      return method :: (← methods r unit n)

end

/-- The items of a whole token list. -/
def program (r : Recovery) (unit : Nat) : (rounds : Nat) → Parser (List Item)
  | 0 => throw .outOfRounds
  | n + 1 => do
    if ← atEnd then return []
    else
      let first ← declaration r unit n
      let items ← program r unit n
      return first.toList ++ items

end Parser

/-! ## Whole texts -/

/-- Leaves one of each run of equal errors. -/
def squeeze : List Diagnostic → List Diagnostic
  | [] => []
  | d :: ds =>
    match squeeze ds with
    | [] => [d]
    | e :: es => if d = e then e :: es else d :: e :: es

/-- Enough rounds for a token list: between two tokens fewer than sixteen grammar rules are
    entered. -/
def roundsFor (tokens : List Token) : Nat := 16 * (tokens.length + 1)

/-- Adds the lexical error that closes the token list to the errors found before it, which stand
    latest first. Where parsing stops at the first error, an earlier one makes it superfluous. -/
def withLexicalError (r : Recovery) (closing : Token) (errors : List Diagnostic) : List Diagnostic :=
  match closing.kind with
  | .invalid e =>
    if errors.isEmpty || r == .resume then ⟨closing.span, .lexical e⟩ :: errors else errors
  | _ => errors

/-- The items of a token list, or its errors in the order in which they were found. `unit` numbers the
    source text. -/
def parse (r : Recovery) (unit : Nat) (tokens : List Token) :
    Except (List Diagnostic) (List Item) :=
  match tokens with
  | [] => .ok []
  | first :: _ =>
    let start : Cursor := { previous := first, rest := tokens, lastId := 0, reported := [] }
    let (items, c) : List Item × Cursor :=
      match Parser.program r unit (roundsFor tokens) start with
      | .ok items c => (items, c)
      | .error (.error d) c => ([], { c with reported := d :: c.reported })
      | .error .outOfRounds c => ([], c)
    match squeeze (withLexicalError r c.current c.reported).reverse with
    | [] => .ok items
    | errors => .error errors

/-- The items of a source text, or its errors. -/
def parseText (r : Recovery) (unit : Nat) (file source : String) :
    Except (List Diagnostic) (List Item) :=
  parse r unit (scan file source)

end Eleu
