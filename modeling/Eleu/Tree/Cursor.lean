import Eleu.Diagnostic
import Eleu.Tree

/-! # Reading tokens

    The parser is a computation that moves a cursor over a token list. The cursor keeps the token
    before it, hands out ids, and collects the errors from which the parser has recovered. The
    closing token is never passed, so there is always a current token.

    Rounds of recursion are counted down; running out of them is an outcome of its own, which the
    allowance given by the length of the token list never meets. -/

namespace Eleu

/-- Whether parsing ends at the first error, or goes on at the next statement. -/
inductive Recovery where
  | stop | resume
deriving DecidableEq

/-- The state of the parser. -/
structure Cursor where
  /-- The token before the cursor; at the very start, the first token. -/
  previous : Token
  rest : List Token
  /-- The last id that was handed out. -/
  lastId : Nat
  /-- Errors that were recovered from, the latest first. -/
  reported : List Diagnostic

/-- Why a parser gives no result. -/
inductive Rejection where
  | error (d : Diagnostic)
  | outOfRounds

/-- Parsers of an `α`. The cursor survives an error. -/
abbrev Parser := EStateM Rejection Cursor

namespace Cursor

/-- The current token. -/
def current (c : Cursor) : Token := c.rest.headD c.previous

/-- Whether the current token closes the list. -/
def atEnd (c : Cursor) : Bool := c.current.kind.closes

/-- The cursor after the current token; the closing token is not passed. -/
def next (c : Cursor) : Cursor :=
  if c.atEnd then c else { c with previous := c.current, rest := c.rest.tail }

/-- Whether a statement starts here that parsing can go on with after an error. -/
def startsStatement : TokenKind → Bool
  | .keyword .class | .keyword .fun | .keyword .var | .keyword .for | .keyword .if
  | .keyword .while | .keyword .return => true
  | _ => false

/-- Skips tokens up to the end, to just after a semicolon, or to just before a statement. -/
def skipStatement (previous : Token) : List Token → Token × List Token
  | [] => (previous, [])
  | t :: ts =>
    if t.kind.closes || previous.kind == .symbol .semicolon || startsStatement t.kind then
      (previous, t :: ts)
    else skipStatement t ts

/-- Moves on after an error: past one token in any case, then to where a statement may start. -/
def recover (c : Cursor) : Cursor :=
  let c := c.next
  let (previous, rest) := skipStatement c.previous c.rest
  { c with previous := previous, rest := rest }

end Cursor

namespace Parser

/-- The current token. -/
def peek : Parser Token := return (← get).current

/-- The token before the cursor. -/
def previous : Parser Token := return (← get).previous

/-- Whether the current token is of kind `k`. -/
def check (k : TokenKind) : Parser Bool := return (← peek).kind == k

/-- Whether the current token closes the list. -/
def atEnd : Parser Bool := return (← get).atEnd

/-- Takes the current token. -/
def advance : Parser Token := do
  let c ← get
  set c.next
  return c.current

/-- Takes the current token if it is of kind `k`. -/
def accept (k : TokenKind) : Parser Bool := do
  if (← check k) && !(← atEnd) then
    let _ ← advance
    return true
  else
    return false

/-- Fails at `span`. Where the text cannot be scanned any further, that is the error to report. -/
def reject {α : Type} (span : Span) (cause : SyntaxError) : Parser α := do
  let t ← peek
  match t.kind with
  | .invalid e => throw (.error ⟨t.span, .lexical e⟩)
  | _ => throw (.error ⟨span, cause⟩)

/-- Takes a token of kind `k`; the error for any other token is placed at the token before. -/
def expect (k : TokenKind) (cause : SyntaxError) : Parser Token := do
  if ← check k then advance
  else reject (← previous).span cause

/-- A new id. -/
def freshId : Parser Nat := do
  let c ← get
  set { c with lastId := c.lastId + 1 }
  return c.lastId + 1

/-- A new reference to `name`. -/
def freshIdent (name : String) : Parser Ident := return ⟨name, ← freshId⟩

/-- The span from `start` to the token before the cursor. -/
def spanFrom (start : Span) : Parser Span := return start.union (← previous).span

end Parser

end Eleu
