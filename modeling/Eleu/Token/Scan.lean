import Eleu.Token
import Eleu.Text.Letter

/-! # Scanning a source text

    `scan` cuts a text into tokens. Blanks and comments between tokens are skipped; every token
    takes at least one character, so as many rounds as there are characters, and one for the
    closing token, are enough. -/

namespace Eleu

/-- The four characters that separate tokens. -/
def isSeparator (c : Char) : Bool := c == ' ' || c == '\t' || c == '\r' || c == '\n'

/-- Skips separators and comments. A comment runs up to the end of its line, and `inComment` tells
    whether one is open. -/
def skipBlanks (inComment : Bool) (p : Pos) : List Char → Pos × List Char
  | [] => (p, [])
  | c :: cs =>
    if inComment then skipBlanks (c != '\n') (p.after c) cs
    else if isSeparator c then skipBlanks false (p.after c) cs
    else if c == '/' && cs.head? == some '/' then skipBlanks true (p.after c) cs
    else (p, c :: cs)

/-- A token cut off the front of a text: its kind, the characters it covers, and what is left. -/
structure Piece where
  kind : TokenKind
  taken : List Char
  rest : List Char

namespace Piece

/-- A name or a keyword. -/
def word (c : Char) (cs : List Char) : Piece :=
  let taken := c :: cs.takeWhile Text.continuesName
  { kind := ((Keyword.ofWord? (String.ofList taken)).map TokenKind.keyword).getD .name
    taken := taken
    rest := cs.dropWhile Text.continuesName }

/-- A number: digits, and a point only when another digit follows it. -/
def number (c : Char) (cs : List Char) : Piece :=
  let whole := c :: cs.takeWhile Char.isDigit
  match cs.dropWhile Char.isDigit with
  | '.' :: d :: more =>
    if d.isDigit then
      { kind := .number
        taken := whole ++ '.' :: d :: more.takeWhile Char.isDigit
        rest := more.dropWhile Char.isDigit }
    else { kind := .number, taken := whole, rest := '.' :: d :: more }
  | rest => { kind := .number, taken := whole, rest := rest }

/-- A string, after its opening quote `c`. It may run over several lines. -/
def string (c : Char) (cs : List Char) : Piece :=
  let body := cs.takeWhile (· != '\x22')
  match cs.dropWhile (· != '\x22') with
  | [] => { kind := .invalid .unterminatedString, taken := c :: body, rest := [] }
  | quote :: rest => { kind := .string, taken := c :: (body ++ [quote]), rest := rest }

/-- A symbol that an equals sign may extend. -/
def extensible (c : Char) (short long : Symbol) (cs : List Char) : Piece :=
  match cs with
  | '=' :: rest => { kind := .symbol long, taken := [c, '='], rest := rest }
  | _ => { kind := .symbol short, taken := [c], rest := cs }

/-- The token at the front of the text `c :: cs`, which starts with no separator. -/
def first (c : Char) (cs : List Char) : Piece :=
  match Symbol.ofExtensible? c with
  | some (short, long) => extensible c short long cs
  | none =>
    if c == '/' then { kind := .symbol .slash, taken := [c], rest := cs }
    else if c == '\x22' then string c cs
    else
      match Symbol.ofChar? c with
      | some s => { kind := .symbol s, taken := [c], rest := cs }
      | none =>
        if Text.startsName c then word c cs
        else if c.isDigit then number c cs
        else { kind := .invalid .unexpectedCharacter, taken := [c], rest := cs }

/-- The lexeme of a piece. -/
def lexeme (t : Piece) : String :=
  match t.kind with
  | .string => String.ofList (t.taken.tail.dropLast)
  | .invalid e => e.message
  | _ => String.ofList t.taken

end Piece

/-- The tokens of `cs`, which starts at `p`, in at most `rounds` rounds. -/
def scanFrom (file : String) : (rounds : Nat) → Pos → List Char → List Token
  | 0, _, _ => []
  | rounds + 1, p, cs =>
    match skipBlanks false p cs with
    | (p, []) => [{ kind := .endOfFile, lexeme := "end of file", span := ⟨file, p, p⟩ }]
    | (p, c :: cs) =>
      let piece := Piece.first c cs
      let stop := p.afterAll piece.taken
      let token : Token := { kind := piece.kind, lexeme := piece.lexeme, span := ⟨file, p, stop⟩ }
      if piece.kind.closes then [token]
      else token :: scanFrom file rounds stop piece.rest

/-- The tokens of a source text, closed by the end of the text or by its first lexical error. -/
def scan (file source : String) : List Token :=
  let cs := source.toList
  scanFrom file (cs.length + 1) .first cs

end Eleu
