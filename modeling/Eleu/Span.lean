import Eleu.Text.Basic
import Eleu.Number.Read

/-! # Places in a source text

    A span names a file and the stretch of text between two positions; lines and columns count
    from one, and the end is the position just after the last character. A span whose two lines
    are both zero is empty: it stands for no place at all.

    Diagnostics begin with the text of a span. `Span.ofHint?` recovers the span from such a
    line, so that a tool that only sees the line can still point at the place. -/

namespace Eleu

/-- A line and a column, ordered lexicographically. -/
structure Pos where
  line : Nat
  col : Nat
deriving DecidableEq

namespace Pos

/-- Earlier line, or the same line and no later column. -/
protected def le (a b : Pos) : Prop := a.line < b.line ∨ (a.line = b.line ∧ a.col ≤ b.col)

instance : LE Pos := ⟨Pos.le⟩

instance (a b : Pos) : Decidable (a ≤ b) :=
  inferInstanceAs (Decidable (a.line < b.line ∨ (a.line = b.line ∧ a.col ≤ b.col)))

instance : Min Pos := ⟨fun a b => if a ≤ b then a else b⟩

instance : Max Pos := ⟨fun a b => if a ≤ b then b else a⟩

/-- The first position of a text. -/
def first : Pos := ⟨1, 1⟩

/-- The position after a character that stands at `p`. -/
def after (p : Pos) (c : Char) : Pos :=
  if c = '\n' then ⟨p.line + 1, 1⟩ else ⟨p.line, p.col + 1⟩

/-- The position after a text that starts at `p`. -/
def afterAll (p : Pos) (cs : List Char) : Pos := cs.foldl after p

end Pos

/-- A stretch of a source file. -/
structure Span where
  file : String
  start : Pos
  stop : Pos
deriving DecidableEq

namespace Span

/-- The span of no place. -/
def empty : Span := ⟨"", ⟨0, 0⟩, ⟨0, 0⟩⟩

/-- Whether the span stands for no place. -/
def isEmpty (s : Span) : Bool := s.start.line == 0 && s.stop.line == 0

/-- The smallest span that covers both; an empty one counts for nothing. -/
def union (a b : Span) : Span :=
  if a.isEmpty then b
  else if b.isEmpty then a
  else ⟨a.file, min a.start b.start, max a.stop b.stop⟩

/-- The text of a span, as diagnostics show it. -/
def text (s : Span) : String :=
  s.file ++ "(" ++ toString s.start.line ++ "," ++ toString s.start.col ++ ","
    ++ toString s.stop.line ++ "," ++ toString s.stop.col ++ ")"

/-! ## Recovering a span from a diagnostic -/

/-- What goes before the first occurrence of `pat`. -/
def beforeFirst (pat : List Char) : List Char → Option (List Char)
  | [] => none
  | c :: cs =>
    if pat.isPrefixOf (c :: cs) then some []
    else (beforeFirst pat cs).map (c :: ·)

/-- What goes before and what goes after the last occurrence of `sep`. -/
def splitLast (sep : Char) : List Char → Option (List Char × List Char)
  | [] => none
  | c :: cs =>
    match splitLast sep cs with
    | some (before, after) => some (c :: before, after)
    | none => if c = sep then some ([], cs) else none

/-- The pieces between the occurrences of `sep`. -/
def splitAll (sep : Char) : List Char → List (List Char)
  | [] => [[]]
  | c :: cs =>
    if c = sep then [] :: splitAll sep cs
    else
      match splitAll sep cs with
      | [] => [[c]]
      | piece :: pieces => (c :: piece) :: pieces

/-- A natural number below `2 ^ 64`, with blanks around it and perhaps a plus sign. -/
def readCoordinate (cs : List Char) : Option Nat :=
  let body := Text.trim cs
  let digits :=
    match body with
    | '+' :: rest => rest
    | _ => body
  if digits.isEmpty || !digits.all Char.isDigit then none
  else
    let n := digitsValue digits
    if n < Nat.pow 2 64 then some n else none

/-- The span at the front of a diagnostic: the four coordinates in the last parentheses before the
    first `): `, and the file name before them. -/
def ofHint? (hint : String) : Option Span := do
  let head ← beforeFirst [')', ':', ' '] hint.toList
  let (file, coordinates) ← splitLast '(' head
  match ← (splitAll ',' coordinates).mapM readCoordinate with
  | [a, b, c, d] => some ⟨String.ofList file, ⟨a, b⟩, ⟨c, d⟩⟩
  | _ => none

end Span

end Eleu
