/-! # Characters and texts

    A property of characters is given by runs of code points: a list of numbers that says in turn
    how many code points lack the property and how many have it. Looking a character up walks the
    list and stops at the run it lies in, so common characters, which stand early in every table,
    are found at once.
    Positions in a text count characters from zero. -/

namespace Eleu.Text

/-- Whether `c`, counted from the start of the first run, lies in a run that has the property. -/
def inRuns : List Nat → Nat → Bool
  | without :: having :: rest, c =>
    if c < without + having then decide (without ≤ c) else inRuns rest (c - (without + having))
  | _, _ => false

/-! ## Blanks -/

/-- Code points with the property White_Space. -/
def blankRuns : List Nat := [
  9, 5, 18, 1, 100, 1, 26, 1, 5599, 1, 2431, 11, 29, 2, 5, 1, 47, 1, 4000, 1]

/-- The property White_Space. -/
def isBlank (c : Char) : Bool := inRuns blankRuns c.toNat

/-- The text without the blanks at its two ends. -/
def trim (cs : List Char) : List Char :=
  ((cs.dropWhile isBlank).reverse.dropWhile isBlank).reverse

/-! ## Searching -/

/-- Whether `pattern` stands in `text` at position `i`. -/
def occursAt (pattern text : List Char) (i : Nat) : Bool := pattern.isPrefixOf (text.drop i)

/-- The first position from `start` on at which `pattern` stands in `text`. -/
def firstIndex? (text pattern : List Char) (start : Nat) : Option Nat :=
  (List.range (text.length - pattern.length + 1)).find? fun i =>
    decide (start ≤ i) && occursAt pattern text i

/-- The last position up to `start` at which `pattern` stands in `text`. -/
def lastIndex? (text pattern : List Char) (start : Nat) : Option Nat :=
  if text.length < pattern.length then none
  else
    (List.range (min start (text.length - pattern.length) + 1)).reverse.find? (occursAt pattern text)

end Eleu.Text
