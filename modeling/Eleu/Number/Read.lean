/-! # Reading a double

    The accepted texts are a sign, digits with at most one point among, before or after them, and
    an exponent; or, in any letter case, `inf`, `infinity` or `nan` with a sign. The value is the
    nearest double. -/

namespace Eleu

/-- The value of one decimal digit. -/
def digitValue (c : Char) : Nat := c.toNat - 48

/-- The number written by a list of digits. -/
def digitsValue (cs : List Char) : Nat := cs.foldl (fun n c => 10 * n + digitValue c) 0

/-- The digits at the front, and what follows them. -/
def spanDigits (cs : List Char) : List Char × List Char :=
  (cs.takeWhile Char.isDigit, cs.dropWhile Char.isDigit)

/-- The nearest double to `digits · 10 ^ exponent`. Beyond the exponents of doubles the answer is
    infinite or zero whatever the digits are. -/
def scaledFloat (digits : List Char) (exponent : Int) : Float :=
  let n := digitsValue digits
  let size : Int := (Nat.toDigits 10 n).length + exponent
  if n = 0 || size < -400 then 0.0
  else if 400 < size then 1.0 / 0.0
  else
    match exponent with
    | .ofNat e => Float.ofScientific n false e
    | .negSucc e => Float.ofScientific n true (e + 1)

/-- The exponent part, which is empty or runs to the end of the text. -/
def readExponent : List Char → Option Int
  | [] => some 0
  | mark :: cs =>
    if mark == 'e' || mark == 'E' then
      let (negative, cs) :=
        match cs with
        | '-' :: rest => (true, rest)
        | '+' :: rest => (false, rest)
        | _ => (false, cs)
      if cs.isEmpty || !cs.all Char.isDigit then none
      else
        let n : Int := digitsValue cs
        some (if negative then -n else n)
    else none

/-- A text without a sign that is written in digits. -/
def readMagnitude (cs : List Char) : Option Float :=
  let (whole, rest) := spanDigits cs
  let (fraction, rest) :=
    match rest with
    | '.' :: more => spanDigits more
    | _ => ([], rest)
  if whole.isEmpty && fraction.isEmpty then none
  else (readExponent rest).map fun e =>
    scaledFloat (whole ++ fraction) (e - fraction.length)

/-- A text without a sign that names a value. -/
def readNamed (cs : List Char) : Option Float :=
  let word := cs.map Char.toLower
  if word == ['n', 'a', 'n'] then some (0.0 / 0.0)
  else if word == ['i', 'n', 'f'] || word == ['i', 'n', 'f', 'i', 'n', 'i', 't', 'y'] then
    some (1.0 / 0.0)
  else none

/-- The double that the text denotes, if it denotes one. -/
def readFloat? (cs : List Char) : Option Float :=
  let (negative, body) :=
    match cs with
    | '-' :: rest => (true, rest)
    | '+' :: rest => (false, rest)
    | _ => (false, cs)
  ((readMagnitude body).or (readNamed body)).map fun x => if negative then -x else x

end Eleu
