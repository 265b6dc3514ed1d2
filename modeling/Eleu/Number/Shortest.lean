import Eleu.Number.Binary

/-! # Shortest decimal text

    A double is written with the fewest digits that read back as the same double; among those,
    with the nearest. The reals that read back as a double form an interval around it, whose ends
    belong to it when the mantissa is even. For one digit, two digits and so on, the two
    neighbours of the value on the decimal grid of that many digits are tried against the
    interval; seventeen digits always suffice. The text is positional, without an exponent. -/

namespace Eleu

/-- The value `digits · 10 ^ exponent`. -/
structure Decimal where
  digits : Nat
  exponent : Int

namespace Decimal

/-- Number of zeros between the point and the first digit of `num / den`, for a value below one.
    `limit` bounds the search. -/
def leadingZeros (den : Nat) : (limit num : Nat) → Nat
  | 0, _ => 0
  | limit + 1, num => if den ≤ num * 10 then 0 else leadingZeros den limit (num * 10) + 1

/-- The `k` with `10 ^ (k - 1) ≤ num / den < 10 ^ k`. -/
def magnitude (num den : Nat) : Int :=
  if den ≤ num then ((Nat.toDigits 10 (num / den)).length : Nat)
  else - (leadingZeros den 400 num : Int)

/-- `10 ^ s` as a fraction. -/
def power (s : Int) : Nat × Nat :=
  match s with
  | .ofNat e => (Nat.pow 10 e, 1)
  | .negSucc e => (1, Nat.pow 10 (e + 1))

/-- The reals that read back as one double: from `low` to `high` around `mid`, as numerators over
    the common denominator `den`. -/
structure Interval where
  low : Nat
  mid : Nat
  high : Nat
  den : Nat
  closed : Bool

/-- Whether `num / den` lies in the interval. -/
def Interval.contains (i : Interval) (num den : Nat) : Bool :=
  let low := i.low * den
  let high := i.high * den
  let x := num * i.den
  if i.closed then low ≤ x && x ≤ high else low < x && x < high

/-- The interval of `b`, in quarters of its last place. Just above a power of two the next double
    below is twice as near. -/
def interval (b : Binary) : Interval :=
  let m := b.mantissa
  let below := if m = Nat.pow 2 52 ∧ b.exponent ≠ -1074 then 1 else 2
  let (num, den) : Nat × Nat :=
    match b.exponent - 2 with
    | .ofNat e => (Nat.pow 2 e, 1)
    | .negSucc e => (1, Nat.pow 2 (e + 1))
  { low := (4 * m - below) * num
    mid := 4 * m * num
    high := (4 * m + 2) * num
    den := den
    closed := m % 2 = 0 }

/-- The better of the two neighbours of the middle of `i` on the grid `10 ^ s` that lie in `i`: the
    nearer one, and the larger one when both are equally near. -/
def neighbour? (i : Interval) (s : Int) : Option Nat :=
  let (pnum, pden) := power s
  let c := i.mid * pden / (i.den * pnum)
  let down := i.contains (c * pnum) pden
  let up := i.contains ((c + 1) * pnum) pden
  let x := i.mid * pden
  let gapDown := x - c * pnum * i.den
  let gapUp := (c + 1) * pnum * i.den - x
  if up && (!down || gapUp ≤ gapDown) then some (c + 1)
  else if down then some c
  else none

/-- Tries `n` digits, then `n + 1`, up to `n + limit`. -/
def search (i : Interval) (k : Int) : (limit n : Nat) → Decimal
  | 0, n => ⟨(neighbour? i (k - n)).getD 0, k - n⟩
  | limit + 1, n =>
    match neighbour? i (k - n) with
    | some c => if c = Nat.pow 10 n then ⟨1, k⟩ else ⟨c, k - n⟩
    | none => search i k limit (n + 1)

/-- The shortest decimal that reads back as the magnitude of `b`, which is not zero. -/
def shortest (b : Binary) : Decimal :=
  let i := interval b
  search i (magnitude i.mid i.den) 16 1

/-- Positional notation, without an exponent and without a superfluous point. -/
def toChars (d : Decimal) : List Char :=
  let digits := Nat.toDigits 10 d.digits
  match d.exponent with
  | .ofNat e => digits ++ List.replicate e '0'
  | .negSucc e =>
    let places := e + 1
    if places < digits.length then
      digits.take (digits.length - places) ++ '.' :: digits.drop (digits.length - places)
    else
      '0' :: '.' :: (List.replicate (places - digits.length) '0' ++ digits)

end Decimal

/-- The text of any double. -/
def floatText (x : Float) : String :=
  if x.isNaN then "NaN"
  else
    let b := Binary.ofFloat x
    let sign := if b.negative then ['-'] else []
    let body :=
      if x.isInf then ['i', 'n', 'f']
      else if b.mantissa = 0 then ['0']
      else (Decimal.shortest b).toChars
    String.ofList (sign ++ body)

/-! ## A fixed number of places

    The exact value of the double is rounded to the given number of places; a value half way
    between two goes to the one with the even last digit. -/

/-- `num / den` rounded to the nearest natural number, halves to the even one. -/
def roundHalfEven (num den : Nat) : Nat :=
  let q := num / den
  let r := num % den
  if 2 * r < den then q
  else if den < 2 * r then q + 1
  else if q % 2 = 0 then q else q + 1

/-- A finite double written with exactly `places` digits after the point. -/
def fixedText (x : Float) (places : Nat) : String :=
  let b := Binary.ofFloat x
  let (num, den) := b.ratio
  let scaled := roundHalfEven (num * Nat.pow 10 places) den
  let whole := Nat.toDigits 10 (scaled / Nat.pow 10 places)
  let part := Nat.toDigits 10 (scaled % Nat.pow 10 places)
  let fraction :=
    if places = 0 then []
    else '.' :: (List.replicate (places - part.length) '0' ++ part)
  String.ofList ((if b.negative then ['-'] else []) ++ whole ++ fraction)

end Eleu
