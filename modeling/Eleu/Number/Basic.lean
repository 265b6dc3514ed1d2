import Eleu.Number.Binary
import Eleu.Number.Shortest

/-! # Numbers of the language

    A number is a finite double: what is not a number and the infinities are never values. -/

namespace Eleu

/-- A finite double. -/
structure Number where
  val : Float
  finite : val.isFinite = true

namespace Number

/-- The number of a double, which must be finite. -/
def ofFloat? (x : Float) : Option Number :=
  if h : x.isFinite = true then some ⟨x, h⟩ else none

/-- The number zero. -/
def zero : Number := ⟨0.0, by decide⟩

/-- The number one. -/
def one : Number := ⟨1.0, by decide⟩

/-- The number minus one. -/
def negOne : Number := ⟨-1.0, by decide⟩

/-- The number nearest to a natural number. -/
def ofNat (n : Nat) : Number := (ofFloat? (Float.ofNat n)).getD zero

/-- The number as an integer, if it is one of fewer than 64 bits. -/
def toInt? (n : Number) : Option Int :=
  (Binary.ofFloat n.val).toInt?.filter fun i => decide (i.natAbs < Nat.pow 2 63)

/-- The number as a count, if it is a whole number and not negative. -/
def toCount? (n : Number) : Option Nat :=
  match n.toInt? with
  | some (.ofNat k) => some k
  | _ => none

/-- The text of a number. Both zeros are written alike. -/
def text (n : Number) : String :=
  if n.val == 0.0 then "0" else floatText n.val

end Number

/-- The remainder of the division of `a` by `b`, which is not zero: exact, and with the sign
    of `a`. -/
def remainder (a b : Float) : Float :=
  let x := Binary.ofFloat a
  let y := Binary.ofFloat b
  let e := min x.exponent y.exponent
  let m := (x.mantissa * Nat.pow 2 (x.exponent - e).toNat) % (y.mantissa * Nat.pow 2 (y.exponent - e).toNat)
  let r := Float.scaleB (Float.ofNat m) e
  if x.negative then -r else r

end Eleu
