/-! # Doubles as exact binary fractions

    Every finite double is a sign and a natural number times a power of two. Exact questions
    about a double (its decimal digits, its remainder, whether it is a whole number) are asked
    of this form, where they are questions about natural numbers. -/

namespace Eleu

/-- The value `± mantissa · 2 ^ exponent`. -/
structure Binary where
  negative : Bool
  mantissa : Nat
  exponent : Int

namespace Binary

/-- The value of a finite double. The subnormal doubles and zero share the least exponent. -/
def ofFloat (x : Float) : Binary :=
  let bits := x.toBits.toNat
  let negative := decide (Nat.pow 2 63 ≤ bits)
  let scale : Nat := bits / Nat.pow 2 52 % Nat.pow 2 11
  let fraction : Nat := bits % Nat.pow 2 52
  if scale = 0 then ⟨negative, fraction, -1074⟩
  else ⟨negative, Nat.pow 2 52 + fraction, (scale : Int) - 1075⟩

/-- The magnitude as a fraction of two natural numbers. -/
def ratio (b : Binary) : Nat × Nat :=
  match b.exponent with
  | .ofNat e => (b.mantissa * Nat.pow 2 e, 1)
  | .negSucc e => (b.mantissa, Nat.pow 2 (e + 1))

/-- The value as an integer, when it is one. -/
def toInt? (b : Binary) : Option Int :=
  let (num, den) := b.ratio
  if num % den = 0 then
    let n : Int := num / den
    some (if b.negative then -n else n)
  else none

end Binary

end Eleu
