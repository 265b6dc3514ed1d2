import Eleu.Operator
import Eleu.Proofs.Outcome
import Mathlib.Algebra.Group.Nat.Defs
import Mathlib.Data.Nat.Log

/-! # Counting down in doubles

    The machine keeps the rounds that a `repeat` still has to go as a number on its stack, and
    subtracts one after each of them. A double has 53 binary digits, so that this is exact for a
    count of at most 2 ^ 53: `Store.rounds_minus_one`. -/

namespace Eleu

variable {n m : Nat}

open Float.Model Float.Model.UnpackedFloat

/-! ## Counts as doubles -/

namespace Binary

/-- A fraction that is a positive whole number is not negative, and its mantissa is the number up to a
    power of two. -/
theorem eq_of_toInt? {b : Binary} (h : b.toInt? = some ((n + 1 : Nat) : Int)) :
    b.negative = false ∧ b.mantissa * 2 ^ b.exponent.toNat = (n + 1) * 2 ^ (-b.exponent).toNat := by
  obtain ⟨negative, m, e⟩ := b
  have hsign : ∀ k : Nat, (if negative then -(k : Int) else k) = ((n + 1 : Nat) : Int) →
      negative = false ∧ k = n + 1 := by
    intro k hk
    cases negative with
    | false => exact ⟨rfl, Int.ofNat.inj hk⟩
    | true =>
      simp only [if_true] at hk
      omega
  cases e with
  | ofNat k =>
    simp only [toInt?, ratio, Nat.mod_one, if_true, Option.some.injEq, Int.ofNat_ediv_ofNat] at h
    obtain ⟨hneg, hk⟩ := hsign _ h
    refine ⟨hneg, ?_⟩
    simpa using hk
  | negSucc k =>
    have h : (if m % 2 ^ (k + 1) = 0 then
        some (if negative then -((m / 2 ^ (k + 1) : Nat) : Int) else (m / 2 ^ (k + 1) : Nat))
      else none) = some ((n + 1 : Nat) : Int) := h
    by_cases hmod : m % 2 ^ (k + 1) = 0
    · rw [if_pos hmod, Option.some.injEq] at h
      obtain ⟨hneg, hk⟩ := hsign (m / 2 ^ (k + 1)) h
      refine ⟨hneg, ?_⟩
      show m * 2 ^ 0 = (n + 1) * 2 ^ (k + 1)
      rw [← hk, Nat.div_mul_cancel (Nat.dvd_of_mod_eq_zero hmod), Nat.pow_zero, Nat.mul_one]
    · rw [if_neg hmod] at h
      exact nomatch h

/-- A fraction whose mantissa is a natural number up to a power of two is this number. -/
theorem toInt?_eq {b : Binary} (hneg : b.negative = false)
    (h : b.mantissa * 2 ^ b.exponent.toNat = n * 2 ^ (-b.exponent).toNat) :
    b.toInt? = some (n : Int) := by
  obtain ⟨negative, m, e⟩ := b
  subst hneg
  cases e with
  | ofNat k =>
    have h : m * 2 ^ k = n := by simpa using h
    simp [toInt?, ratio, h, Nat.mod_one]
  | negSucc k =>
    have h : m = n * 2 ^ (k + 1) := by
      rw [← Nat.mul_one m]
      exact h
    simp only [toInt?, ratio, h, Nat.pow_eq, Nat.mul_mod_left, if_true, Int.ofNat_ediv_ofNat,
      Nat.mul_div_cancel n (Nat.two_pow_pos (k + 1))]
    rfl

end Binary

namespace Number

/-- A count that is less than 2 ^ 63 is one as a fraction. -/
theorem toCount?_eq_some {x : Number} (hn : n < 2 ^ 63) :
    x.toCount? = some n ↔ (Binary.ofFloat x.val).toInt? = some (n : Int) := by
  unfold toCount? toInt?
  cases hi : (Binary.ofFloat x.val).toInt? with
  | none => simp
  | some i =>
    by_cases hbig : i.natAbs < Nat.pow 2 63
    · rw [Option.filter_some, if_pos (decide_eq_true hbig)]
      cases i with
      | ofNat k => constructor <;> (rintro ⟨⟩; rfl)
      | negSucc k => simp
    · rw [Option.filter_some, if_neg (by simpa using hbig)]
      refine ⟨fun h => (nomatch h), fun h => absurd ?_ hbig⟩
      cases h
      exact hn

end Number

/-! ## The subtraction -/

/-- A mantissa of 53 digits that stands for a count from one to 2 ^ 53 has an exponent in a small
    range. -/
theorem exists_exponent {b c e : Nat} (hlow : 2 ^ 52 ≤ m) (hhigh : m < 2 ^ 53) (hn : n + 1 ≤ 2 ^ 53)
    (hc : c = 52 + b) (h : m * 2 ^ e = (n + 1) * 2 ^ c) :
    ∃ k, k ≤ 53 ∧ e = b + k ∧ m * 2 ^ k = (n + 1) * 2 ^ 52 := by
  subst hc
  have hbe : b ≤ e := by
    by_contra hlt
    have hlt : 53 + e ≤ 52 + b := by omega
    have h₁ : m * 2 ^ e < 2 ^ 53 * 2 ^ e := Nat.mul_lt_mul_of_pos_right hhigh (Nat.two_pow_pos e)
    have h₂ : 2 ^ 53 * 2 ^ e ≤ 2 ^ (52 + b) := by
      rw [← Nat.pow_add]
      exact Nat.pow_le_pow_right (Nat.succ_pos 1) hlt
    have h₃ : 2 ^ (52 + b) ≤ (n + 1) * 2 ^ (52 + b) := Nat.le_mul_of_pos_left _ (Nat.succ_pos n)
    exact Nat.lt_irrefl _ (Nat.lt_of_lt_of_le h₁ (Nat.le_trans h₂ (Nat.le_trans h₃ (Nat.le_of_eq h.symm))))
  obtain ⟨k, rfl⟩ := Nat.exists_eq_add_of_le hbe
  have hk : m * 2 ^ k = (n + 1) * 2 ^ 52 := by
    refine Nat.eq_of_mul_eq_mul_right (Nat.two_pow_pos b) ?_
    rw [Nat.mul_assoc, ← Nat.pow_add, Nat.add_comm k b, h, Nat.pow_add, Nat.mul_assoc]
  refine ⟨k, ?_, rfl, hk⟩
  have h₁ : 2 ^ 52 * 2 ^ k ≤ 2 ^ 52 * 2 ^ 53 := by
    calc 2 ^ 52 * 2 ^ k ≤ m * 2 ^ k := Nat.mul_le_mul_right _ hlow
      _ = (n + 1) * 2 ^ 52 := hk
      _ ≤ 2 ^ 53 * 2 ^ 52 := Nat.mul_le_mul_right _ hn
      _ = 2 ^ 52 * 2 ^ 53 := Nat.mul_comm _ _
  have h₂ : 2 ^ k ≤ 2 ^ 53 := Nat.le_of_mul_le_mul_left h₁ (Nat.two_pow_pos 52)
  exact (Nat.pow_le_pow_iff_right (Nat.lt_succ_self 1)).1 h₂

theorem eq_scaled {e c : Nat} (h : m * 2 ^ ((e : Int) - c).toNat = n * 2 ^ (-((e : Int) -
    c)).toNat) : m * 2 ^ e = n * 2 ^ c := by
  rcases Nat.le_total c e with hle | hle
  · rw [show ((e : Int) - c).toNat = e - c by omega, show (-((e : Int) - c)).toNat = 0 by omega,
      Nat.pow_zero, Nat.mul_one] at h
    rw [← h, Nat.mul_assoc, ← Nat.pow_add, Nat.sub_add_cancel hle]
  · rw [show ((e : Int) - c).toNat = 0 by omega, show (-((e : Int) - c)).toNat = c - e by omega,
      Nat.pow_zero, Nat.mul_one] at h
    rw [h, Nat.mul_assoc, ← Nat.pow_add, Nat.sub_add_cancel hle]

/-- A mantissa of 52 digits is less than any count that is scaled by more digits. -/
theorem ne_scaled {c : Nat} (hm : m < 2 ^ 52) (hc : 52 ≤ c) : m * 2 ^ 0 ≠ (n + 1) * 2 ^ c := by
  have h₁ : 2 ^ 52 ≤ 2 ^ c := Nat.pow_le_pow_right (Nat.succ_pos 1) hc
  have h₂ : 2 ^ c ≤ (n + 1) * 2 ^ c := Nat.le_mul_of_pos_left _ (Nat.succ_pos n)
  omega

/-- Subtracting one from a double that is a count, before the result is rounded. -/
theorem sub_one_unpacked {k : Nat} (hm : 0 < m) (h : m * 2 ^ k = (n + 1) * 2 ^ 52) :
    UnpackedFloat.sub .binary64 (.finite .positive m ((k : Int) - 52) hm)
        (.finite .positive (2 ^ 52) (-52) (by decide)) =
      normalize .binary64 ((n * 2 ^ 52 : Nat) : Int) (-52) .positive := by
  have hmin : min ((k : Int) - 52) (-52) = -52 := by omega
  have hk : ((k : Int) - 52 - -52).toNat = k := by omega
  have hz : ((-52 : Int) - -52).toNat = 0 := rfl
  have hsub : ((m * 2 ^ k : Nat) : Int) - ((2 ^ 52 : Nat) : Int) = ((n * 2 ^ 52 : Nat) : Int) := by
    rw [h, Nat.succ_mul, Int.natCast_add, Int.add_sub_cancel]
  unfold UnpackedFloat.sub
  simp only [hmin, decreaseExponent, hk, hz, Nat.shiftLeft_eq, Sign.apply, Nat.pow_zero, Nat.mul_one]
  rw [hsub]

theorem normalize_of_pos (hm : 0 < m) (spec : Format) (e : Int) (zero : Sign) :
    normalize spec (m : Int) e zero = round spec .positive m e := by
  have hcompare : compare (m : Int) 0 = .gt := Int.compare_eq_gt.2 (Int.natCast_pos.2 hm)
  rw [UnpackedFloat.normalize, hcompare]
  rfl

/-- Digits that are all zero can be shifted away. -/
theorem shiftRight_exact (a k : Nat) :
    (⟨a * 2 ^ k, false, false⟩ : ExtendedMantissa) >>> k = ⟨a, false, false⟩ := by
  show Nat.repeat ExtendedMantissa.shiftRightOne k _ = _
  induction k generalizing a with
  | zero => simp [Nat.repeat]
  | succ k ih =>
    rw [Nat.repeat, Nat.pow_succ, Nat.mul_comm (2 ^ k) 2, ← Nat.mul_assoc, ih (a * 2)]
    simp [ExtendedMantissa.shiftRightOne]

theorem log2_mul_two_pow (hn : n ≠ 0) (k : Nat) : (n * 2 ^ k).log2 = n.log2 + k := by
  induction k with
  | zero => simp
  | succ k ih =>
    rw [Nat.pow_succ, Nat.mul_comm (2 ^ k) 2, Nat.mul_left_comm,
      Nat.log2_two_mul (Nat.mul_ne_zero hn (Nat.two_pow_pos k).ne'), ih, Nat.add_assoc]

/-- The exponent that a double asks for. -/
theorem targetExponent_eq {e : Int} {l : Nat} (hl : (m.log2 : Int) + e = l) :
    Format.binary64.targetExponent (totalExponent m e) = (l : Int) - 52 := by
  have hbits : Format.binary64.mantissaBits = 53 := rfl
  have hmin : Format.binary64.minExponent = -1074 := rfl
  rw [Format.targetExponent, totalExponent, hbits, hmin]
  omega

/-- A count below 2 ^ 53 needs no rounding. -/
theorem round_count (hn : n ≠ 0) (hlt : n < 2 ^ 53) :
    round .binary64 .positive (n * 2 ^ 52) (-52) =
      .finite .positive (n * 2 ^ (52 - n.log2)) ((n.log2 : Int) - 52)
        (Nat.mul_pos (Nat.pos_of_ne_zero hn) (Nat.two_pow_pos _)) := by
  have hl : n.log2 ≤ 52 := Nat.le_of_lt_succ ((Nat.log2_lt hn).2 hlt)
  have ht : Format.binary64.targetExponent (totalExponent (n * 2 ^ 52) (-52)) = (n.log2 : Int) - 52 :=
    targetExponent_eq (by rw [log2_mul_two_pow hn]; omega)
  have ht' : Format.binary64.targetExponent
      (totalExponent (n * 2 ^ (52 - n.log2)) ((n.log2 : Int) - 52)) = (n.log2 : Int) - 52 :=
    targetExponent_eq (by rw [log2_mul_two_pow hn]; omega)
  have hsplit : n * 2 ^ 52 = n * 2 ^ (52 - n.log2) * 2 ^ n.log2 := by
    rw [Nat.mul_assoc, ← Nat.pow_add, Nat.sub_add_cancel hl]
  have hzero : n * 2 ^ (52 - n.log2) ≠ 0 := Nat.mul_ne_zero hn (Nat.two_pow_pos _).ne'
  -- the digits below the target exponent are all zero, in the first shift as in the second
  have h₁ : shiftToTargetExponent .binary64 (n * 2 ^ 52) (-52) .exact =
      (⟨n * 2 ^ (52 - n.log2), false, false⟩, (n.log2 : Int) - 52) := by
    have hshift : ((n.log2 : Int) - 52 - -52).toNat = n.log2 := by omega
    rw [shiftToTargetExponent, ht, shiftToExponent, hshift]
    refine Prod.ext ?_ ?_
    · show (⟨n * 2 ^ 52, false, false⟩ : ExtendedMantissa) >>> n.log2 = _
      rw [hsplit]
      exact shiftRight_exact _ _
    · show (-52 : Int) + (n.log2 : Nat) = _
      omega
  have h₂ : shiftToTargetExponent .binary64 (n * 2 ^ (52 - n.log2)) ((n.log2 : Int) - 52) .exact =
      (⟨n * 2 ^ (52 - n.log2), false, false⟩, (n.log2 : Int) - 52) := by
    rw [shiftToTargetExponent, ht', shiftToExponent, Int.sub_self]
    refine Prod.ext rfl ?_
    show (n.log2 : Int) - 52 + (0 : Nat) = _
    omega
  have hdecrease : decreaseExponent (n * 2 ^ 52) (-52) ((n.log2 : Int) - 52) = (n * 2 ^ 52, -52) := by
    have hshift : ((-52 : Int) - ((n.log2 : Int) - 52)).toNat = 0 := by omega
    rw [decreaseExponent, hshift]
    rfl
  unfold UnpackedFloat.round
  dsimp only
  rw [ht, hdecrease]
  unfold roundWithAccuracy
  dsimp only
  rw [h₁]
  have hrounded : (⟨n * 2 ^ (52 - n.log2), false, false⟩ : ExtendedMantissa).roundedMantissa
      = n * 2 ^ (52 - n.log2) := rfl
  dsimp only
  rw [hrounded, h₂]
  exact dif_neg hzero

/-! ## Bits -/

/-- The parts of the bits of a double. -/
theorem toNat_packComponents (s : Sign) (e : BitVec 11) (m : BitVec 52) :
    (packComponents .binary64 s e m).toNat
      = s.toBitVec.toNat * 2 ^ 63 + e.toNat * 2 ^ 52 + m.toNat := by
  have hm := m.isLt
  have he := e.isLt
  unfold packComponents
  rw [BitVec.toNat_append, BitVec.toNat_append, ← Nat.shiftLeft_add_eq_or_of_lt hm,
    ← Nat.shiftLeft_add_eq_or_of_lt he]
  simp only [Nat.shiftLeft_eq]
  omega

theorem toNat_unpackExponent (b : BitVec 64) :
    (@unpackExponent .binary64 b).toNat = b.toNat / 2 ^ 52 % 2 ^ 11 := by
  unfold unpackExponent
  simp [Nat.shiftRight_eq_div_pow]

theorem toNat_unpackMantissa (b : BitVec 64) :
    (@unpackMantissa .binary64 b).toNat = b.toNat % 2 ^ 52 := by
  unfold unpackMantissa
  simp

/-- A positive normal double as it is unpacked. -/
theorem unpack_normal {b : BitVec 64} (hs : b.toNat < 2 ^ 63)
    (h₀ : b.toNat / 2 ^ 52 % 2 ^ 11 ≠ 0) (h₁ : b.toNat / 2 ^ 52 % 2 ^ 11 ≠ 2 ^ 11 - 1) :
    UnpackedFloat.unpack .binary64 b =
      .finite .positive (2 ^ 52 + b.toNat % 2 ^ 52) (((b.toNat / 2 ^ 52 % 2 ^ 11 : Nat) : Int) - 1075)
        (Nat.lt_of_lt_of_le (Nat.two_pow_pos 52) (Nat.le_add_right _ _)) := by
  have he := toNat_unpackExponent b
  have hm := toNat_unpackMantissa b
  have hsign : @unpackSign .binary64 b = 0#1 := by
    refine BitVec.eq_of_toNat_eq ?_
    unfold unpackSign
    simp only [BitVec.toNat_cast, BitVec.extractLsb_toNat, Nat.shiftRight_eq_div_pow]
    show b.toNat / 2 ^ 63 % 2 = 0
    omega
  have hones : @unpackExponent .binary64 b ≠ -1#11 := fun h => by
    rw [h] at he
    exact h₁ he.symm
  have hzeros : @unpackExponent .binary64 b ≠ 0#11 := fun h => by
    rw [h] at he
    exact h₀ he.symm
  unfold UnpackedFloat.unpack
  dsimp only
  rw [if_neg hones, if_neg hzeros, UnpackedFloat.finite.injEq]
  refine ⟨by rw [hsign]; rfl, ?_, ?_⟩
  · rw [BitVec.toNat_append, ← Nat.shiftLeft_add_eq_or_of_lt (BitVec.isLt _), hm]
    rfl
  · rw [he]
    rfl

/-- A count below 2 ^ 53 is packed as a positive normal double. -/
theorem toNat_pack_count (hn : n ≠ 0) (hlt : n < 2 ^ 53) {h} :
    (UnpackedFloat.pack .binary64
        (.finite .positive (n * 2 ^ (52 - n.log2)) ((n.log2 : Int) - 52) h)).toNat
      = (n.log2 + 1023) * 2 ^ 52 + (n * 2 ^ (52 - n.log2) - 2 ^ 52) := by
  have hl : n.log2 ≤ 52 := Nat.le_of_lt_succ ((Nat.log2_lt hn).2 hlt)
  have hlog : (n * 2 ^ (52 - n.log2)).log2 = 52 := by
    rw [log2_mul_two_pow hn]
    omega
  have hne : n * 2 ^ (52 - n.log2) ≠ 0 := h.ne'
  have hlow : 2 ^ 52 ≤ n * 2 ^ (52 - n.log2) := by
    have hself := Nat.log2_self_le hne
    rwa [hlog] at hself
  have hhigh : n * 2 ^ (52 - n.log2) < 2 ^ 53 := (Nat.log2_lt hne).1 (by omega)
  have hbias : ((n.log2 : Int) - 52 + Format.binary64.exponentBias
      + Format.binary64.mantissaBitsWithoutImplicit).toNat = n.log2 + 1023 := by
    show ((n.log2 : Int) - 52 + (1023 : Nat) + (52 : Nat)).toNat = _
    omega
  have hbits : Format.binary64.mantissaBits = 53 := rfl
  unfold UnpackedFloat.pack
  simp only [hlog, hbias, hbits]
  rw [if_neg (by omega), if_pos trivial, toNat_packComponents, BitVec.toNat_ofNat, BitVec.toNat_ofNat,
    Nat.mod_eq_of_lt (show n.log2 + 1023 < 2 ^ 11 by omega)]
  have hmod : n * 2 ^ (52 - n.log2) % 2 ^ 52 = n * 2 ^ (52 - n.log2) - 2 ^ 52 := by
    rw [Nat.mod_eq_sub_mod hlow, Nat.mod_eq_of_lt (by omega)]
  rw [hmod]
  show 0 * 2 ^ 63 + _ + _ = _
  omega

/-! ## The countdown -/

namespace Number

/-- The bits of a count from one to 2 ^ 53, and how it is unpacked. -/
theorem unpack_count {x : Number} (h : x.toCount? = some (n + 1)) (hn : n + 1 ≤ 2 ^ 53) :
    ∃ (m k : Nat) (hm : 0 < m), m * 2 ^ k = (n + 1) * 2 ^ 52
      ∧ x.val.toModel.unpack = .finite .positive m ((k : Int) - 52) hm := by
  rw [toCount?_eq_some (Nat.lt_of_le_of_lt hn (by decide))] at h
  obtain ⟨hneg, hvalue⟩ := Binary.eq_of_toInt? h
  let b : BitVec 64 := x.val.toModel.toBits.toBitVec
  have hfraction : b.toNat % 2 ^ 52 < 2 ^ 52 := Nat.mod_lt _ (Nat.two_pow_pos 52)
  by_cases hscale : b.toNat / 2 ^ 52 % 2 ^ 11 = 0
  · -- a subnormal double is less than one
    have hb : Binary.ofFloat x.val = ⟨decide (2 ^ 63 ≤ b.toNat), b.toNat % 2 ^ 52, -1074⟩ :=
      if_pos hscale
    rw [hb] at hvalue
    exact absurd hvalue (ne_scaled hfraction (show 52 ≤ 1074 by decide))
  · have hb : Binary.ofFloat x.val = ⟨decide (2 ^ 63 ≤ b.toNat), 2 ^ 52 + b.toNat % 2 ^ 52,
        ((b.toNat / 2 ^ 52 % 2 ^ 11 : Nat) : Int) - 1075⟩ := if_neg hscale
    rw [hb] at hneg hvalue
    have hsign : b.toNat < 2 ^ 63 := Nat.lt_of_not_le (of_decide_eq_false hneg)
    generalize he : b.toNat / 2 ^ 52 % 2 ^ 11 = e at hscale hvalue hb
    generalize hm : 2 ^ 52 + b.toNat % 2 ^ 52 = m at hvalue hb
    have hvalue : m * 2 ^ ((e : Int) - 1075).toNat = (n + 1) * 2 ^ (-((e : Int) - 1075)).toNat := hvalue
    have hlow : 2 ^ 52 ≤ m := by omega
    have hhigh : m < 2 ^ 53 := by omega
    have hbias : 1075 = 52 + 1023 := rfl
    have hscaled := eq_scaled (c := 1075) hvalue
    obtain ⟨k, hk, rfl, hcount⟩ := exists_exponent hlow hhigh hn hbias hscaled
    have hunpack := unpack_normal hsign (by rw [he]; exact hscale) (by rw [he]; omega)
    refine ⟨m, k, by omega, hcount, ?_⟩
    rw [show x.val.toModel.unpack = UnpackedFloat.unpack .binary64 b from rfl, hunpack,
      UnpackedFloat.finite.injEq, he, hm]
    exact ⟨rfl, rfl, by omega⟩

/-- The double that a count below 2 ^ 53 is packed as is this count. -/
theorem count_of_pack (hn : n ≠ 0) (hlt : n < 2 ^ 53) {h} {x : Float}
    (hx : x.toModel = .pack (.finite .positive (n * 2 ^ (52 - n.log2)) ((n.log2 : Int) - 52) h)) :
    ∃ y : Number, y.val = x ∧ y.toCount? = some n := by
  have hl : n.log2 ≤ 52 := Nat.le_of_lt_succ ((Nat.log2_lt hn).2 hlt)
  let b : BitVec 64 := x.toModel.toBits.toBitVec
  have hlog : (n * 2 ^ (52 - n.log2)).log2 = 52 := by
    rw [log2_mul_two_pow hn]
    omega
  have hbits : b.toNat = (n.log2 + 1023) * 2 ^ 52 + (n * 2 ^ (52 - n.log2) - 2 ^ 52) := by
    rw [← toNat_pack_count hn hlt (h := h)]
    show x.toModel.toBits.toBitVec.toNat = _
    rw [hx]
    rfl
  have hlow : 2 ^ 52 ≤ n * 2 ^ (52 - n.log2) := by
    have hself := Nat.log2_self_le h.ne'
    rwa [hlog] at hself
  have hhigh : n * 2 ^ (52 - n.log2) < 2 ^ 53 := (Nat.log2_lt h.ne').1 (by omega)
  generalize hm : n * 2 ^ (52 - n.log2) = m at hbits hlow hhigh
  have hscale : b.toNat / 2 ^ 52 % 2 ^ 11 = n.log2 + 1023 := by omega
  have hfraction : 2 ^ 52 + b.toNat % 2 ^ 52 = m := by omega
  have hfinite : x.isFinite = true := by
    have hunpack := unpack_normal (b := b) (by omega) (by omega) (by omega)
    show (UnpackedFloat.unpack .binary64 b).isFinite = true
    rw [hunpack]
    rfl
  refine ⟨⟨x, hfinite⟩, rfl, ?_⟩
  rw [toCount?_eq_some (by omega)]
  have hb : Binary.ofFloat x = ⟨decide (2 ^ 63 ≤ b.toNat), 2 ^ 52 + b.toNat % 2 ^ 52,
      ((b.toNat / 2 ^ 52 % 2 ^ 11 : Nat) : Int) - 1075⟩ :=
    if_neg (show ¬ b.toNat / 2 ^ 52 % 2 ^ 11 = 0 by omega)
  show (Binary.ofFloat x).toInt? = _
  rw [hb, hfraction, hscale]
  refine Binary.toInt?_eq (decide_eq_false (by omega)) ?_
  show m * 2 ^ (((n.log2 + 1023 : Nat) : Int) - 1075).toNat
    = n * 2 ^ (-(((n.log2 + 1023 : Nat) : Int) - 1075)).toNat
  rw [show (((n.log2 + 1023 : Nat) : Int) - 1075).toNat = 0 by omega,
    show (-(((n.log2 + 1023 : Nat) : Int) - 1075)).toNat = 52 - n.log2 by omega, ← hm]
  simp

theorem isNaN_eq_false (x : Number) : x.val.isNaN = false := by
  have hfinite : x.val.toModel.unpack.isFinite = true := x.finite
  show x.val.toModel.unpack.isNaN = false
  cases h : x.val.toModel.unpack with
  | notANumber =>
    rw [h] at hfinite
    exact nomatch hfinite
  | infinity | zero | finite => rfl

/-- A count from one to 2 ^ 53 minus one is the count before it. -/
theorem exists_countdown {x : Number} (h : x.toCount? = some (n + 1)) (hn : n + 1 ≤ 2 ^ 53) :
    ∃ y : Number, y.val = x.val - one.val ∧ y.toCount? = some n := by
  obtain ⟨m, k, hm, hvalue, hunpack⟩ := unpack_count h hn
  have hone : one.val.toModel.unpack = .finite .positive (2 ^ 52) (-52) (by decide) := rfl
  have hsub : (x.val - one.val).toModel
      = .pack (normalize .binary64 ((n * 2 ^ 52 : Nat) : Int) (-52) .positive) := by
    rw [← sub_one_unpacked hm hvalue, ← hunpack, ← hone]
    rfl
  cases n with
  | zero =>
    refine ⟨⟨x.val - one.val, ?_⟩, rfl, ?_⟩
    · show (x.val - one.val).toModel.isFinite = true
      rw [hsub, Nat.zero_mul]
      rfl
    · rw [toCount?_eq_some (by decide)]
      have hzero : x.val - one.val = ⟨.pack (.zero .positive)⟩ := by
        rw [show x.val - one.val = ⟨(x.val - one.val).toModel⟩ from rfl, hsub, Nat.zero_mul]
        rfl
      rw [show (⟨x.val - one.val, _⟩ : Number).val = x.val - one.val from rfl, hzero]
      have hb : Binary.ofFloat ⟨.pack (.zero .positive)⟩ = ⟨false, 0, -1074⟩ := rfl
      rw [hb]
      exact Binary.toInt?_eq rfl ((Nat.zero_mul _).trans (Nat.zero_mul _).symm)
  | succ n =>
    have hround : (x.val - one.val).toModel
        = .pack (round .binary64 .positive ((n + 1) * 2 ^ 52) (-52)) := by
      rw [hsub, normalize_of_pos (Nat.mul_pos (Nat.succ_pos n) (Nat.two_pow_pos 52))]
    rw [round_count (Nat.succ_ne_zero n) hn] at hround
    exact count_of_pack (Nat.succ_ne_zero n) hn hround

end Number

/-- A round of a `repeat` takes one off a count of at most 2 ^ 53. -/
theorem Store.rounds_minus_one (s : Store) {v : Value} (h : s.rounds v = .ok (n + 1))
    (hn : n + 1 ≤ 2 ^ 53) :
    ∃ v', s.binary .minus v (.number .one) = .ok v' ∧ s.rounds v' = .ok n := by
  cases v with
  | number x =>
    have hcount : x.toCount? = some (n + 1) := by
      cases hx : x.toCount? with
      | none =>
        simp only [rounds, hx] at h
        exact nomatch h
      | some k =>
        simp only [rounds, hx, Except.ok.injEq] at h
        rw [h]
    obtain ⟨y, hy, hn⟩ := Number.exists_countdown hcount hn
    refine ⟨.number y, ?_, ?_⟩
    · have hchecked : ∀ operation, checkedNumber y.val operation = .ok (.number y) := by
        intro operation
        rw [checkedNumber, y.isNaN_eq_false, Number.ofFloat?, dif_pos y.finite]
        rfl
      rw [hy] at hchecked
      exact Outcome.except_bind_eq_ok.2 ⟨(x, .one), rfl, hchecked _⟩
    · simp only [rounds, hn]
  | nil | bool | string | list | callable | object => exact nomatch h

end Eleu
