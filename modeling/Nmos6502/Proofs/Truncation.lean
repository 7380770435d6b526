import Mathlib.Algebra.Order.Field.Power
import Mathlib.Data.Rat.Floor
import Mathlib.Tactic.Linarith
import Mathlib.Tactic.Positivity
import Mathlib.Tactic.Ring
import Nmos6502.Binary64

/-!
Which byte a pattern of 64 bits gives, told from the rational number that the pattern stands for.
The number loses its fraction, whatever its sign, and the byte is what is left modulo 256. The
bounds of signed integers of 64 bits show above only: all numbers below them are multiples of 256,
and so is the lower bound.
-/

namespace Nmos6502.Binary64

def signBit (bits : UInt64) : Bool := bits.toBitVec.msb

def exponentBits (bits : UInt64) : Nat := (bits.toBitVec.extractLsb' 52 11).toNat

def fractionBits (bits : UInt64) : Nat := (bits.toBitVec.extractLsb' 0 52).toNat

def IsFinite (bits : UInt64) : Prop := exponentBits bits ≠ 2047

def IsInfinite (bits : UInt64) : Prop := exponentBits bits = 2047 ∧ fractionBits bits = 0

def IsNaN (bits : UInt64) : Prop := exponentBits bits = 2047 ∧ fractionBits bits ≠ 0

instance (bits : UInt64) : Decidable (IsFinite bits) := inferInstanceAs (Decidable (_ ≠ _))

instance (bits : UInt64) : Decidable (IsInfinite bits) := inferInstanceAs (Decidable (_ ∧ _))

instance (bits : UInt64) : Decidable (IsNaN bits) := inferInstanceAs (Decidable (_ ∧ _))

/-- The absolute value of a finite pattern. Exponents have a bias of 1023. The fraction follows a
one, but at the lowest exponent it follows a zero and the exponent counts as the one above. -/
def magnitude (bits : UInt64) : ℚ :=
  if exponentBits bits = 0 then (fractionBits bits : ℚ) / 2 ^ 52 * 2 ^ (-1022 : ℤ)
  else (1 + (fractionBits bits : ℚ) / 2 ^ 52) * 2 ^ ((exponentBits bits : ℤ) - 1023)

/-- The number that a finite pattern stands for. -/
def number (bits : UInt64) : ℚ :=
  if signBit bits then -magnitude bits else magnitude bits

def towardZero (value : ℚ) : ℤ := if 0 ≤ value then ⌊value⌋ else ⌈value⌉

theorem sign_bit_eq (bits : UInt64) :
    signBit bits = decide (0x8000000000000000 ≤ bits.toNat) :=
  BitVec.msb_eq_decide bits.toBitVec

theorem exponent_bits_eq (bits : UInt64) : exponentBits bits = bits.toNat / leadingOne % 2048 := by
  rw [exponentBits, BitVec.extractLsb'_toNat, Nat.shiftRight_eq_div_pow]
  rfl

theorem fraction_bits_eq (bits : UInt64) : fractionBits bits = bits.toNat % leadingOne := by
  rw [fractionBits, BitVec.extractLsb'_toNat, Nat.shiftRight_zero]
  rfl

theorem of_bits_eq (bits : UInt64) :
    ofBits bits =
      if exponentBits bits = 2047 then
        if fractionBits bits = 0 then .infinite (signBit bits) else .nan
      else if exponentBits bits = 0 then .finite (signBit bits) (fractionBits bits) (-1074)
      else .finite (signBit bits) (leadingOne + fractionBits bits)
        ((exponentBits bits : Int) - 1075) := by
  rw [sign_bit_eq, exponent_bits_eq, fraction_bits_eq]
  rfl

/-- The mantissa has at most 53 bits. -/
theorem of_bits_finite {bits : UInt64} (finite : IsFinite bits) :
    ∃ mantissa exponent, ofBits bits = .finite (signBit bits) mantissa exponent ∧
      mantissa < 2 ^ 53 ∧ magnitude bits = (mantissa : ℚ) * 2 ^ exponent := by
  have fractionBound : fractionBits bits < 2 ^ 52 := BitVec.isLt _
  have one : (leadingOne : ℚ) = 2 ^ 52 := by norm_num [leadingOne]
  rw [of_bits_eq, if_neg finite]
  unfold magnitude
  by_cases lowest : exponentBits bits = 0
  · rw [if_pos lowest, if_pos lowest]
    refine ⟨_, _, rfl, by omega, ?_⟩
    rw [show (-1022 : ℤ) = 52 + -1074 by norm_num, zpow_add₀ (by norm_num : (2 : ℚ) ≠ 0)]
    ring
  · rw [if_neg lowest, if_neg lowest]
    refine ⟨_, _, rfl, by unfold leadingOne; omega, ?_⟩
    rw [show (exponentBits bits : ℤ) - 1023 = 52 + ((exponentBits bits : ℤ) - 1075) by ring,
      zpow_add₀ (by norm_num : (2 : ℚ) ≠ 0)]
    push_cast
    rw [one]
    ring

theorem integer_part_eq_floor (mantissa : Nat) (exponent : ℤ) :
    (integerPart mantissa exponent : ℤ) = ⌊(mantissa : ℚ) * 2 ^ exponent⌋ := by
  cases exponent with
  | ofNat exponent =>
      have whole : (mantissa : ℚ) * 2 ^ (Int.ofNat exponent) = (mantissa * 2 ^ exponent : ℕ) := by
        push_cast
        rfl
      rw [whole, Int.floor_natCast, integerPart, Nat.shiftLeft_eq]
  | negSucc exponent =>
      have quotient : (mantissa : ℚ) * 2 ^ (Int.negSucc exponent) =
          (mantissa : ℚ) / (2 ^ (exponent + 1) : ℕ) := by
        rw [zpow_negSucc, div_eq_mul_inv]
        push_cast
        rfl
      rw [quotient, Rat.floor_natCast_div_natCast, integerPart, Nat.shiftRight_eq_div_pow]
      push_cast
      rfl

theorem toward_zero_of_nonneg {value : ℚ} (nonneg : 0 ≤ value) : towardZero value = ⌊value⌋ :=
  if_pos nonneg

theorem toward_zero_neg {value : ℚ} (nonneg : 0 ≤ value) : towardZero (-value) = -⌊value⌋ := by
  unfold towardZero
  split
  · have zero : value = 0 := by linarith
    simp [zero]
  · exact Int.ceil_neg

theorem toward_zero_int (value : ℤ) : towardZero value = value := by
  unfold towardZero
  split <;> simp

theorem magnitude_nonneg (bits : UInt64) : 0 ≤ magnitude bits := by
  unfold magnitude
  split <;> positivity

/-- What is left of the number is brought into the range of the integers. -/
theorem truncate_finite {bits : UInt64} (finite : IsFinite bits) :
    (ofBits bits).truncate = max lowest (min highest (towardZero (number bits))) := by
  obtain ⟨mantissa, exponent, decoded, -, value⟩ := of_bits_finite finite
  have nonneg := magnitude_nonneg bits
  rw [decoded, truncate, integer_part_eq_floor, ← value, number]
  cases signBit bits with
  | false => rw [if_neg Bool.false_ne_true, if_neg Bool.false_ne_true, toward_zero_of_nonneg nonneg]
  | true => rw [if_pos rfl, if_pos rfl, toward_zero_neg nonneg]

/-- A mantissa of 53 bits reaches the bounds with an exponent of ten or more only, and with eight
the number is a multiple of 256 already. -/
theorem multiple_of_large {bits : UInt64} (finite : IsFinite bits)
    (large : 2 ^ 63 ≤ magnitude bits) : ∃ count : ℤ, magnitude bits = 256 * count := by
  obtain ⟨mantissa, exponent, -, narrow, value⟩ := of_bits_finite finite
  have high : 8 ≤ exponent := by
    by_contra low
    have power : (2 : ℚ) ^ exponent ≤ 2 ^ (10 : ℤ) :=
      zpow_le_zpow_right₀ (by norm_num) (by omega)
    have mantissaBound : (mantissa : ℚ) < 2 ^ 53 := by exact_mod_cast narrow
    have small : (mantissa : ℚ) * 2 ^ exponent < 2 ^ 53 * 2 ^ (10 : ℤ) :=
      mul_lt_mul mantissaBound power (by positivity) (by positivity)
    rw [← value] at small
    norm_num at small large
    linarith
  obtain ⟨surplus, rfl⟩ := Int.le.dest high
  refine ⟨mantissa * 2 ^ surplus, ?_⟩
  rw [value, zpow_add₀ (by norm_num : (2 : ℚ) ≠ 0), zpow_natCast]
  push_cast
  ring

theorem low_byte_of_int (value : ℤ) : ((lowByteOf value).toNat : ℤ) = value % 256 := by
  rw [lowByteOf, UInt8.toNat_ofNat']
  omega

theorem toward_zero_le {value : ℚ} {bound : ℤ} (nonneg : 0 ≤ bound) (below : value < bound + 1) :
    towardZero value ≤ bound := by
  unfold towardZero
  split
  · apply Int.floor_le_iff.mpr
    exact below
  · apply Int.ceil_le.mpr
    have bound : (0 : ℚ) ≤ bound := by exact_mod_cast nonneg
    linarith

theorem le_toward_zero {value : ℚ} {bound : ℤ} (above : (bound : ℚ) ≤ value) :
    bound ≤ towardZero value := by
  unfold towardZero
  split
  · exact Int.le_floor.mpr above
  · have ceiling := above.trans (Int.le_ceil value)
    exact_mod_cast ceiling

theorem toward_zero_of_small {value : ℚ} (above : -1 < value) (below : value < 1) :
    towardZero value = 0 := by
  unfold towardZero
  split
  · apply Int.floor_eq_zero_iff.mpr
    constructor <;> assumption
  · apply Int.ceil_eq_iff.mpr
    constructor <;> norm_num <;> linarith

/-- Every finite number beyond the lower bound is a multiple of 256. -/
theorem multiple_below {bits : UInt64} (finite : IsFinite bits) (below : number bits ≤ -2 ^ 63) :
    ∃ count : ℤ, number bits = 256 * count := by
  have nonneg := magnitude_nonneg bits
  unfold number at below ⊢
  split at below
  case isTrue negative =>
    obtain ⟨count, multiple⟩ := multiple_of_large finite (by linarith)
    refine ⟨-count, ?_⟩
    rw [if_pos negative, multiple]
    push_cast
    ring
  case isFalse => linarith

theorem truncate_below {bits : UInt64} (finite : IsFinite bits) (below : number bits ≤ -2 ^ 63) :
    (ofBits bits).truncate = lowest := by
  have bounded : towardZero (number bits) ≤ lowest := by
    unfold towardZero
    split
    · linarith
    · apply Int.ceil_le.mpr
      norm_num [lowest] at below ⊢
      exact below
  have smaller : lowest ≤ highest := by decide
  rw [truncate_finite finite, min_eq_right (bounded.trans smaller), max_eq_left bounded]

/-- Below the upper bound the byte is the integer part modulo 256. -/
theorem byte_of_number {bits : UInt64} (finite : IsFinite bits) (below : number bits < 2 ^ 63) :
    ((ofBits bits).toByte.toNat : ℤ) = towardZero (number bits) % 256 := by
  rw [toByte, low_byte_of_int]
  -- At the lower bound and beyond, the integer part is not what is left, but both are multiples.
  by_cases far : number bits ≤ -2 ^ 63
  · obtain ⟨count, multiple⟩ := multiple_below finite far
    have whole : number bits = (256 * count : ℤ) := by
      rw [multiple]
      push_cast
      rfl
    have bound : lowest % 256 = 0 := by decide
    rw [truncate_below finite far, whole, toward_zero_int, bound, Int.mul_emod_right]
  · have upper : towardZero (number bits) ≤ highest := by
      apply toward_zero_le
      · decide
      · norm_num [highest] at below ⊢
        exact below
    have lower : lowest ≤ towardZero (number bits) := by
      apply le_toward_zero
      norm_num [lowest] at far ⊢
      exact far.le
    rw [truncate_finite finite, min_eq_right upper, max_eq_right lower]

-- 300 and -1.
example : (ofBits 0x4072C00000000000).toByte = 0x2C ∧
    (ofBits 0xBFF0000000000000).toByte = 0xFF := by
  decide

theorem byte_above {bits : UInt64} (finite : IsFinite bits) (above : 2 ^ 63 ≤ number bits) :
    (ofBits bits).toByte = 0xFF := by
  have bounded : highest ≤ towardZero (number bits) := by
    apply le_toward_zero
    norm_num [highest] at above ⊢
    linarith
  have larger : lowest ≤ highest := by decide
  have byte : lowByteOf highest = 0xFF := by decide
  rw [toByte, truncate_finite finite, min_eq_left bounded, max_eq_right larger, byte]

theorem byte_of_infinite {bits : UInt64} (infinite : IsInfinite bits) :
    (ofBits bits).toByte = if signBit bits then 0 else 0xFF := by
  rw [of_bits_eq, if_pos infinite.1, if_pos infinite.2]
  cases signBit bits <;> decide

theorem byte_of_nan {bits : UInt64} (nan : IsNaN bits) : (ofBits bits).toByte = 0 := by
  rw [of_bits_eq, if_pos nan.1, if_neg nan.2]
  decide

theorem finite_of_lowest_exponent {bits : UInt64} (lowest : exponentBits bits = 0) :
    IsFinite bits := by
  unfold IsFinite
  omega

/-- Without a leading one the number has no integer part. -/
theorem number_of_lowest_exponent {bits : UInt64} (lowest : exponentBits bits = 0) :
    -1 < number bits ∧ number bits < 1 := by
  have bound : (fractionBits bits : ℚ) < 2 ^ 52 := by exact_mod_cast BitVec.isLt _
  have part : (fractionBits bits : ℚ) / 2 ^ 52 < 1 := (div_lt_one (by positivity)).mpr bound
  have power : (2 : ℚ) ^ (-1022 : ℤ) ≤ 1 := zpow_le_one_of_nonpos₀ (by norm_num) (by norm_num)
  have small : magnitude bits < 1 := by
    unfold magnitude
    rw [if_pos lowest]
    calc (fractionBits bits : ℚ) / 2 ^ 52 * 2 ^ (-1022 : ℤ)
        ≤ (fractionBits bits : ℚ) / 2 ^ 52 * 1 := mul_le_mul_of_nonneg_left power (by positivity)
      _ < 1 := by rwa [mul_one]
  have nonneg := magnitude_nonneg bits
  unfold number
  split <;> constructor <;> linarith

theorem byte_of_lowest_exponent {bits : UInt64} (lowest : exponentBits bits = 0) :
    (ofBits bits).toByte = 0 := by
  obtain ⟨above, below⟩ := number_of_lowest_exponent lowest
  have byte := byte_of_number (finite_of_lowest_exponent lowest) (by linarith)
  rw [toward_zero_of_small above below] at byte
  apply UInt8.toNat_inj.mp
  exact_mod_cast byte

/-- Whatever the pattern, the byte is the integer part of the number modulo 256 for every finite
number below the upper bound. Numbers beyond the lower bound are brought up to it, which does not
show because they and the bound are multiples of 256, and the numbers without a leading one, the
zeros among them, give zero. All numbers from the upper bound on give the low byte of the highest
integer, as the positive infinity does. The negative infinity and what is not a number give zero. -/
theorem byte_of_every_pattern (bits : UInt64) :
    (IsFinite bits → number bits < 2 ^ 63 →
      ((ofBits bits).toByte.toNat : ℤ) = towardZero (number bits) % 256) ∧
    (IsFinite bits → number bits ≤ -2 ^ 63 →
      (ofBits bits).truncate = -2 ^ 63 ∧ ∃ count : ℤ, number bits = 256 * count) ∧
    (exponentBits bits = 0 → IsFinite bits ∧ number bits < 2 ^ 63 ∧ (ofBits bits).toByte = 0) ∧
    (IsFinite bits → 2 ^ 63 ≤ number bits → (ofBits bits).toByte = 0xFF) ∧
    (IsInfinite bits → (ofBits bits).toByte = if signBit bits then 0 else 0xFF) ∧
    (IsNaN bits → (ofBits bits).toByte = 0) := by
  refine ⟨byte_of_number, ?_, ?_, byte_above, byte_of_infinite, byte_of_nan⟩
  · intro finite below
    constructor
    · rw [truncate_below finite below]
      rfl
    · exact multiple_below finite below
  · intro zeroExponent
    have small := number_of_lowest_exponent zeroExponent
    refine ⟨finite_of_lowest_exponent zeroExponent, ?_, byte_of_lowest_exponent zeroExponent⟩
    linarith

/-- From -299.9, -2 ^ 63 - 2048, the negative number next to zero, 2 ^ 63, an infinity and a pattern
that is not a number. -/
theorem bytes_of_patterns :
    ((IsFinite 0xC072BE6666666666 ∧ number 0xC072BE6666666666 < 2 ^ 63) ∧
      (ofBits 0xC072BE6666666666).toByte = 213) ∧
    ((IsFinite 0xC3E0000000000001 ∧ number 0xC3E0000000000001 ≤ -2 ^ 63) ∧
      (ofBits 0xC3E0000000000001).truncate = -2 ^ 63) ∧
    (exponentBits 0x8000000000000001 = 0 ∧ (ofBits 0x8000000000000001).toByte = 0) ∧
    ((IsFinite 0x43E0000000000000 ∧ 2 ^ 63 ≤ number 0x43E0000000000000) ∧
      (ofBits 0x43E0000000000000).toByte = 0xFF) ∧
    (IsInfinite 0xFFF0000000000000 ∧ (ofBits 0xFFF0000000000000).toByte = 0) ∧
    (IsNaN 0x7FF8000000000000 ∧ (ofBits 0x7FF8000000000000).toByte = 0) := by
  have fractional : IsFinite 0xC072BE6666666666 ∧ number 0xC072BE6666666666 < 2 ^ 63 := by
    decide +kernel
  have beyond : IsFinite 0xC3E0000000000001 ∧ number 0xC3E0000000000001 ≤ -2 ^ 63 := by
    decide +kernel
  have tiny : exponentBits 0x8000000000000001 = 0 := by decide +kernel
  have above : IsFinite 0x43E0000000000000 ∧ 2 ^ 63 ≤ number 0x43E0000000000000 := by
    decide +kernel
  have infinite : IsInfinite 0xFFF0000000000000 := by decide +kernel
  have nan : IsNaN 0x7FF8000000000000 := by decide +kernel
  refine ⟨⟨fractional, ?_⟩, ⟨beyond, ?_⟩, ⟨tiny, ?_⟩, ⟨above, ?_⟩, ⟨infinite, ?_⟩, ⟨nan, ?_⟩⟩
  · have byte := (byte_of_every_pattern 0xC072BE6666666666).1 fractional.1 fractional.2
    have left : towardZero (number 0xC072BE6666666666) % 256 = 213 := by decide +kernel
    rw [left] at byte
    apply UInt8.toNat_inj.mp
    exact_mod_cast byte
  · exact ((byte_of_every_pattern 0xC3E0000000000001).2.1 beyond.1 beyond.2).1
  · exact ((byte_of_every_pattern 0x8000000000000001).2.2.1 tiny).2.2
  · exact (byte_of_every_pattern 0x43E0000000000000).2.2.2.1 above.1 above.2
  · exact (byte_of_every_pattern 0xFFF0000000000000).2.2.2.2.1 infinite
  · exact (byte_of_every_pattern 0x7FF8000000000000).2.2.2.2.2 nan

end Nmos6502.Binary64
