import Mathlib.Data.Int.ModEq
import Mathlib.Data.List.Chain
import Mathlib.Data.Nat.Digits.Defs
import Nmos6502.Alu

/-!
Numbers of several bytes and their addition column by column. A column adds two bytes and the carry
of the column below it. Columns that hand their carries on add the numbers that their bytes make up,
and the signs in the top column tell whether the sum is one of so many bytes in two's complement.
-/

namespace Nmos6502

namespace Bytes

/-- The number that the bytes make up, the lowest first. -/
def value (bytes : List Byte) : Nat := Nat.ofDigits 256 (bytes.map UInt8.toNat)

def topBit (bytes : List Byte) : Bool := (value bytes).testBit (8 * bytes.length - 1)

/-- The number that the bytes make up in two's complement. -/
def signed (bytes : List Byte) : Int :=
  value bytes - if topBit bytes then 256 ^ bytes.length else 0

/-- The number can be written in two's complement with so many bytes. -/
def FitsSigned (length : Nat) (number : Int) : Prop :=
  -2 ^ (8 * length - 1) ≤ number ∧ number ≤ 2 ^ (8 * length - 1) - 1

instance (length : Nat) (number : Int) : Decidable (FitsSigned length number) :=
  inferInstanceAs (Decidable (_ ∧ _))

theorem value_nil : value [] = 0 := rfl

theorem value_cons (low : Byte) (rest : List Byte) :
    value (low :: rest) = low.toNat + 256 * value rest :=
  Nat.ofDigits_cons

theorem value_lt (bytes : List Byte) : value bytes < 256 ^ bytes.length := by
  have digits : ∀ digit ∈ bytes.map UInt8.toNat, digit < 256 := by
    intro digit member
    obtain ⟨byte, -, rfl⟩ := List.mem_map.mp member
    exact byte.toNat_lt
  have bound := Nat.ofDigits_lt_base_pow_length (by decide : 1 < 256) digits
  rwa [List.length_map] at bound

theorem space_eq_halves {length : Nat} (some : 0 < length) :
    256 ^ length = 2 * 2 ^ (8 * length - 1) := by
  have bits : 8 * length = 8 * length - 1 + 1 := by omega
  rw [show 256 = 2 ^ 8 from rfl, ← Nat.pow_mul, bits, Nat.pow_succ, Nat.mul_comm]
  rfl

theorem top_bit_iff {bytes : List Byte} (some : bytes ≠ []) :
    topBit bytes = true ↔ 2 ^ (8 * bytes.length - 1) ≤ value bytes := by
  have bound := value_lt bytes
  rw [space_eq_halves (List.length_pos_of_ne_nil some)] at bound
  rw [topBit, Nat.testBit_eq_decide_div_mod_eq, decide_eq_true_iff]
  have positive : 0 < 2 ^ (8 * bytes.length - 1) := Nat.two_pow_pos _
  generalize 2 ^ (8 * bytes.length - 1) = half at bound positive ⊢
  constructor
  · intro odd
    by_contra below
    rw [Nat.div_eq_of_lt (Nat.lt_of_not_le below)] at odd
    omega
  · intro above
    have once : value bytes / half = 1 := Nat.div_eq_of_lt_le (by omega) (by omega)
    rw [once]

theorem top_bit_cons (low : Byte) {rest : List Byte} (some : rest ≠ []) :
    topBit (low :: rest) = topBit rest := by
  have bound := low.toNat_lt
  have length : 8 * (low :: rest).length - 1 = 8 + (8 * rest.length - 1) := by
    have positive := List.length_pos_of_ne_nil some
    rw [List.length_cons]
    omega
  apply Bool.eq_iff_iff.mpr
  rw [top_bit_iff some, top_bit_iff (List.cons_ne_nil low rest), length, value_cons, Nat.pow_add]
  omega

/-- What is true of the byte for each number is true of each byte. -/
theorem byte_of_codes {property : Byte → Prop} (codes : ∀ code < 256, property (UInt8.ofNat code))
    (byte : Byte) : property byte := by
  have holds := codes byte.toNat byte.toNat_lt
  rwa [UInt8.ofNat_toNat] at holds

theorem top_bit_singleton (byte : Byte) : topBit [byte] = (byte &&& 0x80 != 0) := by
  apply byte_of_codes _ byte
  decide +kernel

theorem top_bit_eq_last {bytes : List Byte} (some : bytes ≠ []) :
    topBit bytes = (bytes.getLast some &&& 0x80 != 0) := by
  induction bytes with
  | nil => exact absurd rfl some
  | cons low rest induction =>
      by_cases last : rest = []
      · subst last
        exact top_bit_singleton low
      · rw [top_bit_cons low last, induction last, List.getLast_cons last]

theorem signed_cons (low : Byte) {rest : List Byte} (some : rest ≠ []) :
    signed (low :: rest) = low.toNat + 256 * signed rest := by
  rw [signed, signed, top_bit_cons low some, value_cons, List.length_cons, Int.pow_succ]
  push_cast
  split <;> omega

theorem signed_singleton (byte : Byte) :
    signed [byte] = byte.toNat - if 128 ≤ byte.toNat then 256 else 0 := by
  have top : topBit [byte] = true ↔ 128 ≤ byte.toNat := top_bit_iff (List.cons_ne_nil byte [])
  simp only [signed, top]
  rfl

theorem complement_to_nat (byte : Byte) : (~~~byte).toNat = 255 - byte.toNat :=
  UInt8.toNat_not byte

theorem value_complement (bytes : List Byte) :
    value (bytes.map (~~~·)) + value bytes + 1 = 256 ^ bytes.length := by
  induction bytes with
  | nil => rfl
  | cons low rest induction =>
      have bound := low.toNat_lt
      rw [List.map_cons, value_cons, value_cons, complement_to_nat, List.length_cons, Nat.pow_succ,
        ← induction]
      omega

/-- To add the complement is to subtract. The carry says that nothing was borrowed. -/
theorem difference_of_sum {length : Nat} {x y z : List Byte} {carryIn carryOut : Bool}
    (yLength : y.length = length) (zLength : z.length = length)
    (sum : value z + 256 ^ length * carryOut.toNat =
      value x + value (y.map (~~~·)) + carryIn.toNat) :
    (value z : Int) = (value x - value y - (1 - carryIn.toNat)) % 256 ^ length ∧
      (carryOut = true ↔ value y + (1 - carryIn.toNat) ≤ value x) := by
  have complement := value_complement y
  have bound := value_lt z
  have carryBound := Bool.toNat_le carryIn
  have space : (256 : Int) ^ length = (256 ^ length : Nat) := by
    push_cast
    rfl
  rw [yLength] at complement
  rw [zLength] at bound
  rw [space]
  generalize 256 ^ length = size at sum complement bound ⊢
  cases carryOut with
  | false =>
      rw [Bool.toNat_false, Nat.mul_zero] at sum
      have lifted : ((value x : Int) - value y - (1 - carryIn.toNat)) % size =
          value x - value y - (1 - carryIn.toNat) + size := by
        rw [← Int.add_emod_right]
        exact Int.emod_eq_of_lt (by omega) (by omega)
      rw [lifted]
      simp only [Bool.false_eq_true, false_iff]
      omega
  | true =>
      rw [Bool.toNat_true, Nat.mul_one] at sum
      rw [Int.emod_eq_of_lt (by omega) (by omega)]
      simp only [true_iff]
      omega

theorem top_bit_complement {bytes : List Byte} (some : bytes ≠ []) :
    topBit (bytes.map (~~~·)) = !topBit bytes := by
  have complement := value_complement bytes
  have halves := space_eq_halves (List.length_pos_of_ne_nil some)
  have mapped : bytes.map (~~~·) ≠ [] := by simpa using some
  have flipped := top_bit_iff mapped
  have top := top_bit_iff some
  rw [List.length_map] at flipped
  apply Bool.eq_iff_iff.mpr
  rw [flipped, Bool.not_eq_true', ← Bool.not_eq_true, top]
  omega

theorem signed_complement {bytes : List Byte} (some : bytes ≠ []) :
    signed (bytes.map (~~~·)) = -1 - signed bytes := by
  have complement := value_complement bytes
  have space : (256 : Int) ^ bytes.length = (256 ^ bytes.length : Nat) := by
    push_cast
    rfl
  rw [signed, signed, top_bit_complement some, List.length_map, space]
  cases topBit bytes with
  | false =>
      rw [if_pos (by decide), if_neg (by decide)]
      omega
  | true =>
      rw [if_neg (by decide), if_pos (by decide)]
      omega

theorem signed_fits {bytes : List Byte} (some : bytes ≠ []) :
    FitsSigned bytes.length (signed bytes) := by
  have bound := value_lt bytes
  have halves := space_eq_halves (List.length_pos_of_ne_nil some)
  have top := top_bit_iff some
  rw [halves] at bound
  have space : (256 : Int) ^ bytes.length = 2 * 2 ^ (8 * bytes.length - 1) := by
    exact_mod_cast halves
  have half : (2 : Int) ^ (8 * bytes.length - 1) = (2 ^ (8 * bytes.length - 1) : Nat) := by
    push_cast
    rfl
  rw [FitsSigned, signed, space, half]
  by_cases negative : topBit bytes = true
  · rw [if_pos negative]
    rw [top] at negative
    omega
  · rw [if_neg negative]
    rw [top] at negative
    omega

/-- To count the top bit as negative changes a number by a multiple of the whole space. -/
theorem signed_emod (bytes : List Byte) :
    signed bytes ≡ value bytes [ZMOD 256 ^ bytes.length] := by
  rw [signed]
  split
  · exact Int.sub_emod_right _ _
  · rw [Int.sub_zero]

/-- The top bit of a number that wraps around once at most is its sign, unless the number needs
another byte. -/
theorem negative_iff {bytes : List Byte} (some : bytes ≠ []) {number : Int}
    (wrapped : (value bytes : Int) = number % 256 ^ bytes.length)
    (above : -256 ^ bytes.length ≤ number) (below : number < 256 ^ bytes.length) :
    number < 0 ↔ (topBit bytes = true ↔ FitsSigned bytes.length number) := by
  have halves := space_eq_halves (List.length_pos_of_ne_nil some)
  have space : (256 : Int) ^ bytes.length = 2 * 2 ^ (8 * bytes.length - 1) := by
    exact_mod_cast halves
  have top : topBit bytes = true ↔ (2 : Int) ^ (8 * bytes.length - 1) ≤ value bytes := by
    rw [top_bit_iff some]
    exact_mod_cast Iff.rfl
  rw [top, wrapped, FitsSigned]
  rw [space] at above below ⊢
  generalize (2 : Int) ^ (8 * bytes.length - 1) = half at above below ⊢
  rcases lt_or_ge number 0 with negative | positive
  · have lifted : number % (2 * half) = number + 2 * half := by
      rw [← Int.add_emod_right]
      exact Int.emod_eq_of_lt (by omega) (by omega)
    rw [lifted]
    omega
  · rw [Int.emod_eq_of_lt positive below]
    omega

/-- The top bit of a difference and its overflow tell together which number is the smaller one. -/
theorem signed_lt_iff {length : Nat} {x y z : List Byte} (some : z ≠ [])
    (xLength : x.length = length) (yLength : y.length = length) (zLength : z.length = length)
    (difference : (value z : Int) = (value x - value y) % 256 ^ length) :
    signed x < signed y ↔ (topBit z = true ↔ FitsSigned length (signed x - signed y)) := by
  have positive : 0 < length := zLength ▸ List.length_pos_of_ne_nil some
  have space : (256 : Int) ^ length = 2 * 2 ^ (8 * length - 1) := by
    exact_mod_cast space_eq_halves positive
  have xFits := signed_fits (List.ne_nil_of_length_pos (by omega : 0 < x.length))
  have yFits := signed_fits (List.ne_nil_of_length_pos (by omega : 0 < y.length))
  have wrapped : (value z : Int) = (signed x - signed y) % 256 ^ z.length := by
    have xWraps := signed_emod x
    have yWraps := signed_emod y
    rw [xLength] at xWraps
    rw [yLength] at yWraps
    rw [difference, zLength]
    exact (xWraps.sub yWraps).symm
  rw [FitsSigned, xLength] at xFits
  rw [FitsSigned, yLength] at yFits
  have sign := negative_iff some wrapped (by rw [zLength, space]; omega)
    (by rw [zLength, space]; omega)
  rw [zLength] at sign
  rw [← sign]
  omega

/-- The lowest byte does not decide whether the others are enough. -/
theorem fits_signed_succ {length : Nat} (some : 0 < length) (low : Byte) (high : Int) :
    FitsSigned (length + 1) (low.toNat + 256 * high) ↔ FitsSigned length high := by
  have bound := low.toNat_lt
  have bits : 8 * (length + 1) - 1 = 8 * length - 1 + 8 := by omega
  rw [FitsSigned, FitsSigned, bits, Int.pow_add]
  omega

end Bytes

namespace Alu

theorem sign_eq_test_bit (byte : Byte) : (byte &&& 0x80 != 0) = byte.toNat.testBit 7 := by
  rw [← Bytes.top_bit_singleton, Bytes.topBit, Bytes.value_cons]
  rfl

/-- The operands overflow when both differ in sign from the result. -/
theorem overflows_iff (left right result : Byte) :
    overflows left right result = true ↔
      ¬(128 ≤ left.toNat ↔ 128 ≤ result.toNat) ∧ ¬(128 ≤ right.toNat ↔ 128 ≤ result.toNat) := by
  have sign (byte : Byte) : byte.toNat.testBit 7 = decide (128 ≤ byte.toNat) := by
    have bound := byte.toNat_lt
    rw [Nat.testBit_eq_decide_div_mod_eq]
    apply decide_eq_decide.mpr
    omega
  rw [overflows, sign_eq_test_bit, UInt8.toNat_and, Nat.testBit_and, UInt8.toNat_xor,
    Nat.testBit_xor, UInt8.toNat_xor, Nat.testBit_xor, sign, sign, sign]
  simp only [Bool.and_eq_true, bne_iff_ne, ne_eq, decide_eq_decide]

end Alu

/-- A column of an addition: two bytes and the carry into them add up to a byte and a carry. -/
structure Column where
  left : Byte
  right : Byte
  carryIn : Bool
  result : Byte
  carryOut : Bool
  exact : result.toNat + 256 * carryOut.toNat = left.toNat + right.toNat + carryIn.toNat

namespace Column

open Bytes

/-- The carry out of the lower column goes into the higher one. -/
def Feeds (low high : Column) : Prop := high.carryIn = low.carryOut

/-- The operands determine the rest of a column. -/
theorem ext_operands {column other : Column} (left : column.left = other.left)
    (right : column.right = other.right) (carryIn : column.carryIn = other.carryIn) :
    column = other := by
  obtain ⟨leftByte, rightByte, carry, result, carryOut, exact⟩ := column
  obtain ⟨_, _, _, otherResult, otherCarryOut, otherExact⟩ := other
  dsimp only at left right carryIn
  subst left right carryIn
  have bound := result.toNat_lt
  have otherBound := otherResult.toNat_lt
  have results : result = otherResult := UInt8.toNat_inj.mp (by omega)
  have carries : carryOut = otherCarryOut := by
    have same : carryOut.toNat = otherCarryOut.toNat := by omega
    rw [← Bool.ofNat_toNat carryOut, same, Bool.ofNat_toNat]
  subst results carries
  rfl

/-- So do the operands of a whole addition. -/
theorem columns_ext_operands {columns others : List Column} (fed : columns.IsChain Feeds)
    (othersFed : others.IsChain Feeds) (left : columns.map Column.left = others.map Column.left)
    (right : columns.map Column.right = others.map Column.right)
    (carryIn : ∀ first ∈ columns.head?, ∀ other ∈ others.head?, first.carryIn = other.carryIn) :
    columns = others := by
  induction columns generalizing others with
  | nil => exact (List.map_eq_nil_iff.mp left.symm).symm
  | cons column rest induction =>
      cases others with
      | nil => cases left
      | cons other later =>
          rw [List.map_cons, List.map_cons, List.cons.injEq] at left right
          have first : column = other := by
            apply ext_operands left.1 right.1
            exact carryIn column rfl other rfl
          subst first
          have others : rest = later := by
            apply induction fed.tail othersFed.tail left.2 right.2
            intro next member otherNext otherMember
            exact (fed.rel_head? member).trans (othersFed.rel_head? otherMember).symm
          rw [others]

/-- What the columns make up is the sum of the numbers that are added. -/
theorem columns_add {columns : List Column} (some : columns ≠ []) (fed : columns.IsChain Feeds) :
    value (columns.map result) + 256 ^ columns.length * (columns.getLast some).carryOut.toNat =
      value (columns.map left) + value (columns.map right) +
        (columns.head some).carryIn.toNat := by
  induction columns with
  | nil => exact absurd rfl some
  | cons low rest induction =>
      have column := low.exact
      rw [List.map_cons, List.map_cons, List.map_cons, value_cons, value_cons, value_cons,
        List.length_cons, Nat.pow_succ, List.head_cons]
      cases rest with
      | nil =>
          rw [List.getLast_singleton, List.map_nil, List.map_nil, List.map_nil, value_nil,
            List.length_nil, Nat.pow_zero]
          omega
      | cons next later =>
          have above := induction (List.cons_ne_nil next later) fed.tail
          have carried : next.carryIn = low.carryOut := (List.isChain_cons_cons.mp fed).1
          rw [List.head_cons, carried] at above
          rw [List.getLast_cons (List.cons_ne_nil next later), Nat.mul_comm _ 256, Nat.mul_assoc]
          generalize 256 ^ (next :: later).length *
            ((next :: later).getLast _).carryOut.toNat = carry at above ⊢
          omega

theorem singleton_overflows (column : Column) :
    Alu.overflows column.left column.right column.result = true ↔
      ¬FitsSigned 1 (signed [column.left] + signed [column.right] + column.carryIn.toNat) := by
  have leftBound := column.left.toNat_lt
  have rightBound := column.right.toNat_lt
  have resultBound := column.result.toNat_lt
  have carryBound := Bool.toNat_le column.carryIn
  have carriedBound := Bool.toNat_le column.carryOut
  have sum := column.exact
  have range (number : Int) : FitsSigned 1 number ↔ -128 ≤ number ∧ number ≤ 127 := Iff.rfl
  rw [Alu.overflows_iff, range, signed_singleton, signed_singleton]
  split <;> split <;> omega

/-- The signs in the top column tell whether the signed sum is too large for the columns. -/
theorem columns_overflow {columns : List Column} (some : columns ≠ [])
    (fed : columns.IsChain Feeds) :
    let last := columns.getLast some
    Alu.overflows last.left last.right last.result = true ↔
      ¬FitsSigned columns.length (signed (columns.map left) + signed (columns.map right) +
        (columns.head some).carryIn.toNat) := by
  induction columns with
  | nil => exact absurd rfl some
  | cons low rest induction =>
      cases rest with
      | nil => exact singleton_overflows low
      | cons next later =>
          have rest : next :: later ≠ [] := List.cons_ne_nil next later
          have above := induction rest fed.tail
          have carried : next.carryIn = low.carryOut := (List.isChain_cons_cons.mp fed).1
          have column := low.exact
          have lefts : signed ((low :: next :: later).map left) =
              low.left.toNat + 256 * signed ((next :: later).map left) :=
            signed_cons low.left (List.cons_ne_nil next.left _)
          have rights : signed ((low :: next :: later).map right) =
              low.right.toNat + 256 * signed ((next :: later).map right) :=
            signed_cons low.right (List.cons_ne_nil next.right _)
          have sum : signed ((low :: next :: later).map left) +
              signed ((low :: next :: later).map right) + low.carryIn.toNat =
              low.result.toNat + 256 * (signed ((next :: later).map left) +
                signed ((next :: later).map right) + low.carryOut.toNat) := by
            rw [lefts, rights]
            omega
          rw [List.head_cons, carried] at above
          rw [List.getLast_cons rest, List.head_cons, sum, List.length_cons,
            fits_signed_succ (List.length_pos_of_ne_nil rest)]
          exact above

end Column

end Nmos6502
