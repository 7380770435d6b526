import Nmos6502.Flags

/-!
Arithmetic and shifts on bytes. Every operation returns its result together with the flags
it leaves behind. Arithmetic is binary whatever the decimal flag says, and subtraction is
addition of the complement, so that a set carry means that nothing was borrowed.
-/

namespace Nmos6502.Alu

/-- The operands overflow when they agree in sign and the result does not. -/
def overflows (left right result : Byte) : Bool :=
  (left ^^^ result) &&& (right ^^^ result) &&& 0x80 != 0

def add (left right : Byte) (flags : Flags) : Byte × Flags :=
  let sum := left.toUInt16 + right.toUInt16 + flags.carry.toUInt16
  let result := sum.toUInt8
  let carried := { flags with carry := sum > 0xFF, overflow := overflows left right result }
  (result, carried.setNZ result)

theorem sum_to_nat (left right : Byte) (carry : Bool) :
    (left.toUInt16 + right.toUInt16 + carry.toUInt16).toNat =
      left.toNat + right.toNat + carry.toNat := by
  have leftBound := left.toNat_lt
  have rightBound := right.toNat_lt
  have carryBits : carry.toUInt16.toNat = carry.toNat := by cases carry <;> rfl
  have carryBound : carry.toNat ≤ 1 := Bool.toNat_le carry
  rw [UInt16.toNat_add, UInt16.toNat_add, UInt8.toNat_toUInt16, UInt8.toNat_toUInt16, carryBits]
  omega

/-- The carry is the ninth bit of the sum. -/
theorem add_to_nat (left right : Byte) (flags : Flags) :
    (add left right flags).1.toNat + 256 * (add left right flags).2.carry.toNat =
      left.toNat + right.toNat + flags.carry.toNat := by
  have leftBound := left.toNat_lt
  have rightBound := right.toNat_lt
  have carryBound : flags.carry.toNat ≤ 1 := Bool.toNat_le flags.carry
  have sum := sum_to_nat left right flags.carry
  have wide : (0xFF : Word) < left.toUInt16 + right.toUInt16 + flags.carry.toUInt16 ↔
      255 < left.toNat + right.toNat + flags.carry.toNat := by
    rw [UInt16.lt_iff_toNat_lt, sum]
    rfl
  simp only [add, Flags.setNZ, UInt16.toNat_toUInt8, sum, gt_iff_lt, wide]
  by_cases carried : 255 < left.toNat + right.toNat + flags.carry.toNat
  · simp only [carried, decide_true, Bool.toNat_true]
    omega
  · simp only [carried, decide_false, Bool.toNat_false]
    omega

def subtract (left right : Byte) (flags : Flags) : Byte × Flags := add left (~~~right) flags

/-- Only the flags of a difference are kept; overflow is not among them. -/
def compare (left right : Byte) (flags : Flags) : Flags :=
  { flags with carry := left ≥ right }.setNZ (left - right)

/-- Z is taken from the bits that both bytes have, N and V from the memory byte alone. -/
def testBits (accumulator operand : Byte) (flags : Flags) : Flags :=
  { flags with
    zero := accumulator &&& operand == 0
    negative := operand &&& 0x80 != 0
    overflow := operand &&& 0x40 != 0 }

def shiftLeft (value : Byte) (flags : Flags) : Byte × Flags :=
  let result := value <<< 1
  (result, { flags with carry := value &&& 0x80 != 0 }.setNZ result)

def shiftRight (value : Byte) (flags : Flags) : Byte × Flags :=
  let result := value >>> 1
  (result, { flags with carry := value &&& 0x01 != 0 }.setNZ result)

def rotateLeft (value : Byte) (flags : Flags) : Byte × Flags :=
  let result := value <<< 1 ||| flags.carry.toUInt8
  (result, { flags with carry := value &&& 0x80 != 0 }.setNZ result)

def rotateRight (value : Byte) (flags : Flags) : Byte × Flags :=
  let result := value >>> 1 ||| flags.carry.toUInt8 <<< 7
  (result, { flags with carry := value &&& 0x01 != 0 }.setNZ result)

def increment (value : Byte) (flags : Flags) : Byte × Flags :=
  (value + 1, flags.setNZ (value + 1))

def decrement (value : Byte) (flags : Flags) : Byte × Flags :=
  (value - 1, flags.setNZ (value - 1))

end Nmos6502.Alu
