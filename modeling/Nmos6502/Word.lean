/-!
The two widths of the machine. Registers and memory cells hold bytes, addresses are
words, and all arithmetic on either wraps. A word is kept in memory as two bytes, the
low one first; `ofBytes` and the pair `lowByte`, `highByte` undo each other.
-/

namespace Nmos6502

abbrev Byte := UInt8

abbrev Word := UInt16

namespace Word

def ofBytes (low high : Byte) : Word := high.toUInt16 * 256 + low.toUInt16

def lowByte (word : Word) : Byte := word.toUInt8

def highByte (word : Word) : Byte := (word / 256).toUInt8

/-- Branch targets lie up to 127 bytes after and 128 bytes before the next instruction. -/
def displace (word : Word) (offset : Int8) : Word := word + offset.toInt16.toUInt16

/-- Both bytes of a pointer in page zero lie in page zero, so the one at `$FF` continues
at `$00`. -/
def zeroPage (address : Byte) : Word := address.toUInt16

/-- The stack occupies page one whatever the stack pointer holds. -/
def stackCell (stackPointer : Byte) : Word := 0x0100 + stackPointer.toUInt16

/-- BRK takes its target from here. -/
def interruptVector : Word := 0xFFFE

theorem of_bytes_to_nat (low high : Byte) :
    (ofBytes low high).toNat = low.toNat + 256 * high.toNat := by
  have lowBound := low.toNat_lt
  have highBound := high.toNat_lt
  simp only [ofBytes, UInt16.toNat_add, UInt16.toNat_mul, UInt8.toNat_toUInt16,
    UInt16.reduceToNat]
  omega

theorem low_byte_to_nat (word : Word) : (lowByte word).toNat = word.toNat % 256 := by
  simp [lowByte]

theorem high_byte_to_nat (word : Word) : (highByte word).toNat = word.toNat / 256 := by
  have bound := word.toNat_lt
  simp only [highByte, UInt16.toNat_toUInt8, UInt16.toNat_div, UInt16.reduceToNat]
  omega

@[simp] theorem low_byte_of_bytes (low high : Byte) : lowByte (ofBytes low high) = low := by
  have bound := low.toNat_lt
  apply UInt8.toNat_inj.mp
  rw [low_byte_to_nat, of_bytes_to_nat]
  omega

@[simp] theorem high_byte_of_bytes (low high : Byte) : highByte (ofBytes low high) = high := by
  have bound := low.toNat_lt
  apply UInt8.toNat_inj.mp
  rw [high_byte_to_nat, of_bytes_to_nat]
  omega

@[simp] theorem of_bytes_low_high (word : Word) :
    ofBytes (lowByte word) (highByte word) = word := by
  apply UInt16.toNat_inj.mp
  rw [of_bytes_to_nat, low_byte_to_nat, high_byte_to_nat]
  omega

theorem offset_bits_to_int (offset : Int8) :
    (offset.toInt16.toUInt16.toNat : Int) = offset.toInt % 65536 := by
  have same : offset.toInt16.toInt = offset.toInt := Int8.toInt_toInt16 offset
  have wrapped : offset.toInt16.toInt = Int.bmod offset.toInt16.toUInt16.toNat 65536 :=
    BitVec.toInt_eq_toNat_bmod offset.toInt16.toBitVec
  have bound := offset.toInt16.toUInt16.toNat_lt
  rw [same] at wrapped
  rw [wrapped, Int.bmod_def]
  split <;> omega

/-- The offset counts as a signed number and the sum wraps. -/
theorem displace_to_int (word : Word) (offset : Int8) :
    ((displace word offset).toNat : Int) = ((word.toNat : Int) + offset.toInt) % 65536 := by
  have bits := offset_bits_to_int offset
  rw [displace, UInt16.toNat_add]
  omega

theorem stack_cell_to_nat (stackPointer : Byte) :
    (stackCell stackPointer).toNat = 256 + stackPointer.toNat := by
  have bound := stackPointer.toNat_lt
  simp only [stackCell, UInt16.toNat_add, UInt8.toNat_toUInt16, UInt16.reduceToNat]
  omega

theorem stack_cell_injective {left right : Byte} (same : stackCell left = stackCell right) :
    left = right := by
  have cells := congrArg UInt16.toNat same
  rw [stack_cell_to_nat, stack_cell_to_nat] at cells
  exact UInt8.toNat_inj.mp (by omega)

end Word

end Nmos6502
