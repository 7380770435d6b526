import Nmos6502.Word

/-!
The status register. Six flags are stored; the status byte is the form in which the stack
holds them, laid out as `NV1BDIZC`. Its break bit and its unused bit have no storage: they
are set in every byte made from flags and ignored in every byte turned into flags.
-/

namespace Nmos6502

structure Flags where
  negative : Bool := false
  overflow : Bool := false
  decimal : Bool := false
  interruptDisable : Bool := false
  zero : Bool := false
  carry : Bool := false
  deriving DecidableEq, Repr, Inhabited

inductive Flag where
  | negative
  | overflow
  | decimal
  | interruptDisable
  | zero
  | carry
  deriving DecidableEq, Repr

namespace Flag

def all : List Flag := [.negative, .overflow, .decimal, .interruptDisable, .zero, .carry]

/-- The bit of the status byte that holds the flag. -/
def mask : Flag → Byte
  | .negative => 0x80
  | .overflow => 0x40
  | .decimal => 0x08
  | .interruptDisable => 0x04
  | .zero => 0x02
  | .carry => 0x01

end Flag

namespace Flags

def unusedMask : Byte := 0x20

def breakMask : Byte := 0x10

def get (flags : Flags) : Flag → Bool
  | .negative => flags.negative
  | .overflow => flags.overflow
  | .decimal => flags.decimal
  | .interruptDisable => flags.interruptDisable
  | .zero => flags.zero
  | .carry => flags.carry

def set (flags : Flags) (flag : Flag) (value : Bool) : Flags :=
  match flag with
  | .negative => { flags with negative := value }
  | .overflow => { flags with overflow := value }
  | .decimal => { flags with decimal := value }
  | .interruptDisable => { flags with interruptDisable := value }
  | .zero => { flags with zero := value }
  | .carry => { flags with carry := value }

def toByte (flags : Flags) : Byte :=
  Flag.all.foldl (fun byte flag => if flags.get flag then byte ||| flag.mask else byte)
    (unusedMask ||| breakMask)

def ofByte (byte : Byte) : Flags where
  negative := byte &&& Flag.negative.mask != 0
  overflow := byte &&& Flag.overflow.mask != 0
  decimal := byte &&& Flag.decimal.mask != 0
  interruptDisable := byte &&& Flag.interruptDisable.mask != 0
  zero := byte &&& Flag.zero.mask != 0
  carry := byte &&& Flag.carry.mask != 0

/-- N is the sign bit of a result and Z says whether it is zero. -/
def setNZ (flags : Flags) (result : Byte) : Flags :=
  { flags with zero := result == 0, negative := result &&& 0x80 != 0 }

@[simp] theorem get_set_same (flags : Flags) (flag : Flag) (value : Bool) :
    (flags.set flag value).get flag = value := by
  cases flag <;> rfl

theorem get_set_other (flags : Flags) {written read : Flag} (value : Bool)
    (apart : read ≠ written) : (flags.set written value).get read = flags.get read := by
  cases written <;> cases read <;> simp_all [get, set]

theorem ext_get {left right : Flags} (same : ∀ flag, left.get flag = right.get flag) :
    left = right := by
  cases left
  cases right
  have negative := same .negative
  have overflow := same .overflow
  have decimal := same .decimal
  have interruptDisable := same .interruptDisable
  have zero := same .zero
  have carry := same .carry
  simp only [get] at negative overflow decimal interruptDisable zero carry
  simp only [negative, overflow, decimal, interruptDisable, zero, carry]

@[simp] theorem of_byte_to_byte (flags : Flags) : ofByte flags.toByte = flags := by
  rcases flags with ⟨_ | _, _ | _, _ | _, _ | _, _ | _, _ | _⟩ <;> rfl

end Flags

end Nmos6502
