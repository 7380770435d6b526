import Nmos6502.Word

/-!
What the processor sees of memory. A read may change the memory it reads, as the read of a
device register does, so both accesses are actions on the memory. A bus may supply its own
two-byte reads; by default each is two byte reads, the low byte first.
-/

namespace Nmos6502

class Bus (M : Type) where
  read (address : Word) : StateM M Byte
  write (address : Word) (value : Byte) : StateM M Unit
  /-- The high byte follows the low one, the one at `$FFFF` being followed by `$0000`. -/
  readWord (address : Word) : StateM M Word := do
    let low ← read address
    let high ← read (address + 1)
    return Word.ofBytes low high
  /-- The high byte stays in page zero, the one at `$FF` being followed by `$00`. -/
  readZeroPageWord (address : Byte) : StateM M Word := do
    let low ← read (Word.zeroPage address)
    let high ← read (Word.zeroPage (address + 1))
    return Word.ofBytes low high

/-- Reading a byte leaves the memory as it was. -/
def Bus.Quiet (M : Type) [Bus M] : Prop :=
  ∀ (address : Word) (bus : M), (Bus.read address bus).2 = bus

end Nmos6502
