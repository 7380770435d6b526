import Nmos6502.Bus

/-!
A bus that keeps a list of the byte reads and byte writes made on another one, in the order
in which they were made. Every two-byte read shows as two byte reads.
-/

namespace Nmos6502

inductive Access where
  | read (address : Word) (value : Byte)
  | write (address : Word) (value : Byte)
  deriving DecidableEq, Repr

structure Recorded (M : Type) where
  accesses : Array Access := #[]
  recorded : M

namespace Recorded

instance {M : Type} [Bus M] : Bus (Recorded M) where
  read address
    | ⟨accesses, recorded⟩ =>
        let (value, recorded) := Bus.read address recorded
        (value, ⟨accesses.push (.read address value), recorded⟩)
  write address value
    | ⟨accesses, recorded⟩ =>
        let (_, recorded) := Bus.write address value recorded
        ((), ⟨accesses.push (.write address value), recorded⟩)

end Recorded

end Nmos6502
