import Nmos6502.Registers

/-!
What a host can attach to a session. A handler answers the extension opcode and may ask for
a stop; an observer is shown the state before each instruction. Both have a state of their
own that the session carries along and never looks at.
-/

namespace Nmos6502

class ExtensionHandler (H : Type) where
  /-- The operation byte and the accumulator give the new accumulator. -/
  call (operation accumulator : Byte) : StateM H Byte
  /-- Asked right after each call, about the state that the call left. -/
  stopRequested : H → Bool := fun _ => false

/-- The registers before an instruction, and the opcode that is about to be fetched. -/
structure Snapshot where
  pc : Word
  a : Byte
  x : Byte
  y : Byte
  sp : Byte
  status : Byte
  opcode : Byte
  deriving DecidableEq, Repr

def Snapshot.ofRegisters (registers : Registers) (opcode : Byte) : Snapshot where
  pc := registers.pc
  a := registers.a
  x := registers.x
  y := registers.y
  sp := registers.sp
  status := registers.status
  opcode := opcode

class TraceObserver (O : Type) where
  observe : Snapshot → O → O

/-- An array of snapshots is the observer that keeps all it is shown. -/
instance : TraceObserver (Array Snapshot) where
  observe snapshot seen := seen.push snapshot

/-- Nothing can be attached to a session whose hooks have no values. -/
instance : ExtensionHandler Empty where
  call _ accumulator := return accumulator

instance : TraceObserver Empty where
  observe _ observer := observer

end Nmos6502
