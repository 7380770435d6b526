import Nmos6502.Flags

/-!
The registers: accumulator, index registers, stack pointer, program counter and flags.
-/

namespace Nmos6502

structure Registers where
  a : Byte
  x : Byte
  y : Byte
  sp : Byte
  pc : Word
  flags : Flags
  deriving DecidableEq, Repr, Inhabited

namespace Registers

/-- Execution starts with an empty stack and with D and I set. -/
def start (pc : Word) : Registers where
  a := 0
  x := 0
  y := 0
  sp := 0xFF
  pc := pc
  flags := { decimal := true, interruptDisable := true }

def status (registers : Registers) : Byte := registers.flags.toByte

def setFlag (registers : Registers) (flag : Flag) (value : Bool) : Registers :=
  { registers with flags := registers.flags.set flag value }

/-- A byte loaded into a register decides N and Z. -/
def loadA (registers : Registers) (value : Byte) : Registers :=
  { registers with a := value, flags := registers.flags.setNZ value }

def loadX (registers : Registers) (value : Byte) : Registers :=
  { registers with x := value, flags := registers.flags.setNZ value }

def loadY (registers : Registers) (value : Byte) : Registers :=
  { registers with y := value, flags := registers.flags.setNZ value }

end Registers

end Nmos6502
