import Nmos6502.Bus
import Nmos6502.Registers

/-!
The processor with the bus it is attached to, and the elementary actions on the two:
fetching at the program counter, and pushing and pulling on the stack in page one.
-/

namespace Nmos6502

structure Processor (M : Type) where
  registers : Registers
  bus : M

abbrev ProcessorM (M : Type) := StateM (Processor M)

namespace Processor

variable {M : Type}

def registersNow : ProcessorM M Registers := fun processor => (processor.registers, processor)

def update (effect : Registers → Registers) : ProcessorM M Unit
  | ⟨registers, bus⟩ => ((), ⟨effect registers, bus⟩)

/-- The processor is taken apart before the action runs, so that the memory has one owner and
is changed in place. -/
def onBus {Value : Type} (action : StateM M Value) : ProcessorM M Value
  | ⟨registers, bus⟩ =>
      let (value, bus) := action bus
      (value, ⟨registers, bus⟩)

def setPC (address : Word) : ProcessorM M Unit :=
  update fun registers => { registers with pc := address }

theorem update_run (effect : Registers → Registers) (processor : Processor M) :
    update effect processor = ((), ⟨effect processor.registers, processor.bus⟩) := rfl

theorem on_bus_run {Value : Type} (action : StateM M Value) (processor : Processor M) :
    onBus action processor =
      ((action processor.bus).1, ⟨processor.registers, (action processor.bus).2⟩) := rfl

variable [Bus M]

def fetch : ProcessorM M Byte := do
  let value ← onBus (Bus.read (← registersNow).pc)
  update fun registers => { registers with pc := registers.pc + 1 }
  return value

def fetchWord : ProcessorM M Word := do
  let low ← fetch
  let high ← fetch
  return Word.ofBytes low high

/-- The stack grows downwards, and the stack pointer names the next free cell. -/
def push (value : Byte) : ProcessorM M Unit := do
  onBus (Bus.write (Word.stackCell (← registersNow).sp) value)
  update fun registers => { registers with sp := registers.sp - 1 }

def pull : ProcessorM M Byte := do
  update fun registers => { registers with sp := registers.sp + 1 }
  onBus (Bus.read (Word.stackCell (← registersNow).sp))

/-- The high byte goes first, so that the word lies in memory low byte first. -/
def pushWord (value : Word) : ProcessorM M Unit := do
  push (Word.highByte value)
  push (Word.lowByte value)

def pullWord : ProcessorM M Word := do
  let low ← pull
  let high ← pull
  return Word.ofBytes low high

theorem fetch_run (processor : Processor M) :
    fetch processor =
      ((Bus.read processor.registers.pc processor.bus).1,
        ⟨{ processor.registers with pc := processor.registers.pc + 1 },
          (Bus.read processor.registers.pc processor.bus).2⟩) := rfl

theorem push_run (value : Byte) (processor : Processor M) :
    push value processor =
      ((), ⟨{ processor.registers with sp := processor.registers.sp - 1 },
        (Bus.write (Word.stackCell processor.registers.sp) value processor.bus).2⟩) := rfl

theorem pull_run (processor : Processor M) :
    pull processor =
      ((Bus.read (Word.stackCell (processor.registers.sp + 1)) processor.bus).1,
        ⟨{ processor.registers with sp := processor.registers.sp + 1 },
          (Bus.read (Word.stackCell (processor.registers.sp + 1)) processor.bus).2⟩) := rfl

end Processor

end Nmos6502
