import Nmos6502.Mode
import Nmos6502.Processor

/-!
Finding the operand of an instruction. `resolve` takes the operand bytes from the
instruction stream, so that the program counter ends up at the next instruction, and turns
them into what they stand for. Index registers are added within page zero in the zero page
modes and over the whole address space in the others.
-/

namespace Nmos6502

inductive Operand where
  | implied
  | accumulator
  | constant (value : Byte)
  | displacement (offset : Int8)
  | cell (address : Word)
  deriving DecidableEq

/-- What a changed byte is written back to. Without an operand it was read from the accumulator. -/
def Operand.modified : Operand → Operand
  | .implied => .accumulator
  | operand => operand

namespace Processor

variable {M : Type} [Bus M]

/-- A processor whose jump pointers wrap takes the high byte of a pointer at `$xxFF` from
`$xx00` and not from the next page. -/
def readJumpPointer (pointerWraps : Bool) (pointer : Word) : StateM M Word :=
  if pointerWraps ∧ Word.lowByte pointer = 0xFF then do
    let low ← Bus.read pointer
    let high ← Bus.read (Word.ofBytes 0 (Word.highByte pointer))
    return Word.ofBytes low high
  else Bus.readWord pointer

def resolve (pointerWraps : Bool) : Mode → ProcessorM M Operand
  | .implicit => return .implied
  | .accumulator => return .accumulator
  | .immediate => return .constant (← fetch)
  | .relative => return .displacement (← fetch).toInt8
  | .zeroPage => return .cell (Word.zeroPage (← fetch))
  | .zeroPageX => do
      let base ← fetch
      return .cell (Word.zeroPage (base + (← registersNow).x))
  | .zeroPageY => do
      let base ← fetch
      return .cell (Word.zeroPage (base + (← registersNow).y))
  | .absolute => return .cell (← fetchWord)
  | .absoluteX => do
      let base ← fetchWord
      return .cell (base + (← registersNow).x.toUInt16)
  | .absoluteY => do
      let base ← fetchWord
      return .cell (base + (← registersNow).y.toUInt16)
  | .indirect => do
      let pointer ← fetchWord
      return .cell (← onBus (readJumpPointer pointerWraps pointer))
  | .indirectX => do
      let base ← fetch
      let pointer := base + (← registersNow).x
      return .cell (← onBus (Bus.readZeroPageWord pointer))
  | .indirectY => do
      let pointer ← fetch
      let base ← onBus (Bus.readZeroPageWord pointer)
      return .cell (base + (← registersNow).y.toUInt16)

def readOperand (operand : Operand) : ProcessorM M Byte :=
  match operand with
  | .implied | .accumulator => return (← registersNow).a
  | .constant value => return value
  | .displacement offset => return offset.toUInt8
  | .cell address => onBus (Bus.read address)

/-- Only the accumulator and a cell can be written to. -/
def writeOperand (operand : Operand) (value : Byte) : ProcessorM M Unit :=
  match operand with
  | .accumulator => update fun registers => { registers with a := value }
  | .implied | .constant _ | .displacement _ => return ()
  | .cell address => onBus (Bus.write address value)

end Processor

end Nmos6502
