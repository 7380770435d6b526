import Nmos6502.Processor.Operand

/-!
The address arithmetic of the modes on bytes that are already there: the cells that hold the
pointer of an indirect mode, and the operand that the bytes after the opcode and the pointer
amount to.
-/

namespace Nmos6502

namespace Mode

/-- The cells of the pointer, low byte first. A jump whose pointers wrap stays in the page. -/
def pointerCells (pointerWraps : Bool) (x low high : Byte) : Mode → List Word
  | .indirect =>
      let pointer := Word.ofBytes low high
      [pointer, if pointerWraps ∧ low = 0xFF then Word.ofBytes 0 high else pointer + 1]
  | .indirectX => [Word.zeroPage (low + x), Word.zeroPage (low + x + 1)]
  | .indirectY => [Word.zeroPage low, Word.zeroPage (low + 1)]
  | _ => []

def operand (x y low high : Byte) (pointer : Word) : Mode → Operand
  | .implicit => .implied
  | .accumulator => .accumulator
  | .immediate => .constant low
  | .relative => .displacement low.toInt8
  | .zeroPage => .cell (Word.zeroPage low)
  | .zeroPageX => .cell (Word.zeroPage (low + x))
  | .zeroPageY => .cell (Word.zeroPage (low + y))
  | .absolute => .cell (Word.ofBytes low high)
  | .absoluteX => .cell (Word.ofBytes low high + x.toUInt16)
  | .absoluteY => .cell (Word.ofBytes low high + y.toUInt16)
  | .indirect | .indirectX => .cell pointer
  | .indirectY => .cell (pointer + y.toUInt16)

end Mode

/-- The memory cell of an operand that has one. -/
def Operand.cell? : Operand → Option Word
  | .cell address => some address
  | _ => none

theorem Operand.eq_cell {operand : Operand} {address : Word}
    (found : operand.cell? = some address) : operand = .cell address := by
  cases operand with
  | cell other =>
      cases found
      rfl
  | _ => cases found

theorem Operand.modified_of_accumulator : Operand.accumulator.modified = .accumulator := rfl

theorem Operand.modified_of_cell (address : Word) :
    (Operand.cell address).modified = .cell address := rfl

theorem Operand.modified_cell (operand : Operand) : operand.modified.cell? = operand.cell? := by
  cases operand <;> rfl

end Nmos6502
