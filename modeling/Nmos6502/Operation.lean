import Nmos6502.Alu
import Nmos6502.Mnemonic
import Nmos6502.Registers

/-!
What an instruction does, apart from how its operand is found. The 56 documented
instructions have twelve shapes, which differ in the accesses they make to memory; within a
shape they differ in a function on registers.
-/

namespace Nmos6502

inductive Operation where
  /-- Reads the operand. -/
  | load (effect : Byte → Registers → Registers)
  /-- Writes to the operand without reading it. -/
  | store (value : Registers → Byte)
  /-- Reads the operand and writes it back changed. -/
  | modify (effect : Byte → Flags → Byte × Flags)
  | branch (taken : Flags → Bool)
  /-- Works on registers only. -/
  | internal (effect : Registers → Registers)
  | push (value : Registers → Byte)
  | pull (effect : Byte → Registers → Registers)
  | jump
  | callSubroutine
  | returnFromSubroutine
  | softwareInterrupt
  | returnFromInterrupt

namespace Operation

def addToA (operand : Byte) (registers : Registers) : Registers :=
  let (result, flags) := Alu.add registers.a operand registers.flags
  { registers with a := result, flags := flags }

def subtractFromA (operand : Byte) (registers : Registers) : Registers :=
  let (result, flags) := Alu.subtract registers.a operand registers.flags
  { registers with a := result, flags := flags }

def compareWith (register : Registers → Byte) (operand : Byte) (registers : Registers) :
    Registers :=
  { registers with flags := Alu.compare (register registers) operand registers.flags }

def testBits (operand : Byte) (registers : Registers) : Registers :=
  { registers with flags := Alu.testBits registers.a operand registers.flags }

def loadFlags (status : Byte) (registers : Registers) : Registers :=
  { registers with flags := Flags.ofByte status }

def clear (flag : Flag) : Operation := .internal fun registers => registers.setFlag flag false

def raise (flag : Flag) : Operation := .internal fun registers => registers.setFlag flag true

end Operation

open Operation in
def Mnemonic.operation : Mnemonic → Operation
  | .adc => .load addToA
  | .sbc => .load subtractFromA
  | .and => .load fun operand registers => registers.loadA (registers.a &&& operand)
  | .ora => .load fun operand registers => registers.loadA (registers.a ||| operand)
  | .eor => .load fun operand registers => registers.loadA (registers.a ^^^ operand)
  | .bit => .load testBits
  | .cmp => .load (compareWith Registers.a)
  | .cpx => .load (compareWith Registers.x)
  | .cpy => .load (compareWith Registers.y)
  | .lda => .load fun operand registers => registers.loadA operand
  | .ldx => .load fun operand registers => registers.loadX operand
  | .ldy => .load fun operand registers => registers.loadY operand
  | .sta => .store Registers.a
  | .stx => .store Registers.x
  | .sty => .store Registers.y
  | .asl => .modify Alu.shiftLeft
  | .lsr => .modify Alu.shiftRight
  | .rol => .modify Alu.rotateLeft
  | .ror => .modify Alu.rotateRight
  | .inc => .modify Alu.increment
  | .dec => .modify Alu.decrement
  | .bcc => .branch fun flags => !flags.carry
  | .bcs => .branch fun flags => flags.carry
  | .bne => .branch fun flags => !flags.zero
  | .beq => .branch fun flags => flags.zero
  | .bpl => .branch fun flags => !flags.negative
  | .bmi => .branch fun flags => flags.negative
  | .bvc => .branch fun flags => !flags.overflow
  | .bvs => .branch fun flags => flags.overflow
  | .inx => .internal fun registers => registers.loadX (registers.x + 1)
  | .iny => .internal fun registers => registers.loadY (registers.y + 1)
  | .dex => .internal fun registers => registers.loadX (registers.x - 1)
  | .dey => .internal fun registers => registers.loadY (registers.y - 1)
  | .tax => .internal fun registers => registers.loadX registers.a
  | .tay => .internal fun registers => registers.loadY registers.a
  | .txa => .internal fun registers => registers.loadA registers.x
  | .tya => .internal fun registers => registers.loadA registers.y
  | .tsx => .internal fun registers => registers.loadX registers.sp
  | .txs => .internal fun registers => { registers with sp := registers.x }
  | .clc => clear .carry
  | .sec => raise .carry
  | .cld => clear .decimal
  | .sed => raise .decimal
  | .cli => clear .interruptDisable
  | .sei => raise .interruptDisable
  | .clv => clear .overflow
  | .nop => .internal id
  | .pha => .push Registers.a
  | .php => .push Registers.status
  | .pla => .pull fun value registers => registers.loadA value
  | .plp => .pull loadFlags
  | .jmp => .jump
  | .jsr => .callSubroutine
  | .rts => .returnFromSubroutine
  | .brk => .softwareInterrupt
  | .rti => .returnFromInterrupt

end Nmos6502
