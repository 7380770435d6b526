/-!
The thirteen addressing modes: how the bytes after an opcode name what the instruction
works on.
-/

namespace Nmos6502

inductive Mode where
  | implicit
  | accumulator
  | immediate
  | zeroPage
  | zeroPageX
  | zeroPageY
  | relative
  | absolute
  | absoluteX
  | absoluteY
  | indirect
  | indirectX
  | indirectY
  deriving DecidableEq, Repr

def Mode.operandBytes : Mode → Nat
  | .implicit | .accumulator => 0
  | .immediate | .zeroPage | .zeroPageX | .zeroPageY | .relative | .indirectX | .indirectY => 1
  | .absolute | .absoluteX | .absoluteY | .indirect => 2

end Nmos6502
