import Nmos6502.Proofs.Address
import Nmos6502.Proofs.Monitor

/-!
What the processor asks of its bus to find an operand, to read or write it and to use the stack.
Nothing is assumed of the bus, so this holds whatever it does behind its answers.
-/

namespace Nmos6502

variable {M : Type} [Bus M]

/-- Reads of the cells, each with its answer. -/
def readsOf (cells : List Word) (answers : List Byte) : List BusCall :=
  List.zipWith .read cells answers

/-- The byte at the operand, which is the answer only if a cell is read. -/
def Operand.byteAnswered (a answer : Byte) : Operand → Byte
  | .implied | .accumulator => a
  | .constant value => value
  | .displacement offset => offset.toUInt8
  | .cell _ => answer

theorem Processor.read_operand_answered (operand : Operand) (processor : Processor M) :
    (readOperand operand processor).1 =
      operand.byteAnswered processor.registers.a (readOperand operand processor).1 := by
  cases operand <;> rfl

/-- What a step reads, each named for what the instruction takes it for. -/
structure Answers where
  snapshot : Byte
  opcode : Byte
  operandLow : Byte
  operandHigh : Byte
  /-- What the pointer of an indirect mode holds. -/
  pointer : Word
  /-- The first byte that the instruction reads after its operand is found. -/
  first : Byte
  second : Byte
  third : Byte
  /-- Where an interrupt goes on. -/
  vector : Word
  deriving Inhabited

namespace Answers

def operand (answers : Answers) (registers : Registers) (mode : Mode) : Operand :=
  mode.operand registers.x registers.y answers.operandLow answers.operandHigh answers.pointer

/-- The bytes after an opcode, of which an instruction has at most two. -/
def operandCalls (answers : Answers) (start : Word) (count : Nat) : List BusCall :=
  readsOf ([start, start + 1].take count) [answers.operandLow, answers.operandHigh]

/-- The pointer is asked for as one. Only a jump whose pointer wraps within the page takes it byte
by byte. -/
def pointerCalls (answers : Answers) (pointerWraps : Bool) (registers : Registers) :
    Mode → List BusCall
  | .indirect =>
      let cell := Word.ofBytes answers.operandLow answers.operandHigh
      if pointerWraps ∧ answers.operandLow = 0xFF then
        [.read cell (Word.lowByte answers.pointer),
          .read (Word.ofBytes 0 answers.operandHigh) (Word.highByte answers.pointer)]
      else [.readWord cell answers.pointer]
  | .indirectX => [.readZeroPageWord (answers.operandLow + registers.x) answers.pointer]
  | .indirectY => [.readZeroPageWord answers.operandLow answers.pointer]
  | _ => []

/-- The byte at the operand. -/
def operandByte (answers : Answers) (registers : Registers) (mode : Mode) : Byte :=
  (answers.operand registers mode).byteAnswered registers.a answers.first

end Answers

namespace Processor

open Monitored (Extends)

theorem fetch_extends (processor : Processor (Monitored M)) :
    Extends processor.bus [.read processor.registers.pc (fetch processor).1]
      (fetch processor).2.bus :=
  Monitored.read_extends processor.bus processor.registers.pc

theorem fetch_word_extends (processor : Processor (Monitored M)) :
    ∃ low high, (fetchWord processor).1 = Word.ofBytes low high ∧
      Extends processor.bus
        (readsOf [processor.registers.pc, processor.registers.pc + 1] [low, high])
        (fetchWord processor).2.bus :=
  ⟨_, _, rfl, (fetch_extends processor).append (fetch_extends (fetch processor).2)⟩

theorem read_jump_pointer_extends (bus : Monitored M) (wraps : Bool) (low high : Byte)
    (registers : Registers) :
    let pointer := (readJumpPointer wraps (Word.ofBytes low high) bus).1
    let answers : Answers :=
      { (default : Answers) with operandLow := low, operandHigh := high, pointer := pointer }
    Extends bus (answers.pointerCalls wraps registers .indirect)
      (readJumpPointer wraps (Word.ofBytes low high) bus).2 := by
  dsimp only [Answers.pointerCalls]
  unfold readJumpPointer
  rw [Word.low_byte_of_bytes, Word.high_byte_of_bytes]
  by_cases turns : wraps ∧ low = 0xFF
  · simp only [if_pos turns]
    have pair := (Monitored.read_extends bus (Word.ofBytes low high)).append
      (Monitored.read_extends _ (Word.ofBytes 0 high))
    simp only [bind_run, pure_run, Word.low_byte_of_bytes, Word.high_byte_of_bytes]
    exact pair
  · simp only [if_neg turns]
    exact Monitored.read_word_extends bus (Word.ofBytes low high)

theorem resolve_extends (wraps : Bool) (mode : Mode) (processor : Processor (Monitored M)) :
    ∃ answers : Answers,
      (resolve wraps mode processor).1 = answers.operand processor.registers mode ∧
      Extends processor.bus
        (answers.operandCalls processor.registers.pc mode.operandBytes ++
          answers.pointerCalls wraps processor.registers mode)
        (resolve wraps mode processor).2.bus := by
  have byte := fetch_extends processor
  obtain ⟨low, high, word, wordRead⟩ := fetch_word_extends processor
  cases mode with
  | implicit | accumulator => exact ⟨default, rfl, Extends.refl processor.bus⟩
  | immediate | relative | zeroPage | zeroPageX | zeroPageY =>
      exact ⟨{ (default : Answers) with operandLow := (fetch processor).1 }, rfl, byte⟩
  | absolute =>
      refine ⟨{ (default : Answers) with operandLow := low, operandHigh := high }, ?_, ?_⟩
      · exact congrArg Operand.cell word
      · exact wordRead
  | absoluteX =>
      refine ⟨{ (default : Answers) with operandLow := low, operandHigh := high }, ?_, ?_⟩
      · exact congrArg (fun base => Operand.cell (base + processor.registers.x.toUInt16)) word
      · exact wordRead
  | absoluteY =>
      refine ⟨{ (default : Answers) with operandLow := low, operandHigh := high }, ?_, ?_⟩
      · exact congrArg (fun base => Operand.cell (base + processor.registers.y.toUInt16)) word
      · exact wordRead
  | indirect =>
      have pointerRead := read_jump_pointer_extends (fetchWord processor).2.bus wraps low high
        processor.registers
      rw [← word] at pointerRead
      exact ⟨{ (default : Answers) with operandLow := low, operandHigh := high, pointer := _ }, rfl,
        wordRead.append pointerRead⟩
  | indirectX =>
      have pointerRead := Monitored.read_zero_page_word_extends (fetch processor).2.bus
        ((fetch processor).1 + processor.registers.x)
      exact ⟨{ (default : Answers) with operandLow := (fetch processor).1, pointer := _ }, rfl,
        byte.append pointerRead⟩
  | indirectY =>
      have pointerRead := Monitored.read_zero_page_word_extends (fetch processor).2.bus
        (fetch processor).1
      exact ⟨{ (default : Answers) with operandLow := (fetch processor).1, pointer := _ }, rfl,
        byte.append pointerRead⟩

theorem read_operand_extends (operand : Operand) (processor : Processor (Monitored M)) :
    Extends processor.bus
      (readsOf operand.cell?.toList [(readOperand operand processor).1])
      (readOperand operand processor).2.bus := by
  cases operand with
  | implied | accumulator | constant value | displacement offset =>
      exact Extends.refl processor.bus
  | cell address => exact Monitored.read_extends processor.bus address

theorem read_resolved_extends (wraps : Bool) (mode : Mode) (processor : Processor (Monitored M)) :
    let resolved := resolve wraps mode processor
    let read := readOperand resolved.1 resolved.2
    ∃ answers : Answers, resolved.1 = answers.operand processor.registers mode ∧
      read.1 = answers.first ∧ read.1 = answers.operandByte processor.registers mode ∧
      Extends processor.bus
        (answers.operandCalls processor.registers.pc mode.operandBytes ++
          answers.pointerCalls wraps processor.registers mode ++
          readsOf (answers.operand processor.registers mode).cell?.toList [answers.first])
        read.2.bus := by
  intro resolved read
  obtain ⟨answers, operand, found⟩ := resolve_extends wraps mode processor
  have a : resolved.2.registers.a = processor.registers.a := by rw [resolve_registers]
  have byte : read.1 = resolved.1.byteAnswered resolved.2.registers.a read.1 :=
    read_operand_answered resolved.1 resolved.2
  have reading : Extends resolved.2.bus (readsOf resolved.1.cell?.toList [read.1]) read.2.bus :=
    read_operand_extends resolved.1 resolved.2
  have same : resolved.1 = answers.operand processor.registers mode := operand
  rw [same, a] at byte
  rw [same] at reading
  exact ⟨{ answers with first := read.1 }, operand, rfl, byte, found.append reading⟩

theorem write_operand_extends (operand : Operand) (value : Byte)
    (processor : Processor (Monitored M)) :
    Extends processor.bus (operand.cell?.toList.map (BusCall.write · value))
      (writeOperand operand value processor).2.bus := by
  cases operand with
  | implied | accumulator | constant value | displacement offset =>
      exact Extends.refl processor.bus
  | cell address => exact Monitored.write_extends processor.bus address value

theorem push_extends (value : Byte) (processor : Processor (Monitored M)) :
    Extends processor.bus [.write (Word.stackCell processor.registers.sp) value]
      (push value processor).2.bus :=
  Monitored.write_extends processor.bus (Word.stackCell processor.registers.sp) value

theorem pull_extends (processor : Processor (Monitored M)) :
    Extends processor.bus
      [.read (Word.stackCell (processor.registers.sp + 1)) (pull processor).1]
      (pull processor).2.bus :=
  Monitored.read_extends processor.bus (Word.stackCell (processor.registers.sp + 1))

theorem push_word_extends (value : Word) (processor : Processor (Monitored M)) :
    Extends processor.bus
      [.write (Word.stackCell processor.registers.sp) (Word.highByte value),
        .write (Word.stackCell (processor.registers.sp - 1)) (Word.lowByte value)]
      (pushWord value processor).2.bus :=
  (push_extends (Word.highByte value) processor).append
    (push_extends (Word.lowByte value) (push (Word.highByte value) processor).2)

theorem pull_word_extends (processor : Processor (Monitored M)) :
    ∃ low high, (pullWord processor).1 = Word.ofBytes low high ∧
      Extends processor.bus
        (readsOf [Word.stackCell (processor.registers.sp + 1),
          Word.stackCell (processor.registers.sp + 1 + 1)] [low, high])
        (pullWord processor).2.bus :=
  ⟨_, _, rfl, (pull_extends processor).append (pull_extends (pull processor).2)⟩

end Processor

end Nmos6502
