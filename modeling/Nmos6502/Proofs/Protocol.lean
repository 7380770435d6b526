import Nmos6502.Proofs.Calls
import Nmos6502.Proofs.Lending
import Nmos6502.Proofs.OperandByte

/-!
What a step asks of its bus, in order. It is laid down here for each instruction by name and
shown to be what a monitor finds, on every bus. A two-byte read is one call there, and the reads of
its two bytes where the bus has no such reads of its own.
-/

namespace Nmos6502

/-- BRK is followed by a padding byte that its mode does not count. -/
def Instruction.operandCount : Instruction → Nat
  | .official .brk mode => mode.operandBytes + 1
  | instruction => instruction.mode.operandBytes

namespace Answers

/-- The calls of an instruction after those that find its operand. The registers are those before
the step. -/
def mnemonicCalls (answers : Answers) (registers : Registers) (mode : Mode) :
    Mnemonic → List BusCall :=
  let target := (answers.operand registers mode).cell?.toList
  let reading := readsOf target [answers.first]
  let writing (value : Byte) := target.map (BusCall.write · value)
  let returnAddress := registers.pc + 2
  let sp := registers.sp
  fun
  | .adc | .sbc | .and | .ora | .eor | .bit | .cmp | .cpx | .cpy | .lda | .ldx | .ldy => reading
  | .sta => writing registers.a
  | .stx => writing registers.x
  | .sty => writing registers.y
  | .asl => reading ++ writing (Alu.shiftLeft answers.first registers.flags).1
  | .lsr => reading ++ writing (Alu.shiftRight answers.first registers.flags).1
  | .rol => reading ++ writing (Alu.rotateLeft answers.first registers.flags).1
  | .ror => reading ++ writing (Alu.rotateRight answers.first registers.flags).1
  | .inc => reading ++ writing (answers.first + 1)
  | .dec => reading ++ writing (answers.first - 1)
  | .pha => [.write (Word.stackCell sp) registers.a]
  | .php => [.write (Word.stackCell sp) registers.status]
  | .pla | .plp => [.read (Word.stackCell (sp + 1)) answers.first]
  | .jsr =>
      [.write (Word.stackCell sp) (Word.highByte returnAddress),
        .write (Word.stackCell (sp - 1)) (Word.lowByte returnAddress)]
  | .rts =>
      [.read (Word.stackCell (sp + 1)) answers.first,
        .read (Word.stackCell (sp + 2)) answers.second]
  | .brk =>
      [.write (Word.stackCell sp) (Word.highByte returnAddress),
        .write (Word.stackCell (sp - 1)) (Word.lowByte returnAddress),
        .write (Word.stackCell (sp - 2)) registers.status,
        .readWord 0xFFFE answers.vector]
  | .rti =>
      [.read (Word.stackCell (sp + 1)) answers.first,
        .read (Word.stackCell (sp + 2)) answers.second,
        .read (Word.stackCell (sp + 3)) answers.third]
  | .bcc | .bcs | .beq | .bmi | .bne | .bpl | .bvc | .bvs | .jmp | .nop
  | .clc | .cld | .cli | .clv | .sec | .sed | .sei
  | .inx | .iny | .dex | .dey | .tax | .tay | .tsx | .txa | .txs | .tya => []

def instructionCalls (answers : Answers) (registers : Registers) : Instruction → List BusCall
  | .official mnemonic mode => answers.mnemonicCalls registers mode mnemonic
  | .extension | .illegal => []

/-- The calls after the opcode. The registers are those before the step here too. -/
def executionCalls (answers : Answers) (pointerWraps : Bool) (registers : Registers)
    (instruction : Instruction) : List BusCall :=
  answers.operandCalls (registers.pc + 1) instruction.operandCount ++
    answers.pointerCalls pointerWraps registers instruction.mode ++
    answers.instructionCalls registers instruction

def stepCalls (answers : Answers) (tracing pointerWraps : Bool) (registers : Registers) :
    List BusCall :=
  (if tracing then [.read registers.pc answers.snapshot] else []) ++
    [.read registers.pc answers.opcode] ++
    answers.executionCalls pointerWraps registers (Instruction.decode answers.opcode)

/-- The byte accesses of a step on a bus whose two-byte reads are the provided ones. -/
def stepAccesses (answers : Answers) (tracing pointerWraps : Bool) (registers : Registers) :
    List Access :=
  (answers.stepCalls tracing pointerWraps registers).flatMap BusCall.accesses

/-- After the opcode it is the instruction that counts and not the bytes it was found by. -/
theorem execution_calls_with_fetched (answers : Answers) (snapshot opcode : Byte)
    (pointerWraps : Bool) (registers : Registers) (instruction : Instruction) :
    executionCalls { answers with snapshot := snapshot, opcode := opcode }
        pointerWraps registers instruction =
      answers.executionCalls pointerWraps registers instruction := by
  cases instruction with
  | official mnemonic mode => cases mnemonic <;> rfl
  | extension | illegal => rfl

end Answers

/-- Whether the byte at the operand is read. -/
def Operation.readsOperand : Operation → Bool
  | .load _ | .modify _ => true
  | _ => false

def Instruction.readsOperand : Instruction → Bool
  | .official mnemonic _ => mnemonic.operation.readsOperand
  | .extension | .illegal => false

/-- The mode of an instruction that is executed without asking for its mode. -/
def Mnemonic.fixedMode? : Mnemonic → Option Mode
  | .jsr => some .absolute
  | .brk | .rti | .rts | .pha | .php | .pla | .plp | .nop
  | .clc | .cld | .cli | .clv | .sec | .sed | .sei
  | .inx | .iny | .dex | .dey | .tax | .tay | .tsx | .txa | .txs | .tya => some .implicit
  | _ => none

theorem fixed_mode : ∀ opcode ∈ officialOpcodes, ∀ mode ∈ opcode.mnemonic.fixedMode?,
    opcode.mode = mode := by
  decide +kernel

namespace Processor

open Monitored (Extends)

variable {M : Type} [Bus M]

/-- To perform the operation takes just these calls. The answers have the byte at the operand, if
it is read. -/
structure Takes (wraps : Bool) (mode : Mode) (operation : Operation)
    (processor : Processor (Monitored M)) (answers : Answers) (calls : List BusCall) : Prop where
  byte : operation.readsOperand = true →
    (readOperand (resolve wraps mode processor).1 (resolve wraps mode processor).2).1 =
      answers.operandByte processor.registers mode
  extends_bus : Extends processor.bus calls (perform wraps mode operation processor).2.bus

theorem load_takes (wraps : Bool) (mode : Mode) (effect : Byte → Registers → Registers)
    (processor : Processor (Monitored M)) :
    ∃ answers : Answers, Takes wraps mode (.load effect) processor answers
      (answers.operandCalls processor.registers.pc mode.operandBytes ++
        answers.pointerCalls wraps processor.registers mode ++
        readsOf (answers.operand processor.registers mode).cell?.toList [answers.first]) := by
  obtain ⟨answers, -, -, byte, read⟩ := read_resolved_extends wraps mode processor
  exact ⟨answers, fun _ => byte, read⟩

theorem store_takes (wraps : Bool) (mode : Mode) (value : Registers → Byte)
    (processor : Processor (Monitored M)) :
    ∃ answers : Answers, Takes wraps mode (.store value) processor answers
      (answers.operandCalls processor.registers.pc mode.operandBytes ++
        answers.pointerCalls wraps processor.registers mode ++
        (answers.operand processor.registers mode).cell?.toList.map
          (BusCall.write · (value processor.registers))) := by
  obtain ⟨answers, operand, resolved⟩ := resolve_extends wraps mode processor
  have written := write_operand_extends (resolve wraps mode processor).1
    (value processor.registers) (resolve wraps mode processor).2
  rw [operand] at written
  refine ⟨answers, nofun, ?_⟩
  rw [perform_store]
  dsimp only
  rw [operand]
  exact resolved.append written

theorem modify_takes (wraps : Bool) (mode : Mode) (effect : Byte → Flags → Byte × Flags)
    (processor : Processor (Monitored M)) :
    ∃ answers : Answers, Takes wraps mode (.modify effect) processor answers
      (answers.operandCalls processor.registers.pc mode.operandBytes ++
        answers.pointerCalls wraps processor.registers mode ++
        (readsOf (answers.operand processor.registers mode).cell?.toList [answers.first] ++
          (answers.operand processor.registers mode).cell?.toList.map
            (BusCall.write · (effect answers.first processor.registers.flags).1))) := by
  obtain ⟨answers, operand, first, byte, read⟩ := read_resolved_extends wraps mode processor
  have flags : (readOperand (resolve wraps mode processor).1
      (resolve wraps mode processor).2).2.registers.flags = processor.registers.flags := by
    rw [read_operand_registers, resolve_registers]
  have written (value : Byte) (registers : Registers) (bus : Monitored M) :
      Extends bus
        ((answers.operand processor.registers mode).cell?.toList.map (BusCall.write · value))
        (writeOperand (resolve wraps mode processor).1.modified value ⟨registers, bus⟩).2.bus := by
    rw [← operand, ← Operand.modified_cell]
    exact write_operand_extends _ value ⟨registers, bus⟩
  refine ⟨answers, fun _ => byte, ?_⟩
  rw [perform_modify]
  dsimp only
  rw [flags, first, ← List.append_assoc]
  exact read.append (written _ _ _)

theorem branch_takes (wraps : Bool) (mode : Mode) (taken : Flags → Bool)
    (processor : Processor (Monitored M)) :
    ∃ answers : Answers, Takes wraps mode (.branch taken) processor answers
      (answers.operandCalls processor.registers.pc mode.operandBytes ++
        answers.pointerCalls wraps processor.registers mode ++ []) := by
  obtain ⟨answers, -, resolved⟩ := resolve_extends wraps mode processor
  refine ⟨answers, nofun, ?_⟩
  rw [branch_bus, List.append_nil]
  exact resolved

theorem jump_takes (wraps : Bool) (mode : Mode) (processor : Processor (Monitored M)) :
    ∃ answers : Answers, Takes wraps mode .jump processor answers
      (answers.operandCalls processor.registers.pc mode.operandBytes ++
        answers.pointerCalls wraps processor.registers mode ++ []) := by
  obtain ⟨answers, -, resolved⟩ := resolve_extends wraps mode processor
  refine ⟨answers, nofun, ?_⟩
  rw [jump_bus, List.append_nil]
  exact resolved

theorem call_subroutine_extends (processor : Processor (Monitored M)) {last : Word}
    (end_of_call : processor.registers.pc + 1 = last) :
    ∃ low high, Extends processor.bus
      (readsOf [processor.registers.pc, processor.registers.pc + 1] [low, high] ++
        [.write (Word.stackCell processor.registers.sp) (Word.highByte last),
          .write (Word.stackCell (processor.registers.sp - 1)) (Word.lowByte last)])
      (callSubroutine processor).2.bus := by
  obtain ⟨low, high, -, target⟩ := fetch_word_extends processor
  have back : (fetchWord processor).2.registers.pc - 1 = last := by
    rw [← end_of_call]
    exact UInt16.add_sub_cancel (processor.registers.pc + 1) 1
  have pushed := push_word_extends last (fetchWord processor).2
  rw [call_subroutine_run]
  dsimp only
  rw [back]
  exact ⟨low, high, target.append pushed⟩

theorem return_from_subroutine_extends (processor : Processor (Monitored M)) :
    ∃ low high, Extends processor.bus
      [.read (Word.stackCell (processor.registers.sp + 1)) low,
        .read (Word.stackCell (processor.registers.sp + 1 + 1)) high]
      (returnFromSubroutine processor).2.bus := by
  obtain ⟨low, high, -, pulled⟩ := pull_word_extends processor
  exact ⟨low, high, pulled⟩

theorem software_interrupt_extends (processor : Processor (Monitored M)) :
    ∃ padding target, Extends processor.bus
      ([.read processor.registers.pc padding] ++
        [.write (Word.stackCell processor.registers.sp)
            (Word.highByte (processor.registers.pc + 1)),
          .write (Word.stackCell (processor.registers.sp - 1))
            (Word.lowByte (processor.registers.pc + 1)),
          .write (Word.stackCell (processor.registers.sp - 1 - 1)) processor.registers.status,
          .readWord 0xFFFE target])
      (softwareInterrupt processor).2.bus := by
  have skipped := fetch_extends processor
  have returned := push_word_extends (processor.registers.pc + 1) (fetch processor).2
  have pushed := push_extends processor.registers.status
    (pushWord (processor.registers.pc + 1) (fetch processor).2).2
  have vector := Monitored.read_word_extends
    (push processor.registers.status
      (pushWord (processor.registers.pc + 1) (fetch processor).2).2).2.bus Word.interruptVector
  exact ⟨_, _, skipped.append ((returned.append pushed).append vector)⟩

theorem return_from_interrupt_extends (processor : Processor (Monitored M)) :
    ∃ status low high, Extends processor.bus
      [.read (Word.stackCell (processor.registers.sp + 1)) status,
        .read (Word.stackCell (processor.registers.sp + 1 + 1)) low,
        .read (Word.stackCell (processor.registers.sp + 1 + 1 + 1)) high]
      (returnFromInterrupt processor).2.bus := by
  have status := pull_extends processor
  obtain ⟨low, high, -, pulled⟩ := pull_word_extends
    ⟨Operation.loadFlags (pull processor).1 (pull processor).2.registers,
      (pull processor).2.bus⟩
  exact ⟨_, low, high, status.append pulled⟩

/-- The registers are those before the opcode was fetched. -/
theorem execute_takes (wraps : Bool) {mnemonic : Mnemonic} {mode : Mode} {code : Byte}
    (documented : ⟨code, mnemonic, mode⟩ ∈ officialOpcodes) (registers : Registers)
    (bus : Monitored M) :
    ∃ answers : Answers, Takes wraps mode mnemonic.operation
      ⟨{ registers with pc := registers.pc + 1 }, bus⟩ answers
      (answers.executionCalls wraps registers (.official mnemonic mode)) := by
  have fixed := fixed_mode _ documented
  have two : registers.sp + 1 + 1 = registers.sp + 2 := by grind
  have three : registers.sp + 1 + 1 + 1 = registers.sp + 3 := by grind
  have last : registers.pc + 1 + 1 = registers.pc + 2 := by grind
  have third : registers.sp - 1 - 1 = registers.sp - 2 := by grind
  let processor : Processor (Monitored M) := ⟨{ registers with pc := registers.pc + 1 }, bus⟩
  cases mnemonic with
  | adc | sbc | and | ora | eor | bit | cmp | cpx | cpy | lda | ldx | ldy =>
      exact load_takes wraps mode _ processor
  | sta => exact store_takes wraps mode Registers.a processor
  | stx => exact store_takes wraps mode Registers.x processor
  | sty => exact store_takes wraps mode Registers.y processor
  | asl => exact modify_takes wraps mode Alu.shiftLeft processor
  | lsr => exact modify_takes wraps mode Alu.shiftRight processor
  | rol => exact modify_takes wraps mode Alu.rotateLeft processor
  | ror => exact modify_takes wraps mode Alu.rotateRight processor
  | inc => exact modify_takes wraps mode Alu.increment processor
  | dec => exact modify_takes wraps mode Alu.decrement processor
  | bcc | bcs | beq | bmi | bne | bpl | bvc | bvs => exact branch_takes wraps mode _ processor
  | jmp => exact jump_takes wraps mode processor
  | clc | cld | cli | clv | sec | sed | sei | inx | iny | dex | dey | tax | tay | tsx | txa | txs
    | tya | nop =>
      obtain rfl : mode = .implicit := fixed .implicit rfl
      exact ⟨default, nofun, Extends.refl bus⟩
  | pha | php =>
      obtain rfl : mode = .implicit := fixed .implicit rfl
      exact ⟨default, nofun, push_extends _ processor⟩
  | pla | plp =>
      obtain rfl : mode = .implicit := fixed .implicit rfl
      exact ⟨{ (default : Answers) with first := _ }, nofun, pull_extends processor⟩
  | jsr =>
      obtain rfl : mode = .absolute := fixed .absolute rfl
      obtain ⟨low, high, called⟩ := call_subroutine_extends processor last
      exact ⟨{ (default : Answers) with operandLow := low, operandHigh := high }, nofun, called⟩
  | rts =>
      obtain rfl : mode = .implicit := fixed .implicit rfl
      obtain ⟨low, high, returned⟩ := return_from_subroutine_extends processor
      rw [two] at returned
      exact ⟨{ (default : Answers) with first := low, second := high }, nofun, returned⟩
  | brk =>
      obtain rfl : mode = .implicit := fixed .implicit rfl
      obtain ⟨padding, target, interrupted⟩ := software_interrupt_extends processor
      rw [last, third] at interrupted
      exact ⟨{ (default : Answers) with operandLow := padding, vector := target }, nofun,
        interrupted⟩
  | rti =>
      obtain rfl : mode = .implicit := fixed .implicit rfl
      obtain ⟨status, low, high, returned⟩ := return_from_interrupt_extends processor
      rw [three, two] at returned
      exact ⟨{ (default : Answers) with first := status, second := low, third := high }, nofun,
        returned⟩

end Processor

namespace Session

open Monitored (Extends)

section

variable {M N H O : Type} [Bus M] [Bus N] [TraceObserver O] {Same : M → N → Prop}
variable {left : Session M H O} {right : Session N H O}

theorem operand_byte_simulated (simulates : Bus.Simulates Same) (same : SameBut Same left right) :
    left.operandByte = right.operandByte := by
  obtain ⟨opcode, fetching⟩ := fetched_simulated simulates same
  obtain ⟨first, rfl, -⟩ := same
  obtain ⟨bus, fetched, sameBus⟩ := fetching
  have alike := Processor.act_alike_congruence simulates
  have reading := alike.sequence
    (alike.resolve_alike left.config.pointerWraps left.instruction.mode) alike.read_operand_alike
  obtain ⟨byte, -⟩ := reading left.fetched.registers left.fetched.bus bus sameBus
  have instruction : left.instruction = (left.withBus first).instruction :=
    congrArg Instruction.decode opcode
  rw [bind_run, bind_run] at byte
  rw [operandByte, operandByte, operandRead, operandRead, operand, operand, operandFound,
    operandFound, ← instruction, fetched]
  exact byte

end

variable {M H O : Type} [Bus M] [TraceObserver O]

omit [TraceObserver O] in
theorem observed_extends (session : Session (Monitored M) H O) :
    ∃ snapshot, Extends session.bus
      (if session.tracing then [.read session.registers.pc snapshot] else [])
      session.busAtFetch := by
  unfold busAtFetch
  cases session.tracing with
  | false => exact ⟨0, Extends.refl session.bus⟩
  | true => exact ⟨_, Monitored.read_extends session.bus session.registers.pc⟩

variable [ExtensionHandler H]

/-- The calls after the opcode. -/
theorem instruction_extends (session : Session (Monitored M) H O)
    (running : session.halted = none) :
    ∃ answers : Answers,
      (session.instruction.readsOperand = true →
        session.operandByte = answers.operandByte session.registers session.instruction.mode) ∧
      Extends session.fetched.bus
        (answers.executionCalls session.config.pointerWraps session.registers session.instruction)
        (step session).2.bus := by
  cases decoded : session.instruction with
  | illegal =>
      rw [step_of_illegal session running decoded]
      exact ⟨default, nofun, Extends.refl session.fetched.bus⟩
  | extension =>
      obtain ⟨_, _, _, _, _, executed⟩ := step_of_extension_changes session running decoded
      rw [executed]
      exact ⟨{ (default : Answers) with operandLow := _ }, nofun,
        Monitored.read_extends session.fetched.bus (session.registers.pc + 1)⟩
  | official mnemonic mode =>
      have documented := (Instruction.decode_official_iff _ mnemonic mode).mp decoded
      obtain ⟨answers, taken⟩ := Processor.execute_takes session.config.pointerWraps documented
        session.registers session.fetched.bus
      rw [step_of_official session running decoded, operandByte, operandRead, operand, operandFound,
        decoded]
      exact ⟨answers, taken.byte, taken.extends_bus⟩

/-- The answers that a step gets from its bus to the calls laid down for it. -/
structure AnsweredBy (session : Session M H O) (answers : Answers) : Prop where
  opcode : answers.opcode = session.fetchedOpcode
  calls : session.busCalls =
    answers.stepCalls session.tracing session.config.pointerWraps session.registers
  answered : CallsAnswered session.busCalls session.bus (step session).2.bus

theorem answered_by (session : Session M H O) (running : session.halted = none) :
    ∃ answers : Answers, session.AnsweredBy answers ∧
      (session.instruction.readsOperand = true →
        session.operandByte = answers.operandByte session.registers session.instruction.mode) := by
  have same : SameBut (fun (bus : Monitored M) monitored => bus.monitored = monitored)
      session.monitoring session := ⟨session.bus, rfl, rfl⟩
  have fetched := (fetched_simulated Monitored.simulates same).1
  have byte := operand_byte_simulated Monitored.simulates same
  have instruction : session.monitoring.instruction = session.instruction :=
    congrArg Instruction.decode fetched
  obtain ⟨snapshot, observed⟩ := observed_extends session.monitoring
  have opcode : Extends session.monitoring.busAtFetch
      [.read session.registers.pc session.monitoring.fetchedOpcode]
      session.monitoring.fetched.bus :=
    Monitored.read_extends session.monitoring.busAtFetch session.registers.pc
  obtain ⟨answers, operand, executed⟩ := instruction_extends session.monitoring running
  have extended := (observed.append opcode).append executed
  rw [byte, instruction] at operand
  rw [instruction, fetched] at extended
  refine ⟨{ answers with snapshot := snapshot, opcode := session.fetchedOpcode }, ⟨rfl, ?_, ?_⟩,
    operand⟩
  · rw [Answers.stepCalls, Answers.execution_calls_with_fetched]
    exact extended.record
  · rw [step_monitoring session, busCalls, extended.record]
    exact extended.answered

/-- The byte at the operand is what the bus answers to the calls that find it and read it. -/
def OperandAnswered (session : Session M H O) : Prop :=
  ∃ answers : Answers, session.AnsweredBy answers ∧
    session.operandByte = answers.operandByte session.registers session.instruction.mode

theorem operand_answered {session : Session M H O} {mnemonic : Mnemonic}
    (performs : session.Performs mnemonic) (reads : mnemonic.operation.readsOperand = true) :
    session.OperandAnswered := by
  obtain ⟨running, mode, decoded⟩ := performs
  obtain ⟨answers, answered, byte⟩ := answered_by session running
  refine ⟨answers, answered, byte ?_⟩
  rw [decoded]
  exact reads

/-- Whatever a bus does behind its answers, a step of a running session asks it for what is laid
down for its instruction, in that order, and for nothing else. If the two-byte reads of the bus are
the provided ones, these are byte accesses. -/
theorem step_accesses_exactly (session : Session M H O) (running : session.halted = none) :
    ∃ answers : Answers, session.AnsweredBy answers ∧
      (Bus.Bytewise M →
        session.accesses =
            answers.stepAccesses session.tracing session.config.pointerWraps session.registers ∧
          Answered session.accesses session.bus (step session).2.bus) := by
  obtain ⟨answers, answered, -⟩ := answered_by session running
  refine ⟨answers, answered, ?_⟩
  intro bytewise
  constructor
  · rw [accesses_eq_calls bytewise, answered.calls, Answers.stepAccesses]
  · rw [step_recording bytewise session]
    exact session.accesses_answered

/-- INC of an absolute address, observed by a trace, and BRK on the bus of a timer, which is asked
for its two bytes at once. -/
theorem increment_and_interrupt_accesses :
    let increment : Session FlatMemory Empty Empty :=
      start (FlatMemory.ofFn fun _ => 0xEE) 0x0200 { tracing := true }
    let interrupt : Session Timer Empty Empty := start ⟨0x00FF⟩ 0x0200 {}
    increment.halted = none ∧ Bus.Bytewise FlatMemory ∧
      increment.accesses = [.read 0x0200 0xEE, .read 0x0200 0xEE, .read 0x0201 0xEE,
        .read 0x0202 0xEE, .read 0xEEEE 0xEE, .write 0xEEEE 0xEF] ∧
      interrupt.halted = none ∧
      interrupt.busCalls = [.read 0x0200 0x00, .read 0x0201 0x00, .write 0x01FF 0x02,
        .write 0x01FE 0x02, .write 0x01FD 0x3C, .readWord 0xFFFE 0x00FF] := by
  intro increment interrupt
  have inc : Instruction.decode 0xEE = .official .inc .absolute :=
    (Instruction.decode_eq_of_code 0xEE).trans (by decide +kernel)
  have brk : Instruction.decode 0x00 = .official .brk .implicit :=
    (Instruction.decode_eq_of_code 0x00).trans (by decide +kernel)
  have traced : increment.tracing = true := rfl
  have registers : increment.registers = Registers.start 0x0200 := rfl
  have running : increment.halted = none := rfl
  have cell : ∀ address, increment.bus.get address = 0xEE := FlatMemory.get_of_fn fun _ => 0xEE
  have untraced : interrupt.tracing = false := rfl
  have idle : interrupt.registers = Registers.start 0x0200 := rfl
  have runningToo : interrupt.halted = none := rfl
  have timer : interrupt.bus = ⟨0x00FF⟩ := rfl
  have zero : interrupt.fetchedOpcode = 0x00 := rfl
  clear_value increment interrupt
  have opcode : increment.fetchedOpcode = 0xEE := by
    rw [fetchedOpcode, bus_at_fetch_of_quiet FlatMemory.reads_quietly]
    exact cell _
  obtain ⟨answers, answered, bytewise⟩ := step_accesses_exactly increment running
  obtain ⟨accesses, made⟩ := bytewise FlatMemory.bytewise
  rw [Answers.stepAccesses, Answers.stepCalls, answered.opcode, opcode, inc, traced, registers]
    at accesses
  rw [accesses] at made
  obtain ⟨snapshot, -, low, high, first, -⟩ := made
  obtain ⟨timed, asked, -⟩ := step_accesses_exactly interrupt runningToo
  have calls := asked.calls
  have given := asked.answered
  rw [Answers.stepCalls, asked.opcode, zero, brk, untraced, idle] at calls
  rw [calls, timer] at given
  obtain ⟨-, padding, vector, -⟩ := given
  refine ⟨running, FlatMemory.bytewise, ?_, runningToo, ?_⟩
  · have shown : answers.snapshot = 0xEE := snapshot.symm.trans (cell _)
    have lowByte : answers.operandLow = 0xEE := low.symm.trans (cell _)
    have highByte : answers.operandHigh = 0xEE := high.symm.trans (cell _)
    have found : answers.first = 0xEE := first.symm.trans (cell _)
    rw [accesses]
    change [Access.read 0x0200 answers.snapshot, .read 0x0200 0xEE,
      .read 0x0201 answers.operandLow, .read 0x0202 answers.operandHigh,
      .read (Word.ofBytes answers.operandLow answers.operandHigh) answers.first,
      .write (Word.ofBytes answers.operandLow answers.operandHigh) (answers.first + 1)] = _
    rw [shown, lowByte, highByte, found]
    rfl
  · rw [calls]
    change [BusCall.read 0x0200 0x00, .read 0x0201 timed.operandLow, .write 0x01FF 0x02,
      .write 0x01FE 0x02, .write 0x01FD 0x3C, .readWord 0xFFFE timed.vector] = _
    rw [← padding, ← vector]
    rfl

end Session

end Nmos6502
