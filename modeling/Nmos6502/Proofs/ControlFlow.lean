import Nmos6502.Proofs.CallFrame
import Nmos6502.Proofs.OperandByte
import Nmos6502.Proofs.Protocol

/-!
Where a step goes on. The next address depends on the kind of the instruction, and is computed here
from the registers and the memory before the step: what the step writes, be it onto its own bytes or
onto those it jumps through, comes too late to matter.
-/

namespace Nmos6502

/-- How an instruction chooses the one that comes after it. -/
inductive Flow where
  /-- Goes on elsewhere if the flag has this value. -/
  | branch (flag : Flag) (on : Bool)
  | jump
  | jumpThroughPointer
  | returnFromSubroutine
  | returnFromInterrupt
  | interrupt
  /-- Goes on behind its own bytes. -/
  | onward

def Instruction.flow : Instruction → Flow
  | .official .bcc _ => .branch .carry false
  | .official .bcs _ => .branch .carry true
  | .official .bne _ => .branch .zero false
  | .official .beq _ => .branch .zero true
  | .official .bpl _ => .branch .negative false
  | .official .bmi _ => .branch .negative true
  | .official .bvc _ => .branch .overflow false
  | .official .bvs _ => .branch .overflow true
  | .official .jmp .indirect => .jumpThroughPointer
  | .official .jmp _ => .jump
  | .official .jsr _ => .jump
  | .official .rts _ => .returnFromSubroutine
  | .official .rti _ => .returnFromInterrupt
  | .official .brk _ => .interrupt
  | .official _ _ | .extension | .illegal => .onward

/-- The two bytes at the address, of which the one at `$FFFF` is followed by the one at `$0000`. -/
def FlatMemory.wordAt (memory : FlatMemory) (address : Word) : Word :=
  Word.ofBytes (memory.get address) (memory.get (address + 1))

/-- The target of an indirect jump. A pointer that wraps within its page takes the high byte of the
target from the start of the page. -/
def FlatMemory.throughPointer (memory : FlatMemory) (wraps : Bool) (pointer : Word) : Word :=
  if wraps = true ∧ Word.lowByte pointer = 0xFF then
    Word.ofBytes (memory.get pointer) (memory.get (Word.ofBytes 0x00 (Word.highByte pointer)))
  else memory.wordAt pointer

/-- The word that is pushed while the stack pointer is at this cell. -/
def FlatMemory.pushedWord (memory : FlatMemory) (sp : Byte) : Word :=
  Word.ofBytes (memory.get (Word.stackCell (sp - 1))) (memory.get (Word.stackCell sp))

/-- The address at which an instruction of this size goes on. -/
def Flow.target (memory : FlatMemory) (registers : Registers) (wraps : Bool) (size : Nat) :
    Flow → Word
  | .branch flag on =>
      if registers.flags.get flag = on then
        UInt16.ofInt (registers.pc.toNat + 2 + (memory.get (registers.pc + 1)).toInt8.toInt)
      else registers.pc + 2
  | .jump => memory.wordAt (registers.pc + 1)
  | .jumpThroughPointer => memory.throughPointer wraps (memory.wordAt (registers.pc + 1))
  | .returnFromSubroutine =>
      Word.ofBytes (memory.get (Word.stackCell (registers.sp + 1)))
        (memory.get (Word.stackCell (registers.sp + 2))) + 1
  | .returnFromInterrupt =>
      Word.ofBytes (memory.get (Word.stackCell (registers.sp + 2)))
        (memory.get (Word.stackCell (registers.sp + 3)))
  | .interrupt => memory.wordAt Word.interruptVector
  | .onward => registers.pc + UInt16.ofNat size

/-- The address at which the session goes on, as its state before the step has it. -/
def Session.nextPC {H O : Type} (session : Session FlatMemory H O) : Word :=
  session.instruction.flow.target session.bus session.registers session.config.pointerWraps
    session.instruction.size

namespace Processor

section

variable {M : Type} [Bus M] (wraps : Bool) (mode : Mode) (processor : Processor M)

theorem load_pc {effect : Byte → Registers → Registers}
    (keeps : ∀ value registers, (effect value registers).pc = registers.pc) :
    (perform wraps mode (.load effect) processor).2.registers.pc =
      processor.registers.pc + UInt16.ofNat mode.operandBytes := by
  rw [load_registers, keeps]

theorem write_operand_pc (operand : Operand) (value : Byte) :
    (writeOperand operand value processor).2.registers.pc = processor.registers.pc := by
  cases operand <;> rfl

theorem store_pc (value : Registers → Byte) :
    (perform wraps mode (.store value) processor).2.registers.pc =
      processor.registers.pc + UInt16.ofNat mode.operandBytes := by
  rw [perform_store]
  dsimp only
  rw [write_operand_pc, resolve_registers]

theorem modify_pc (effect : Byte → Flags → Byte × Flags) :
    (perform wraps mode (.modify effect) processor).2.registers.pc =
      processor.registers.pc + UInt16.ofNat mode.operandBytes := by
  rw [modify_run, write_operand_pc]

/-- The instructions that neither branch nor jump leave the program counter behind their operand
bytes. Those that are executed without asking for their mode have none. -/
theorem execute_onward {mnemonic : Mnemonic}
    (onward : (Instruction.official mnemonic mode).flow = .onward)
    (fixed : ∀ fixedMode ∈ mnemonic.fixedMode?, mode = fixedMode) :
    (execute wraps mnemonic mode processor).2.registers.pc =
      processor.registers.pc + UInt16.ofNat mode.operandBytes := by
  have still (implicit : mode = .implicit) :
      processor.registers.pc = processor.registers.pc + UInt16.ofNat mode.operandBytes := by
    rw [implicit, Mode.operandBytes]
    exact (UInt16.add_zero processor.registers.pc).symm
  cases mnemonic with
  | adc | sbc | and | ora | eor | bit | cmp | cpx | cpy | lda | ldx | ldy =>
      exact load_pc wraps mode processor fun _ _ => rfl
  | sta | stx | sty => exact store_pc wraps mode processor _
  | asl | lsr | rol | ror | inc | dec => exact modify_pc wraps mode processor _
  | clc | cld | cli | clv | sec | sed | sei | inx | iny | dex | dey | tax | tay | tsx | txa | txs
    | tya | nop | pha | php | pla | plp => exact still (fixed .implicit rfl)
  | bcc | bcs | beq | bmi | bne | bpl | bvc | bvs | rts | rti | brk | jsr => cases onward
  | jmp => cases mode <;> cases onward

theorem branch_pc (taken : Flags → Bool) :
    (perform wraps .relative (.branch taken) processor).2.registers.pc =
      if taken processor.registers.flags = true then
        Word.displace (processor.registers.pc + 1) (fetch processor).1.toInt8
      else processor.registers.pc + 1 := by
  rw [perform_branch]
  change (if taken processor.registers.flags = true then _ else _ :
    Unit × Processor M).2.registers.pc = _
  split <;> rfl

end

/-- The vector lies above the stack, so that what goes onto the stack does not change it. -/
theorem software_interrupt_pc (processor : Processor FlatMemory) :
    (softwareInterrupt processor).2.registers.pc =
      processor.bus.wordAt Word.interruptVector := by
  have kept {address : Word} (above : 0x0200 ≤ address) :
      (softwareInterrupt processor).2.bus.get address = processor.bus.get address := by
    change (execute false .brk .implicit processor).2.bus.get address = _
    apply execute_keeps
    · intro stores
      cases stores
    · intro offset below
      exact Word.above_stack _ above
  have vector : (softwareInterrupt processor).2.registers.pc =
      (softwareInterrupt processor).2.bus.wordAt Word.interruptVector := rfl
  rw [vector, FlatMemory.wordAt, kept (by decide), kept (by decide), FlatMemory.wordAt]

end Processor

theorem Word.displace_following (pc : Word) (offset : Int8) :
    displace (pc + 1 + 1) offset = UInt16.ofInt (pc.toNat + 2 + offset.toInt) := by
  have displaced := displace_to_int (pc + 1 + 1) offset
  have following : (pc + 1 + 1).toNat = (pc.toNat + 2) % 65536 := by
    rw [UInt16.toNat_add, UInt16.toNat_add]
    change ((pc.toNat + 1) % 65536 + 1) % 65536 = _
    omega
  apply UInt16.toNat_inj.mp
  rw [UInt16.ofInt, UInt16.toNat_ofNat']
  omega

def Operation.branches : Operation → Bool
  | .branch _ => true
  | _ => false

/-- Branches have relative operands. -/
theorem Instruction.branch_is_relative {mnemonic : Mnemonic} {mode : Mode} {code : Byte}
    (decoded : decode code = .official mnemonic mode)
    (branches : mnemonic.operation.branches = true) : mode = .relative := by
  have listed : ∀ opcode ∈ officialOpcodes, opcode.mnemonic.operation.branches = true →
      opcode.mode = .relative := by
    decide +kernel
  exact listed _ ((decode_official_iff code mnemonic mode).mp decoded) branches

/-- A jump that is not indirect has an absolute operand. -/
theorem Instruction.jump_is_absolute {mode : Mode} {code : Byte}
    (decoded : decode code = .official .jmp mode) : mode = .absolute ∨ mode = .indirect := by
  have listed : ∀ opcode ∈ officialOpcodes, opcode.mnemonic = .jmp →
      opcode.mode = .absolute ∨ opcode.mode = .indirect := by
    decide +kernel
  exact listed _ ((decode_official_iff code .jmp mode).mp decoded) rfl

/-- The frames of a subroutine call and of BRK have the same two bytes on top. -/
theorem pushed_word_of_frame {caller : Registers} {memory : FlatMemory}
    (bytes : ∀ offset < 2, memory.get (Frame.cell caller offset) = Frame.byte caller offset) :
    memory.pushedWord caller.sp = caller.pc + 2 := by
  have high : memory.get (Word.stackCell caller.sp) = Word.highByte (caller.pc + 2) := by
    rw [← Frame.cell_zero]
    exact bytes 0 (by decide)
  have low : memory.get (Word.stackCell (caller.sp - 1)) = Word.lowByte (caller.pc + 2) :=
    bytes 1 (by decide)
  rw [FlatMemory.pushedWord, low, high, Word.of_bytes_low_high]

namespace Session

variable {H O : Type} [ExtensionHandler H] [TraceObserver O]
  (session : Session FlatMemory H O) (running : session.halted = none)

omit [ExtensionHandler H] in
theorem word_fetched :
    (Processor.fetchWord session.fetched.processor).1 =
      session.bus.wordAt (session.registers.pc + 1) :=
  congrArg (FlatMemory.wordAt · (session.registers.pc + 1)) (fetched_bus session)

include running

theorem processor_of_official {mnemonic : Mnemonic} {mode : Mode}
    (decoded : session.instruction = .official mnemonic mode) :
    (step session).2.processor =
      (Processor.execute session.config.pointerWraps mnemonic mode
        session.fetched.processor).2 := by
  rw [step_of_official session running decoded]

theorem pc_of_official {mnemonic : Mnemonic} {mode : Mode}
    (decoded : session.instruction = .official mnemonic mode) :
    (step session).2.registers.pc =
      (Processor.execute session.config.pointerWraps mnemonic mode
        session.fetched.processor).2.registers.pc := by
  rw [registers, processor_of_official session running decoded]

theorem pc_of_branch {mnemonic : Mnemonic} {mode : Mode} {taken : Flags → Bool} {flag : Flag}
    {on : Bool} (decoded : session.instruction = .official mnemonic mode)
    (branches : mnemonic.operation = .branch taken)
    (decides : ∀ flags : Flags, taken flags = true ↔ flags.get flag = on) :
    (step session).2.registers.pc =
      if session.registers.flags.get flag = on then
        UInt16.ofInt (session.registers.pc.toNat + 2 +
          (session.bus.get (session.registers.pc + 1)).toInt8.toInt)
      else session.registers.pc + 2 := by
  have relative : mode = .relative := by
    apply Instruction.branch_is_relative decoded
    rw [branches, Operation.branches]
  have offset : (Processor.fetch session.fetched.processor).1 =
      session.bus.get (session.registers.pc + 1) :=
    congrArg (FlatMemory.get · (session.registers.pc + 1)) (fetched_bus session)
  have next : session.fetched.processor.registers.pc = session.registers.pc + 1 := rfl
  have flags : session.fetched.processor.registers.flags = session.registers.flags := rfl
  have following : session.registers.pc + 1 + 1 = session.registers.pc + 2 := by grind
  rw [pc_of_official session running decoded, Processor.execute, branches, relative,
    Processor.branch_pc, offset, next, flags, Word.displace_following, following]
  simp only [decides]

theorem pc_of_jump {mode : Mode} (decoded : session.instruction = .official .jmp mode) :
    (step session).2.registers.pc = session.nextPC := by
  have executed := pc_of_official session running decoded
  have memory : (Processor.fetchWord session.fetched.processor).2.bus = session.bus :=
    fetched_bus session
  have word := word_fetched session
  rw [nextPC, decoded]
  obtain rfl | rfl := Instruction.jump_is_absolute decoded
  · rw [Instruction.flow, Flow.target, ← word]
    · exact executed
    · decide
  · have through : (Processor.execute session.config.pointerWraps .jmp .indirect
        session.fetched.processor).2.registers.pc =
        (Processor.readJumpPointer session.config.pointerWraps
          (Processor.fetchWord session.fetched.processor).1
          (Processor.fetchWord session.fetched.processor).2.bus).1 := rfl
    rw [executed, through, memory, word, Instruction.flow, Flow.target,
      Processor.readJumpPointer, FlatMemory.throughPointer]
    split <;> rfl

theorem pc_of_return {mode : Mode} (decoded : session.instruction = .official .rts mode) :
    (step session).2.registers.pc = session.nextPC := by
  have second : session.registers.sp + 1 + 1 = session.registers.sp + 2 := by grind
  rw [nextPC, decoded, Instruction.flow, Flow.target, ← second, ← fetched_bus session,
    pc_of_official session running decoded]
  rfl

theorem pc_of_interrupt_return {mode : Mode}
    (decoded : session.instruction = .official .rti mode) :
    (step session).2.registers.pc = session.nextPC := by
  have second : session.registers.sp + 1 + 1 = session.registers.sp + 2 := by grind
  have third : session.registers.sp + 1 + 1 + 1 = session.registers.sp + 3 := by grind
  rw [nextPC, decoded, Instruction.flow, Flow.target, ← second, ← third, ← fetched_bus session,
    pc_of_official session running decoded]
  rfl

theorem pc_after_official {mnemonic : Mnemonic} {mode : Mode}
    (decoded : session.instruction = .official mnemonic mode) :
    (step session).2.registers.pc = session.nextPC := by
  have executed := pc_of_official session running decoded
  have fixed : ∀ fixedMode ∈ mnemonic.fixedMode?, mode = fixedMode :=
    fixed_mode _ ((Instruction.decode_official_iff _ _ _).mp decoded)
  have behind : session.fetched.registers.pc + UInt16.ofNat mode.operandBytes =
      session.registers.pc + UInt16.ofNat (1 + mode.operandBytes) := by
    rw [UInt16.ofNat_add, ← UInt16.add_assoc]
    rfl
  have onward (flow : (Instruction.official mnemonic mode).flow = .onward) :
      (step session).2.registers.pc =
        session.registers.pc + UInt16.ofNat (1 + mode.operandBytes) := by
    rw [executed, Processor.execute_onward _ _ _ flow fixed]
    exact behind
  cases mnemonic with
  | jmp => exact pc_of_jump session running decoded
  | rts => exact pc_of_return session running decoded
  | rti => exact pc_of_interrupt_return session running decoded
  | jsr =>
      rw [nextPC, decoded, Instruction.flow, Flow.target, ← word_fetched session]
      exact executed
  | brk =>
      have vector := Processor.software_interrupt_pc session.fetched.processor
      rw [nextPC, decoded, Instruction.flow, Flow.target, ← fetched_bus session]
      exact executed.trans vector
  | bcc | bne | bpl | bvc =>
      rw [nextPC, decoded, Instruction.flow, Flow.target]
      exact pc_of_branch session running decoded rfl fun flags => by simp [Flags.get]
  | bcs | beq | bmi | bvs =>
      rw [nextPC, decoded, Instruction.flow, Flow.target]
      exact pc_of_branch session running decoded rfl fun flags => Iff.rfl
  | _ =>
      rw [nextPC, decoded]
      exact onward rfl

theorem address_pushed_by_call (calls : session.executes .jsr) :
    (step session).2.bus.pushedWord session.registers.sp = session.registers.pc + 2 := by
  obtain ⟨mode, decoded⟩ := calls
  rw [bus, processor_of_official session running decoded]
  apply pushed_word_of_frame
  exact (Processor.call_subroutine_frame session.registers session.fetched.processor rfl rfl).2

theorem address_pushed_by_interrupt (breaks : session.executes .brk) :
    (step session).2.bus.pushedWord session.registers.sp = session.registers.pc + 2 := by
  obtain ⟨mode, decoded⟩ := breaks
  have bytes := (Processor.software_interrupt_frame session.registers session.fetched.processor
    rfl rfl rfl).2
  rw [bus, processor_of_official session running decoded]
  apply pushed_word_of_frame
  intro offset within
  exact bytes offset (by omega)

/-- A step of a legal instruction goes on at the address that the kind of the instruction tells from
the state before it, and behind the bytes of the instruction if it is neither a branch nor a jump.
A subroutine call pushes the address of its own last byte, and BRK the one behind its padding. -/
theorem pc_after_step (legal : session.instruction ≠ .illegal) :
    (∃ progress, (step session).1 = .ok progress) ∧
    (step session).2.registers.pc = session.nextPC ∧
    (session.executes .jsr →
      (step session).2.bus.pushedWord session.registers.sp = session.registers.pc + 2) ∧
    (session.executes .brk → session.instruction.size = 2 ∧
      (step session).2.bus.pushedWord session.registers.sp =
        session.registers.pc + UInt16.ofNat session.instruction.size) := by
  refine ⟨(step_ok_iff_legal session running).mpr legal, ?_,
    address_pushed_by_call session running, ?_⟩
  · cases decoded : session.instruction with
    | illegal => exact absurd decoded legal
    | official mnemonic mode => exact pc_after_official session running decoded
    | extension =>
        have behind : session.registers.pc + 1 + 1 =
            session.registers.pc + UInt16.ofNat Instruction.extension.size := UInt16.add_assoc _ _ _
        obtain ⟨_, _, _, _, _, executed⟩ := step_of_extension_changes session running decoded
        rw [executed, nextPC, decoded, Instruction.flow, Flow.target]
        exact behind
  · intro breaks
    have pushed := address_pushed_by_interrupt session running breaks
    obtain ⟨mode, decoded⟩ := breaks
    have size : session.instruction.size = 2 := by rw [decoded, Instruction.size]
    rw [size]
    exact ⟨rfl, pushed⟩

end Session

/-- A subroutine call goes to its operand even where it pushes the return address over it, and a
branch at the top of memory goes back to the address before it. -/
theorem call_overwrites_its_operand :
    let code := ((FlatMemory.blank.set 0x01FD 0x20).set 0x01FE 0x34).set 0x01FF 0x12
    let calling : Session FlatMemory Empty Empty := .start code 0x01FD {}
    let loop := (FlatMemory.blank.set 0xFFFF 0xD0).set 0x0000 0xFD
    let branching : Session FlatMemory Empty Empty := .start loop 0xFFFF {}
    (Session.step calling).2.registers.pc = 0x1234 ∧
      (Session.step calling).2.bus.pushedWord 0xFF = 0x01FF ∧
      (Session.step branching).2.registers.pc = 0xFFFE := by
  intro code calling loop branching
  have jsr : calling.instruction = .official .jsr .absolute := by
    have opcode : calling.bus.get calling.registers.pc = 0x20 := by
      change code.get 0x01FD = 0x20
      rw [FlatMemory.get_set_other _ _ (by decide), FlatMemory.get_set_other _ _ (by decide),
        FlatMemory.get_set_same]
    rw [Session.instruction_on_flat, opcode, Instruction.decode_official_iff]
    decide +kernel
  have bne : branching.instruction = .official .bne .relative := by
    have opcode : branching.bus.get branching.registers.pc = 0xD0 := by
      change loop.get 0xFFFF = 0xD0
      rw [FlatMemory.get_set_other _ _ (by decide), FlatMemory.get_set_same]
    rw [Session.instruction_on_flat, opcode, Instruction.decode_official_iff]
    decide +kernel
  have legalCall : calling.instruction ≠ .illegal := by
    rw [jsr]
    decide
  have legalBranch : branching.instruction ≠ .illegal := by
    rw [bne]
    decide
  obtain ⟨-, target, pushes, -⟩ := Session.pc_after_step calling rfl legalCall
  obtain ⟨-, taken, -, -⟩ := Session.pc_after_step branching rfl legalBranch
  have callAt : calling.registers.pc = 0x01FD := rfl
  have branchAt : branching.registers.pc = 0xFFFF := rfl
  have notZero : branching.registers.flags.get .zero = false := rfl
  have low : calling.bus.get 0x01FE = 0x34 := by
    change code.get 0x01FE = 0x34
    rw [FlatMemory.get_set_other _ _ (by decide), FlatMemory.get_set_same]
  have high : calling.bus.get 0x01FF = 0x12 := FlatMemory.get_set_same _ _ _
  have offset : branching.bus.get 0x0000 = 0xFD := FlatMemory.get_set_same _ _ _
  have operand : (0x01FD : Word) + 1 = 0x01FE ∧ (0x01FE : Word) + 1 = 0x01FF ∧
      Word.ofBytes 0x34 0x12 = 0x1234 := by decide
  have returns : (0x01FD : Word) + 2 = 0x01FF := by decide
  have wraps : (0xFFFF : Word) + 1 = 0x0000 := by decide
  have back : UInt16.ofInt ((0xFFFF : Word).toNat + 2 + (0xFD : Byte).toInt8.toInt) = 0xFFFE := by
    decide
  have pushed := pushes ⟨_, jsr⟩
  rw [callAt, returns] at pushed
  refine ⟨?_, pushed, ?_⟩
  · rw [target, Session.nextPC, jsr, Instruction.flow, Flow.target, FlatMemory.wordAt, callAt,
      operand.1, operand.2.1, low, high, operand.2.2]
  · rw [taken, Session.nextPC, bne, Instruction.flow, Flow.target, notZero, if_pos rfl, branchAt,
      wraps, offset, back]

end Nmos6502
