import Nmos6502.Proofs.Replay
import Nmos6502.Proofs.Stack
import Nmos6502.Session.Call

/-!
Steps that read a byte at their operand. What such a step makes of its registers depends on that
byte and on the registers before it alone, however the byte was found. A step that writes the byte
back changed writes it to where it was read.
-/

namespace Nmos6502

namespace Processor

variable {M : Type} [Bus M]

theorem fetch_quiet (quiet : Bus.Quiet M) (processor : Processor M) :
    (fetch processor).2.bus = processor.bus :=
  quiet processor.registers.pc processor.bus

theorem fetch_word_quiet (quiet : Bus.Quiet M) (processor : Processor M) :
    (fetchWord processor).2.bus = processor.bus :=
  (fetch_quiet quiet (fetch processor).2).trans (fetch_quiet quiet processor)

end Processor

/-- Two reads, as a two-byte read of a bus without its own ones makes them. -/
theorem Bus.read_pair_quiet {M : Type} [Bus M] (quiet : Bus.Quiet M) (lowCell highCell : Word)
    (bus : M) : (Bus.read highCell (Bus.read lowCell bus).2).2 = bus :=
  (quiet highCell _).trans (quiet lowCell bus)

/-- The modes that find a cell of memory. -/
def Mode.findsCell : Mode → Bool
  | .implicit | .accumulator | .immediate | .relative => false
  | _ => true

/-- Whether what the operation writes goes somewhere in this mode. -/
def Operation.writable (mode : Mode) : Operation → Bool
  | .store _ => mode.findsCell
  | .modify _ => mode.findsCell || mode == .accumulator
  | _ => true

theorem Instruction.writable_of_decoded {code : Byte} {mnemonic : Mnemonic} {mode : Mode}
    (decoded : decode code = .official mnemonic mode) :
    mnemonic.operation.writable mode = true := by
  have listed : ∀ opcode ∈ officialOpcodes,
      opcode.mnemonic.operation.writable opcode.mode = true := by decide +kernel
  exact listed _ ((decode_official_iff code mnemonic mode).mp decoded)

namespace Processor

variable {M : Type} [Bus M]

theorem read_jump_pointer_quiet (quiet : Bus.Quiet M) (bytewise : Bus.Bytewise M) (wraps : Bool)
    (pointer : Word) (bus : M) : (readJumpPointer wraps pointer bus).2 = bus := by
  rw [readJumpPointer, bytewise.word]
  split <;> exact Bus.read_pair_quiet quiet _ _ bus

theorem resolve_quiet (quiet : Bus.Quiet M) (bytewise : Bus.Bytewise M) (wraps : Bool) (mode : Mode)
    (processor : Processor M) : (resolve wraps mode processor).2.bus = processor.bus := by
  have byte := fetch_quiet quiet processor
  have word := fetch_word_quiet quiet processor
  have pointer (address : Byte) (bus : M) : (Bus.readZeroPageWord address bus).2 = bus := by
    rw [bytewise.zeroPageWord]
    exact Bus.read_pair_quiet quiet _ _ bus
  cases mode with
  | implicit | accumulator => rfl
  | immediate | relative | zeroPage | zeroPageX | zeroPageY => exact byte
  | absolute | absoluteX | absoluteY => exact word
  | indirect => exact (read_jump_pointer_quiet quiet bytewise wraps _ _).trans word
  | indirectX | indirectY => exact (pointer _ _).trans byte

theorem read_operand_quiet (quiet : Bus.Quiet M) (operand : Operand) (processor : Processor M) :
    (readOperand operand processor).2.bus = processor.bus := by
  cases operand with
  | implied | accumulator | constant _ | displacement _ => rfl
  | cell address => exact quiet address processor.bus

theorem resolve_cell (wraps : Bool) {mode : Mode} (processor : Processor M)
    (finds : mode.findsCell = true) :
    ∃ address, (resolve wraps mode processor).1 = .cell address := by
  cases mode with
  | implicit | accumulator | immediate | relative => cases finds
  | _ => exact ⟨_, rfl⟩

theorem load_registers (wraps : Bool) (mode : Mode) (effect : Byte → Registers → Registers)
    (processor : Processor M) :
    let resolved := resolve wraps mode processor
    (perform wraps mode (.load effect) processor).2.registers =
      effect (readOperand resolved.1 resolved.2).1
        { processor.registers with
          pc := processor.registers.pc + UInt16.ofNat mode.operandBytes } := by
  intro resolved
  rw [perform_load, ← resolve_registers wraps mode processor]
  exact congrArg (effect _) (read_operand_registers resolved.1 resolved.2)

theorem modify_run (wraps : Bool) (mode : Mode) (effect : Byte → Flags → Byte × Flags)
    (processor : Processor M) :
    let resolved := resolve wraps mode processor
    let read := readOperand resolved.1 resolved.2
    let changed := effect read.1 processor.registers.flags
    (perform wraps mode (.modify effect) processor).2 =
      (writeOperand resolved.1.modified changed.1
        ⟨{ processor.registers with
            pc := processor.registers.pc + UInt16.ofNat mode.operandBytes
            flags := changed.2 }, read.2.bus⟩).2 := by
  intro resolved read
  have registers : read.2.registers = { processor.registers with
      pc := processor.registers.pc + UInt16.ofNat mode.operandBytes } :=
    (read_operand_registers resolved.1 resolved.2).trans (resolve_registers wraps mode processor)
  rw [perform_modify]
  dsimp only
  rw [registers]

end Processor

/-- The stores write a register that does not change while their operand is found. -/
theorem Mnemonic.store_value {mnemonic : Mnemonic} {value : Registers → Byte}
    (stores : mnemonic.operation = .store value) (registers : Registers) (pc : Word) :
    value { registers with pc := pc } = value registers := by
  cases mnemonic with
  | sta | stx | sty =>
      cases stores
      rfl
  | _ => cases stores

namespace Session

variable {M H O : Type} [Bus M] [TraceObserver O]

/-- The operand of the instruction that comes next, and the processor that has found it. -/
def operandFound (session : Session M H O) : Operand × Processor M :=
  Processor.resolve session.config.pointerWraps session.instruction.mode session.fetched.processor

def operand (session : Session M H O) : Operand := session.operandFound.1

/-- The byte at the operand, and the processor that has read it. -/
def operandRead (session : Session M H O) : Byte × Processor M :=
  Processor.readOperand session.operand session.operandFound.2

def operandByte (session : Session M H O) : Byte := session.operandRead.1

/-- The address after the operand. -/
def following (session : Session M H O) : Word :=
  session.registers.pc + 1 + UInt16.ofNat session.instruction.mode.operandBytes

theorem operand_found_registers (session : Session M H O) :
    session.operandFound.2.registers = { session.registers with pc := session.following } := by
  rw [operandFound, Processor.resolve_registers]
  rfl

theorem operand_read_quiet (quiet : Bus.Quiet M) (bytewise : Bus.Bytewise M)
    (session : Session M H O) : session.operandRead.2.bus = session.bus := by
  rw [operandRead, Processor.read_operand_quiet quiet, operandFound,
    Processor.resolve_quiet quiet bytewise]
  exact fetched_bus_of_quiet quiet session

theorem operand_cell {session : Session M H O} {mnemonic : Mnemonic} {mode : Mode}
    (decoded : session.instruction = .official mnemonic mode) (finds : mode.findsCell = true) :
    ∃ address, session.operand = .cell address := by
  rw [operand, operandFound, decoded]
  exact Processor.resolve_cell _ _ finds

theorem accumulator_operand {session : Session M H O} {mnemonic : Mnemonic}
    (decoded : session.instruction = .official mnemonic .accumulator) :
    session.operand = .accumulator ∧ session.operandByte = session.registers.a ∧
      session.operandRead.2.bus = session.fetched.bus := by
  have operand : session.operand = .accumulator := by
    rw [Session.operand, operandFound, decoded]
    rfl
  have found : session.operandFound.2 = session.fetched.processor := by
    rw [operandFound, decoded]
    rfl
  rw [operandByte, operandRead, operand, found]
  exact ⟨rfl, rfl, rfl⟩

/-- The step from here succeeds and executes the instruction. -/
structure Performs (mnemonic : Mnemonic) (session : Session M H O) : Prop where
  running : session.halted = none
  executes : session.executes mnemonic

variable [ExtensionHandler H]

theorem step_of_load {session : Session M H O} {mnemonic : Mnemonic}
    {effect : Byte → Registers → Registers} (performs : session.Performs mnemonic)
    (loads : mnemonic.operation = .load effect) :
    (step session).2.registers =
        effect session.operandByte { session.registers with pc := session.following } ∧
      (step session).2.bus = session.operandRead.2.bus := by
  obtain ⟨running, mode, decoded⟩ := performs
  have executed := step_of_official session running decoded
  rw [Processor.execute, loads] at executed
  rw [executed, operandByte, operandRead, operand, operandFound, following, decoded]
  constructor
  · exact Processor.load_registers _ mode effect session.fetched.processor
  · rfl

theorem step_of_store {session : Session M H O} {mnemonic : Mnemonic} {value : Registers → Byte}
    (performs : session.Performs mnemonic) (stores : mnemonic.operation = .store value) :
    (step session).2.processor =
      (Processor.writeOperand session.operand (value session.registers)
        session.operandFound.2).2 := by
  have kept : value session.fetched.registers = value session.registers :=
    Mnemonic.store_value stores session.registers (session.registers.pc + 1)
  obtain ⟨running, mode, decoded⟩ := performs
  have executed := step_of_official session running decoded
  rw [Processor.execute, stores, Processor.perform_store] at executed
  rw [executed, operand, operandFound, decoded, ← kept]
  rfl

theorem step_of_modify {session : Session M H O} {mnemonic : Mnemonic}
    {effect : Byte → Flags → Byte × Flags} (performs : session.Performs mnemonic)
    (modifies : mnemonic.operation = .modify effect) :
    let changed := effect session.operandByte session.registers.flags
    (step session).2.processor =
      (Processor.writeOperand session.operand.modified changed.1
        ⟨{ session.registers with pc := session.following, flags := changed.2 },
          session.operandRead.2.bus⟩).2 := by
  obtain ⟨running, mode, decoded⟩ := performs
  have executed := step_of_official session running decoded
  rw [Processor.execute, modifies] at executed
  rw [executed, operandByte, operandRead, operand, operandFound, following, decoded]
  exact Processor.modify_run _ mode effect session.fetched.processor

theorem halted_of_performs {session : Session M H O} {mnemonic : Mnemonic}
    (performs : session.Performs mnemonic) : (step session).2.halted = none := by
  obtain ⟨running, mode, decoded⟩ := performs
  rw [step_of_official session running decoded]
  exact running

end Session

namespace Session

variable {H O : Type} [ExtensionHandler H] [TraceObserver O]

/-- The host writes the instruction where the session goes on, and loads the accumulator. -/
def prepared (code operand a : Byte) (session : Session FlatMemory H O) : Session FlatMemory H O :=
  (performAll [.write session.registers.pc code, .write (session.registers.pc + 1) operand, .setA a]
    session).2

variable (code operand a : Byte) (session : Session FlatMemory H O)

theorem prepared_registers :
    (session.prepared code operand a).registers = { session.registers with a := a } := rfl

theorem prepared_bus :
    (session.prepared code operand a).bus =
      (session.bus.set session.registers.pc code).set (session.registers.pc + 1) operand := rfl

/-- The host writes to no other cells. -/
theorem prepared_cell {cell : Word} (first : session.registers.pc ≠ cell)
    (second : session.registers.pc + 1 ≠ cell) :
    (session.prepared code operand a).bus.get cell = session.bus.get cell := by
  rw [prepared_bus, FlatMemory.get_set_other _ _ second, FlatMemory.get_set_other _ _ first]

theorem prepared_instruction :
    (session.prepared code operand a).instruction = Instruction.decode code := by
  have apart : session.registers.pc + 1 ≠ session.registers.pc := by
    intro same
    grind
  rw [instruction_on_flat, prepared_bus, prepared_registers, FlatMemory.get_set_other _ _ apart,
    FlatMemory.get_set_same]

theorem prepared_performs {mnemonic : Mnemonic} {mode : Mode} (running : session.halted = none)
    (decodes : Instruction.decode code = .official mnemonic mode) :
    (session.prepared code operand a).Performs mnemonic :=
  ⟨running, mode, (prepared_instruction code operand a session).trans decodes⟩

theorem prepared_operand {mnemonic : Mnemonic}
    (decodes : Instruction.decode code = .official mnemonic .immediate) :
    (session.prepared code operand a).operandByte = operand := by
  have decoded := (prepared_instruction code operand a session).trans decodes
  have fetched := fetched_bus (session.prepared code operand a)
  rw [operandByte, operandRead, Session.operand, operandFound, decoded]
  change (session.prepared code operand a).fetched.bus.get (session.registers.pc + 1) = operand
  rw [fetched, prepared_bus, FlatMemory.get_set_same]

theorem prepared_accumulator {mnemonic : Mnemonic}
    (decodes : Instruction.decode code = .official mnemonic .accumulator) :
    (session.prepared code operand a).operandByte = a := by
  have decoded := (prepared_instruction code operand a session).trans decodes
  rw [(accumulator_operand decoded).2.1, prepared_registers]

theorem prepared_zero_page {mnemonic : Mnemonic}
    (decodes : Instruction.decode code = .official mnemonic .zeroPage) :
    (session.prepared code operand a).operandByte =
      (session.prepared code operand a).bus.get (Word.zeroPage operand) := by
  have decoded := (prepared_instruction code operand a session).trans decodes
  have fetched := fetched_bus (session.prepared code operand a)
  have address : (session.prepared code operand a).fetched.bus.get (session.registers.pc + 1) =
      operand := by
    rw [fetched, prepared_bus, FlatMemory.get_set_same]
  rw [operandByte, operandRead, Session.operand, operandFound, decoded]
  change (session.prepared code operand a).fetched.bus.get
    (Word.zeroPage ((session.prepared code operand a).fetched.bus.get (session.registers.pc + 1)))
      = _
  rw [address, fetched]

end Session

end Nmos6502
