import Nmos6502.Proofs.OperandByte

/-!
The operand of an instruction as arithmetic on numbers. Each mode says how the operand bytes, the
index registers and a pointer in memory make up an address, and where the sum is reduced: to a byte
in page zero, to a word elsewhere. All of this is computed from the state before the step, so an
instruction finds its operand also where it is about to write onto its own bytes or its pointer.
-/

namespace Nmos6502

namespace Word

theorem next_to_nat (address : Word) : (address + 1).toNat = (address.toNat + 1) % 65536 :=
  UInt16.toNat_add address 1

theorem zero_page_to_nat (address : Byte) : (zeroPage address).toNat = address.toNat :=
  UInt8.toNat_toUInt16 address

theorem zero_page_add_to_nat (base index : Byte) :
    (zeroPage (base + index)).toNat = (base.toNat + index.toNat) % 256 :=
  (zero_page_to_nat (base + index)).trans (UInt8.toNat_add base index)

theorem zero_page_next_to_nat (address : Byte) :
    (zeroPage (address + 1)).toNat = (address.toNat + 1) % 256 :=
  zero_page_add_to_nat address 1

theorem zero_page_add_next_to_nat (base index : Byte) :
    (zeroPage (base + index + 1)).toNat = (base.toNat + index.toNat + 1) % 256 := by
  rw [zero_page_next_to_nat, UInt8.toNat_add]
  exact Nat.mod_add_mod _ _ _

theorem add_byte_to_nat (base : Word) (index : Byte) :
    (base + index.toUInt16).toNat = (base.toNat + index.toNat) % 65536 := by
  rw [UInt16.toNat_add, UInt8.toNat_toUInt16]

/-- A byte from 128 on is a negative number. -/
theorem displacement_of_byte (byte : Byte) : byte.toInt8 =
    Int8.ofInt (if byte.toNat < 128 then (byte.toNat : Int) else (byte.toNat : Int) - 256) := by
  have value : byte.toInt8.toInt =
      if byte.toNat < 128 then (byte.toNat : Int) else (byte.toNat : Int) - 256 := by
    have bits : byte.toInt8.toInt = byte.toBitVec.toInt := rfl
    have number : byte.toBitVec.toNat = byte.toNat := rfl
    rw [bits, BitVec.toInt_eq_toNat_cond, number]
    split <;> split <;> omega
  rw [← value, Int8.ofInt_toInt]

end Word

namespace FlatMemory

/-- The byte at the address, as a number. -/
def byteAt (memory : FlatMemory) (address : Nat) : Nat := (memory.get (UInt16.ofNat address)).toNat

/-- The number that the bytes at the two addresses make up, the low one first. -/
def pairAt (memory : FlatMemory) (low high : Nat) : Nat :=
  memory.byteAt low + 256 * memory.byteAt high

/-- The operand of the mode whose bytes begin at `pc`. -/
def operandAt (memory : FlatMemory) (pointerWraps : Bool) (pc x y : Nat) : Mode → Operand :=
  let first := memory.byteAt pc
  let word := memory.pairAt pc ((pc + 1) % 65536)
  fun
  | .implicit => .implied
  | .accumulator => .accumulator
  | .immediate => .constant (UInt8.ofNat first)
  | .relative =>
      .displacement (Int8.ofInt (if first < 128 then (first : Int) else (first : Int) - 256))
  | .zeroPage => .cell (UInt16.ofNat first)
  | .zeroPageX => .cell (UInt16.ofNat ((first + x) % 256))
  | .zeroPageY => .cell (UInt16.ofNat ((first + y) % 256))
  | .absolute => .cell (UInt16.ofNat word)
  | .absoluteX => .cell (UInt16.ofNat ((word + x) % 65536))
  | .absoluteY => .cell (UInt16.ofNat ((word + y) % 65536))
  | .indirect =>
      let next := if pointerWraps = true ∧ first = 255 then word - 255 else (word + 1) % 65536
      .cell (UInt16.ofNat (memory.pairAt word next))
  | .indirectX =>
      .cell (UInt16.ofNat (memory.pairAt ((first + x) % 256) ((first + x + 1) % 256)))
  | .indirectY => .cell (UInt16.ofNat ((memory.pairAt first ((first + 1) % 256) + y) % 65536))

theorem byte_at_cell (memory : FlatMemory) (cell : Word) :
    memory.byteAt cell.toNat = (memory.get cell).toNat := by
  rw [byteAt, UInt16.ofNat_toNat]

theorem pair_at_cells (memory : FlatMemory) (low high : Word) :
    memory.pairAt low.toNat high.toNat =
      (Word.ofBytes (memory.get low) (memory.get high)).toNat := by
  rw [pairAt, byte_at_cell, byte_at_cell, Word.of_bytes_to_nat]

/-- The second cell of the pointer of an indirect jump. -/
theorem jump_pointer_next (pointerWraps : Bool) (low high : Byte) :
    (if pointerWraps = true ∧ low.toNat = 255 then (Word.ofBytes low high).toNat - 255
      else ((Word.ofBytes low high).toNat + 1) % 65536) =
    (if pointerWraps = true ∧ low = 0xFF then Word.ofBytes 0 high
      else Word.ofBytes low high + 1).toNat := by
  have last : low.toNat = 255 ↔ low = 0xFF := by
    rw [← UInt8.toNat_inj]
    exact Iff.rfl
  simp only [last]
  split
  · rename_i turns
    have first : Word.ofBytes low high = Word.ofBytes 0xFF high := by rw [turns.2]
    rw [first, Word.of_bytes_to_nat, Word.of_bytes_to_nat]
    change 255 + 256 * high.toNat - 255 = 0 + 256 * high.toNat
    omega
  · exact (Word.next_to_nat _).symm

end FlatMemory

namespace Processor

variable (wraps : Bool) (mode : Mode) (processor : Processor FlatMemory)

/-- Every number of the arithmetic is that of a word of the machine, so it is reduced where the
machine's addition wraps. -/
theorem resolve_operand :
    (resolve wraps mode processor).1 =
      processor.bus.operandAt wraps processor.registers.pc.toNat processor.registers.x.toNat
        processor.registers.y.toNat mode := by
  obtain ⟨registers, memory⟩ := processor
  dsimp only
  rw [FlatMemory.operandAt, ← Word.next_to_nat, FlatMemory.pair_at_cells, FlatMemory.byte_at_cell]
  dsimp only
  -- In each case the numbers are turned back into the bytes and words that the mode computes with.
  cases mode with
  | implicit | accumulator => rfl
  | immediate =>
      dsimp only
      rw [UInt8.ofNat_toNat]
      rfl
  | relative => exact congrArg Operand.displacement (Word.displacement_of_byte _)
  | zeroPage =>
      dsimp only
      rw [← Word.zero_page_to_nat, UInt16.ofNat_toNat]
      rfl
  | zeroPageX | zeroPageY =>
      dsimp only
      rw [← Word.zero_page_add_to_nat, UInt16.ofNat_toNat]
      rfl
  | absolute =>
      dsimp only
      rw [UInt16.ofNat_toNat]
      rfl
  | absoluteX | absoluteY =>
      dsimp only
      rw [← Word.add_byte_to_nat, UInt16.ofNat_toNat]
      rfl
  | indirect =>
      have read : (resolve wraps .indirect ⟨registers, memory⟩).1 = .cell (readJumpPointer wraps
          (Word.ofBytes (memory.get registers.pc) (memory.get (registers.pc + 1))) memory).1 := rfl
      dsimp only
      rw [FlatMemory.jump_pointer_next, FlatMemory.pair_at_cells, UInt16.ofNat_toNat, read,
        readJumpPointer, Word.low_byte_of_bytes, Word.high_byte_of_bytes]
      split <;> rfl
  | indirectX =>
      dsimp only
      rw [← Word.zero_page_add_to_nat, ← Word.zero_page_add_next_to_nat, FlatMemory.pair_at_cells,
        UInt16.ofNat_toNat]
      rfl
  | indirectY =>
      dsimp only
      rw [← Word.zero_page_next_to_nat, ← Word.zero_page_to_nat, FlatMemory.pair_at_cells,
        ← Word.add_byte_to_nat, UInt16.ofNat_toNat]
      rfl

theorem resolve_on_flat :
    resolve wraps mode processor =
      (processor.bus.operandAt wraps processor.registers.pc.toNat processor.registers.x.toNat
          processor.registers.y.toNat mode,
        ⟨{ processor.registers with
            pc := UInt16.ofNat (processor.registers.pc.toNat + mode.operandBytes) },
          processor.bus⟩) := by
  have next : UInt16.ofNat (processor.registers.pc.toNat + mode.operandBytes) =
      processor.registers.pc + UInt16.ofNat mode.operandBytes := by
    rw [UInt16.ofNat_add, UInt16.ofNat_toNat]
  rw [next, ← resolve_operand, ← resolve_registers wraps mode processor]
  exact congrArg (fun bus => ((resolve wraps mode processor).1,
    Processor.mk (resolve wraps mode processor).2.registers bus)) (resolve_bus wraps mode processor)

end Processor

/-- Reads of the cells, each with the byte that the memory holds there. -/
def FlatMemory.reads (memory : FlatMemory) (cells : List Word) : List Access :=
  cells.map fun cell => .read cell (memory.get cell)

namespace Recorded

/-- The record with reads of the cells added to it. -/
def reading (bus : Recorded FlatMemory) (cells : List Word) : Recorded FlatMemory :=
  cells.foldl (fun bus cell => (Bus.read cell bus).2) bus

variable (bus : Recorded FlatMemory)

theorem reading_append (first second : List Word) :
    bus.reading (first ++ second) = (bus.reading first).reading second :=
  List.foldl_append

theorem reading_recorded (cells : List Word) : (bus.reading cells).recorded = bus.recorded := by
  induction cells generalizing bus with
  | nil => rfl
  | cons cell rest induction => exact induction (Bus.read cell bus).2

theorem reading_accesses (cells : List Word) :
    (bus.reading cells).accesses.toList = bus.accesses.toList ++ bus.recorded.reads cells := by
  induction cells generalizing bus with
  | nil => exact (List.append_nil _).symm
  | cons cell rest induction =>
      have extended : (Bus.read cell bus).2.accesses.toList =
          bus.accesses.toList ++ [.read cell (bus.recorded.get cell)] := Array.toList_push
      have later := induction (Bus.read cell bus).2
      rw [extended, List.append_assoc] at later
      exact later

end Recorded

/-- The cells that are read to find the operand: first the operand bytes, then the pointer. -/
def FlatMemory.findingCells (memory : FlatMemory) (pointerWraps : Bool) (pc : Word) (x : Byte)
    (mode : Mode) : List Word :=
  [pc, pc + 1].take mode.operandBytes ++
    mode.pointerCells pointerWraps x (memory.get pc) (memory.get (pc + 1))

/-- The byte at the operand. -/
def Operand.byteIn (a : Byte) (memory : FlatMemory) : Operand → Byte
  | .implied | .accumulator => a
  | .constant value => value
  | .displacement offset => offset.toUInt8
  | .cell address => memory.get address

namespace Processor

theorem read_jump_pointer_recorded (wraps : Bool) (x low high : Byte) (bus : Recorded FlatMemory) :
    readJumpPointer wraps (Word.ofBytes low high) bus =
      ((readJumpPointer wraps (Word.ofBytes low high) bus.recorded).1,
        bus.reading (Mode.indirect.pointerCells wraps x low high)) := by
  rw [readJumpPointer, readJumpPointer, Word.low_byte_of_bytes, Word.high_byte_of_bytes,
    Mode.pointerCells]
  split <;> rfl

theorem read_operand_on_flat (operand : Operand) (registers : Registers) (memory : FlatMemory) :
    readOperand operand ⟨registers, memory⟩ =
      (operand.byteIn registers.a memory, ⟨registers, memory⟩) := by
  cases operand <;> rfl

theorem read_operand_recorded (operand : Operand) (registers : Registers)
    (bus : Recorded FlatMemory) :
    readOperand operand ⟨registers, bus⟩ =
      (operand.byteIn registers.a bus.recorded,
        ⟨registers, bus.reading operand.cell?.toList⟩) := by
  cases operand <;> rfl

/-- A record of the reads does not change which operand is found. -/
theorem resolve_recorded (wraps : Bool) (mode : Mode) (registers : Registers)
    (bus : Recorded FlatMemory) :
    resolve wraps mode ⟨registers, bus⟩ =
      ((resolve wraps mode ⟨registers, bus.recorded⟩).1,
        ⟨(resolve wraps mode ⟨registers, bus.recorded⟩).2.registers,
          bus.reading (bus.recorded.findingCells wraps registers.pc registers.x mode)⟩) := by
  cases mode with
  | indirect =>
      have jump := read_jump_pointer_recorded wraps registers.x (bus.recorded.get registers.pc)
        (bus.recorded.get (registers.pc + 1)) (bus.reading [registers.pc, registers.pc + 1])
      rw [FlatMemory.findingCells, Recorded.reading_append]
      exact congrArg (fun read : Word × Recorded FlatMemory =>
        (Operand.cell read.1, Processor.mk _ read.2)) jump
  | _ => rfl

end Processor

namespace Session

variable {H O : Type} [TraceObserver O] (session : Session FlatMemory H O)

/-- The operand of the next instruction, computed from the state before the step. -/
def computedOperand : Operand :=
  session.bus.operandAt session.config.pointerWraps ((session.registers.pc.toNat + 1) % 65536)
    session.registers.x.toNat session.registers.y.toNat session.instruction.mode

/-- The cell of the operand, if it has one. -/
def effectiveAddress : Option Word := session.computedOperand.cell?

/-- The reads of a step up to the operand: the opcode, once more before that for a snapshot, then
the operand bytes and the pointer. -/
def findingReads : List Access :=
  session.bus.reads ((if session.tracing then [session.registers.pc] else []) ++
    [session.registers.pc] ++
    session.bus.findingCells session.config.pointerWraps (session.registers.pc + 1)
      session.registers.x session.instruction.mode)

theorem operand_eq_computed : session.operand = session.computedOperand := by
  have found := Processor.resolve_operand session.config.pointerWraps session.instruction.mode
    session.fetched.processor
  have bus : session.fetched.processor.bus = session.bus := fetched_bus session
  have next : session.fetched.processor.registers.pc.toNat =
      (session.registers.pc.toNat + 1) % 65536 := Word.next_to_nat session.registers.pc
  rw [bus, next] at found
  exact found

theorem computed_cell {session : Session FlatMemory H O} {mnemonic : Mnemonic} {mode : Mode}
    (decoded : session.instruction = .official mnemonic mode) (finds : mode.findsCell = true) :
    ∃ address, session.computedOperand = .cell address := by
  rw [← operand_eq_computed]
  exact operand_cell decoded finds

theorem fetched_on_flat :
    session.fetched.processor = ⟨session.fetched.registers, session.bus⟩ := by
  have made : session.fetched.processor = ⟨session.fetched.registers, session.fetched.bus⟩ := rfl
  rw [made, fetched_bus session]

theorem operand_found_on_flat :
    session.operandFound.2 = ⟨{ session.registers with pc := session.following }, session.bus⟩ := by
  have bus : session.operandFound.2.bus = session.bus := by
    rw [operandFound, Processor.resolve_bus]
    exact fetched_bus session
  rw [← operand_found_registers session, ← bus]

omit [TraceObserver O] in
theorem instruction_recording : session.recording.instruction = session.instruction := by
  rw [instruction, instruction, opcode_recording]

theorem fetched_recording :
    session.recording.fetched.processor =
      ⟨session.fetched.registers,
        Recorded.reading { recorded := session.bus }
          ((if session.tracing then [session.registers.pc] else []) ++
            [session.registers.pc])⟩ := by
  rcases session with ⟨_, _, tracing, _, _, _, _, _, _⟩
  cases tracing <;> rfl

/-- Up to the operand the step only reads, and it makes the reads laid down here. -/
theorem operand_found_recording :
    ∃ bus : Recorded FlatMemory,
      session.recording.operandFound =
        (session.operand, ⟨{ session.registers with pc := session.following }, bus⟩) ∧
      bus.accesses.toList = session.findingReads ∧ bus.recorded = session.bus := by
  let opcodeRead := Recorded.reading { recorded := session.bus }
    ((if session.tracing then [session.registers.pc] else []) ++ [session.registers.pc])
  let cells := session.bus.findingCells session.config.pointerWraps (session.registers.pc + 1)
    session.registers.x session.instruction.mode
  refine ⟨opcodeRead.reading cells, ?_, ?_, ?_⟩
  · have memory : opcodeRead.recorded = session.bus := Recorded.reading_recorded _ _
    have found : Processor.resolve session.config.pointerWraps session.instruction.mode
        ⟨session.fetched.registers, session.bus⟩ = session.operandFound := by
      rw [operandFound, fetched_on_flat]
    have config : session.recording.config = session.config := rfl
    rw [operandFound, instruction_recording, fetched_recording, config,
      Processor.resolve_recorded, memory, found, operand_found_on_flat]
    rfl
  · rw [← Recorded.reading_append, Recorded.reading_accesses]
    rfl
  · rw [← Recorded.reading_append, Recorded.reading_recorded]

theorem operand_recording : session.recording.operand = session.computedOperand := by
  obtain ⟨bus, found, -⟩ := operand_found_recording session
  rw [operand, found, operand_eq_computed]

/-- The byte at the operand, before the step. -/
def operandValue : Byte := session.computedOperand.byteIn session.registers.a session.bus

theorem operand_byte_on_flat : session.operandByte = session.operandValue := by
  rw [operandByte, operandRead, operand_found_on_flat, operand_eq_computed,
    Processor.read_operand_on_flat, operandValue]

theorem operand_read_recording :
    ∃ bus : Recorded FlatMemory,
      session.recording.operandRead =
        (session.operandValue, ⟨{ session.registers with pc := session.following }, bus⟩) ∧
      bus.accesses.toList =
        session.findingReads ++ session.bus.reads session.effectiveAddress.toList ∧
      bus.recorded = session.bus := by
  obtain ⟨bus, found, accesses, recorded⟩ := operand_found_recording session
  refine ⟨bus.reading session.effectiveAddress.toList, ?_, ?_, ?_⟩
  · rw [operandRead, operand_recording, found]
    dsimp only
    rw [Processor.read_operand_recorded, recorded]
    rfl
  · rw [Recorded.reading_accesses, accesses, recorded]
  · rw [Recorded.reading_recorded, recorded]

omit [TraceObserver O] in
theorem recording_performs {session : Session FlatMemory H O} {mnemonic : Mnemonic}
    (performs : session.Performs mnemonic) : session.recording.Performs mnemonic := by
  obtain ⟨running, mode, decoded⟩ := performs
  exact ⟨running, mode, (instruction_recording session).trans decoded⟩

section

variable [ExtensionHandler H]

/-- What a step does with its operand: the accesses that follow those that found it, and the
processor that it leaves. Only the accumulator is read or written without an access. -/
def WorksOnOperand (session : Session FlatMemory H O) : Operation → Prop
  | .load effect =>
      session.accesses =
          session.findingReads ++ session.bus.reads session.effectiveAddress.toList ∧
        (step session).2.processor =
          ⟨effect session.operandValue { session.registers with pc := session.following },
            session.bus⟩
  | .store value =>
      ∃ address, session.effectiveAddress = some address ∧
        session.accesses = session.findingReads ++ [.write address (value session.registers)] ∧
        (step session).2.processor =
          ⟨{ session.registers with pc := session.following },
            session.bus.set address (value session.registers)⟩
  | .modify effect =>
      let changed := effect session.operandValue session.registers.flags
      let registers := { session.registers with pc := session.following, flags := changed.2 }
      (session.computedOperand = .accumulator ∧ session.accesses = session.findingReads ∧
        (step session).2.processor = ⟨{ registers with a := changed.1 }, session.bus⟩) ∨
      ∃ address, session.effectiveAddress = some address ∧
        session.accesses = session.findingReads ++
          [.read address (session.bus.get address), .write address changed.1] ∧
        (step session).2.processor = ⟨registers, session.bus.set address changed.1⟩
  | _ => True

variable {session : Session FlatMemory H O} {mnemonic : Mnemonic}

theorem load_works_on_operand {effect : Byte → Registers → Registers}
    (performs : session.Performs mnemonic) (loads : mnemonic.operation = .load effect) :
    session.WorksOnOperand (.load effect) := by
  obtain ⟨registers, bus⟩ := step_of_load performs loads
  obtain ⟨-, recording⟩ := step_of_load (recording_performs performs) loads
  obtain ⟨read, found, accesses, -⟩ := operand_read_recording session
  constructor
  · rw [Session.accesses, recording, found]
    exact accesses
  · have memory : (step session).2.bus = session.bus :=
      bus.trans (operand_read_quiet FlatMemory.reads_quietly FlatMemory.bytewise session)
    rw [operand_byte_on_flat] at registers
    rw [← registers, ← memory]
    rfl

theorem store_works_on_operand {value : Registers → Byte} (performs : session.Performs mnemonic)
    (stores : mnemonic.operation = .store value) : session.WorksOnOperand (.store value) := by
  have stored := step_of_store performs stores
  have recording := step_of_store (recording_performs performs) stores
  obtain ⟨bus, found, accesses, -⟩ := operand_found_recording session
  obtain ⟨-, mode, decoded⟩ := performs
  have writable := Instruction.writable_of_decoded decoded
  rw [stores] at writable
  obtain ⟨address, cell⟩ := computed_cell decoded writable
  refine ⟨address, congrArg Operand.cell? cell, ?_, ?_⟩
  · rw [operand_recording, found, cell] at recording
    rw [Session.accesses, Session.bus, recording, ← accesses]
    exact Array.toList_push
  · rw [operand_found_on_flat, operand_eq_computed, cell] at stored
    exact stored

theorem modify_works_on_operand {effect : Byte → Flags → Byte × Flags}
    (performs : session.Performs mnemonic) (modifies : mnemonic.operation = .modify effect) :
    session.WorksOnOperand (.modify effect) := by
  have modified := step_of_modify performs modifies
  have recording := step_of_modify (recording_performs performs) modifies
  have memory := operand_read_quiet FlatMemory.reads_quietly FlatMemory.bytewise session
  obtain ⟨bus, found, accesses, -⟩ := operand_read_recording session
  obtain ⟨-, mode, decoded⟩ := performs
  have writable := Instruction.writable_of_decoded decoded
  rw [modifies, Operation.writable, Bool.or_eq_true, beq_iff_eq] at writable
  rw [operand_byte_on_flat, operand_eq_computed, memory] at modified
  have same : session.recording.registers = session.registers := rfl
  rw [operand_recording, operandByte, found, same] at recording
  dsimp only at recording
  have recorded (processor : Processor (Recorded FlatMemory))
      (left : (step session.recording).2.processor = processor) :
      session.accesses = processor.bus.accesses.toList := by
    rw [Session.accesses, Session.bus, left]
  -- The accumulator is changed without an access, and a cell is read before it is written.
  cases writable with
  | inl finds =>
      obtain ⟨address, cell⟩ := computed_cell decoded finds
      have effective : session.effectiveAddress = some address := congrArg Operand.cell? cell
      rw [cell] at modified recording
      rw [effective] at accesses
      refine Or.inr ⟨address, effective, ?_, modified⟩
      have reading : session.findingReads ++ [.read address (session.bus.get address)] =
          bus.accesses.toList := accesses.symm
      rw [recorded _ recording, List.append_cons, reading]
      exact Array.toList_push
  | inr form =>
      have accumulator : session.computedOperand = .accumulator := by
        rw [computedOperand, decoded, form]
        rfl
      have effective : session.effectiveAddress = none := congrArg Operand.cell? accumulator
      rw [accumulator] at modified recording
      rw [effective] at accesses
      refine Or.inl ⟨accumulator, ?_, modified⟩
      rw [recorded _ recording]
      exact accesses.trans (List.append_nil _)

end

/-- An operand is found by the arithmetic on the state before the step. A load, a store or an
instruction that writes its operand back then accesses the cell so found and no other, whatever
else the cell is to the instruction. -/
theorem operands_are_found_by_arithmetic [ExtensionHandler H] :
    (∀ (wraps : Bool) (mode : Mode) (processor : Processor FlatMemory),
      Processor.resolve wraps mode processor =
        (processor.bus.operandAt wraps processor.registers.pc.toNat processor.registers.x.toNat
            processor.registers.y.toNat mode,
          ⟨{ processor.registers with
              pc := UInt16.ofNat (processor.registers.pc.toNat + mode.operandBytes) },
            processor.bus⟩)) ∧
    ∀ (session : Session FlatMemory H O) (mnemonic : Mnemonic), session.Performs mnemonic →
      session.WorksOnOperand mnemonic.operation := by
  refine ⟨Processor.resolve_on_flat, ?_⟩
  intro session mnemonic performs
  cases shape : mnemonic.operation with
  | load effect => exact load_works_on_operand performs shape
  | store value => exact store_works_on_operand performs shape
  | modify effect => exact modify_works_on_operand performs shape
  | _ => trivial

/-- The high byte of the pointer, which wraps around page zero, is the operand byte, and the sum
with the index wraps around the memory to this very cell. -/
theorem store_over_own_pointer :
    let memory := FlatMemory.ofFn fun address =>
      if address = 0xFFFF then 0x91 else if address = 0x0000 then 0xFF
      else if address = 0x00FF then 0xFE else 0x00
    let session : Session FlatMemory Empty Empty :=
      (performAll [.setA 0x42, .setY 0x02] (start memory 0xFFFF {})).2
    session.Performs .sta ∧ session.effectiveAddress = some 0x0000 ∧
      session.accesses = [.read 0xFFFF 0x91, .read 0x0000 0xFF, .read 0x00FF 0xFE,
        .read 0x0000 0xFF, .write 0x0000 0x42] ∧
      (step session).2.bus = memory.set 0x0000 0x42 := by
  intro memory session
  have opcode : memory.get 0xFFFF = 0x91 := FlatMemory.get_of_fn _ 0xFFFF
  have high : memory.get 0x0000 = 0xFF := FlatMemory.get_of_fn _ 0x0000
  have low : memory.get 0x00FF = 0xFE := FlatMemory.get_of_fn _ 0x00FF
  have running : session.halted = none := rfl
  have untraced : session.tracing = false := rfl
  have pointers : session.config.pointerWraps = false := rfl
  have registers : session.registers = { Registers.start 0xFFFF with a := 0x42, y := 0x02 } := rfl
  have bus : session.bus = memory := rfl
  clear_value session memory
  have decoded : session.instruction = .official .sta .indirectY := by
    rw [instruction_on_flat, registers, bus]
    change Instruction.decode (memory.get 0xFFFF) = _
    rw [opcode, Instruction.decode_official_iff]
    decide +kernel
  have performs : session.Performs .sta := ⟨running, .indirectY, decoded⟩
  have following : session.registers.pc + 1 = 0x0000 := by
    rw [registers]
    decide
  have y : session.registers.y = 0x02 := by rw [registers]
  have pointer : Word.ofBytes 0xFE 0xFF = 0xFFFE := by decide
  have wrapped : (0xFFFE : Word) + 2 = 0x0000 := by decide
  have address : session.effectiveAddress = some 0x0000 := by
    rw [effectiveAddress, ← operand_eq_computed, operand, operandFound, decoded, fetched_on_flat,
      bus]
    change some (Word.ofBytes
      (memory.get (Word.zeroPage (memory.get (session.registers.pc + 1))))
      (memory.get (Word.zeroPage (memory.get (session.registers.pc + 1) + 1))) +
        session.registers.y.toUInt16) = some 0x0000
    rw [following, y, high]
    change some (Word.ofBytes (memory.get 0x00FF) (memory.get 0x0000) + 2) = some 0x0000
    rw [low, high, pointer, wrapped]
  have finding : session.findingReads =
      [.read 0xFFFF 0x91, .read 0x0000 0xFF, .read 0x00FF 0xFE, .read 0x0000 0xFF] := by
    rw [findingReads, decoded, registers, bus, pointers, untraced]
    change memory.reads [0xFFFF, 0x0000, Word.zeroPage (memory.get 0x0000),
      Word.zeroPage (memory.get 0x0000 + 1)] = _
    rw [high]
    change [Access.read 0xFFFF (memory.get 0xFFFF), .read 0x0000 (memory.get 0x0000),
      .read 0x00FF (memory.get 0x00FF), .read 0x0000 (memory.get 0x0000)] = _
    rw [opcode, high, low]
  obtain ⟨cell, effective, accesses, stored⟩ :=
    operands_are_found_by_arithmetic.2 session .sta performs
  have same : cell = 0x0000 := Option.some.inj (effective.symm.trans address)
  rw [finding, same, registers] at accesses
  rw [same, registers, bus] at stored
  refine ⟨performs, address, accesses, ?_⟩
  rw [Session.bus, stored]

end Session

end Nmos6502
