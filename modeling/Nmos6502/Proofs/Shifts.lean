import Nmos6502.Proofs.Arithmetic

/-!
Shifts and rotations of numbers of several bytes. A step moves a bit into its byte and the bit at
the other end out into the carry. Steps to the left that hand the carry on double a number, from its
lowest byte on, and steps to the right halve one, from its highest byte on. Rotations of a single
byte turn the nine bits that the carry and the byte make up.
-/

namespace Nmos6502

open Bytes

namespace Alu

/-- To rotate to the left is to add the byte to itself. -/
theorem rotate_left_to_nat (value : Byte) (flags : Flags) :
    (rotateLeft value flags).1.toNat + 256 * (rotateLeft value flags).2.carry.toNat =
      value.toNat + value.toNat + flags.carry.toNat := by
  have turned : ∀ carry : Bool, ∀ value : Byte,
      (rotateLeft value { carry := carry }).1.toNat +
        256 * (rotateLeft value { carry := carry }).2.carry.toNat =
      value.toNat + value.toNat + carry.toNat := by
    intro carry
    apply byte_of_codes
    revert carry
    decide +kernel
  exact turned flags.carry value

/-- To rotate to the right is to undo a rotation to the left. -/
theorem rotate_right_to_nat (value : Byte) (flags : Flags) :
    value.toNat + 256 * flags.carry.toNat =
      (rotateRight value flags).1.toNat + (rotateRight value flags).1.toNat +
        (rotateRight value flags).2.carry.toNat := by
  have turned : ∀ carry : Bool, ∀ value : Byte,
      value.toNat + 256 * carry.toNat =
        (rotateRight value { carry := carry }).1.toNat +
          (rotateRight value { carry := carry }).1.toNat +
          (rotateRight value { carry := carry }).2.carry.toNat := by
    intro carry
    apply byte_of_codes
    revert carry
    decide +kernel
  exact turned flags.carry value

/-- The carry and the byte, as one number of nine bits. -/
def nineBits (carry : Bool) (byte : Byte) : BitVec 9 := BitVec.cons carry byte.toBitVec

theorem rotate_left_nine_bits (value : Byte) (flags : Flags) :
    nineBits (rotateLeft value flags).2.carry (rotateLeft value flags).1 =
      (nineBits flags.carry value).rotateLeft 1 := by
  have turned : ∀ carry : Bool, ∀ value : Byte,
      nineBits (rotateLeft value { carry := carry }).2.carry
        (rotateLeft value { carry := carry }).1 = (nineBits carry value).rotateLeft 1 := by
    intro carry
    apply byte_of_codes
    revert carry
    decide +kernel
  exact turned flags.carry value

theorem rotate_right_nine_bits (value : Byte) (flags : Flags) :
    (nineBits (rotateRight value flags).2.carry (rotateRight value flags).1).rotateLeft 1 =
      nineBits flags.carry value := by
  have turned : ∀ carry : Bool, ∀ value : Byte,
      (nineBits (rotateRight value { carry := carry }).2.carry
        (rotateRight value { carry := carry }).1).rotateLeft 1 = nineBits carry value := by
    intro carry
    apply byte_of_codes
    revert carry
    decide +kernel
  exact turned flags.carry value

theorem rotate_left_add {width : Nat} (bits : BitVec width) (first second : Nat) :
    (bits.rotateLeft first).rotateLeft second = bits.rotateLeft (first + second) := by
  apply BitVec.eq_of_getMsbD_eq
  intro index below
  rw [BitVec.getMsbD_rotateLeft, BitVec.getMsbD_rotateLeft, BitVec.getMsbD_rotateLeft]
  have inside : (second + index) % width < width := Nat.mod_lt _ (by omega)
  rw [decide_eq_true below, decide_eq_true inside, Bool.true_and, Bool.true_and, Bool.true_and,
    Nat.add_mod_mod, Nat.add_assoc]

/-- Eight more times as many rotations of nine bits bring them back. -/
theorem rotate_left_injective {left right : BitVec 9} {count : Nat}
    (same : left.rotateLeft count = right.rotateLeft count) : left = right := by
  have back (bits : BitVec 9) : (bits.rotateLeft count).rotateLeft (8 * count) = bits := by
    rw [rotate_left_add, ← BitVec.rotateLeft_mod_eq_rotateLeft,
      show (count + 8 * count) % 9 = 0 by omega]
    apply BitVec.eq_of_getMsbD_eq
    intro index below
    rw [BitVec.getMsbD_rotateLeft, decide_eq_true below, Bool.true_and, Nat.zero_add,
      Nat.mod_eq_of_lt below]
  rw [← back left, same, back]

/-- A shift is a rotation that a cleared carry goes into. -/
theorem shift_left_eq_rotate (value : Byte) (flags : Flags) :
    shiftLeft value flags = rotateLeft value { flags with carry := false } := by
  have result : value <<< 1 ||| false.toUInt8 = value <<< 1 := UInt8.or_zero
  rw [shiftLeft, rotateLeft, result]

theorem shift_right_eq_rotate (value : Byte) (flags : Flags) :
    shiftRight value flags = rotateRight value { flags with carry := false } := by
  have result : value >>> 1 ||| false.toUInt8 <<< 7 = value >>> 1 := UInt8.or_zero
  rw [shiftRight, rotateRight, result]

end Alu

namespace Mnemonic

/-- The instructions that shift or rotate a byte. -/
def shifts : Mnemonic → Bool
  | .asl | .lsr | .rol | .ror => true
  | _ => false

/-- They write a byte back, and change no flags but the carry and those that tell of the byte. -/
theorem shift_effect {mnemonic : Mnemonic} (shifts : mnemonic.shifts = true) :
    ∃ effect, mnemonic.operation = .modify effect ∧
      ∀ value flags, (effect value flags).2 =
        { flags with carry := (effect value flags).2.carry }.setNZ (effect value flags).1 := by
  cases mnemonic with
  | asl => exact ⟨Alu.shiftLeft, rfl, fun _ _ => rfl⟩
  | lsr => exact ⟨Alu.shiftRight, rfl, fun _ _ => rfl⟩
  | rol => exact ⟨Alu.rotateLeft, rfl, fun _ _ => rfl⟩
  | ror => exact ⟨Alu.rotateRight, rfl, fun _ _ => rfl⟩
  | _ => cases shifts

theorem shift_reads_operand {mnemonic : Mnemonic} (shifts : mnemonic.shifts = true) :
    mnemonic.operation.readsOperand = true := by
  obtain ⟨effect, modifies, -⟩ := shift_effect shifts
  rw [modifies, Operation.readsOperand]

end Mnemonic

namespace Processor

variable {M : Type} [Bus M] (value : Byte) (processor : Processor M)

theorem write_operand_flags (operand : Operand) :
    (writeOperand operand value processor).2.registers.flags = processor.registers.flags := by
  cases operand <;> rfl

theorem write_accumulator :
    (writeOperand .accumulator value processor).2 =
      ⟨{ processor.registers with a := value }, processor.bus⟩ := rfl

theorem write_cell (address : Word) :
    (writeOperand (.cell address) value processor).2 =
      ⟨processor.registers, (Bus.write address value processor.bus).2⟩ := rfl

end Processor

namespace Bytes

/-- The top bit goes out of a number that is doubled. -/
theorem double_of_sum {x z : List Byte} {carryIn carryOut : Bool} (some : x ≠ [])
    (length : z.length = x.length)
    (sum : value z + 256 ^ x.length * carryOut.toNat = value x + value x + carryIn.toNat) :
    value z = (2 * value x + carryIn.toNat) % 256 ^ x.length ∧ carryOut = topBit x := by
  have bound := value_lt z
  have halves := space_eq_halves (List.length_pos_of_ne_nil some)
  have top := top_bit_iff some
  have carryBound := Bool.toNat_le carryIn
  rw [length] at bound
  rw [show 2 * value x + carryIn.toNat = value z + 256 ^ x.length * carryOut.toNat by omega,
    Nat.add_mul_mod_self_left, Nat.mod_eq_of_lt bound]
  refine ⟨rfl, Bool.eq_iff_iff.mpr ?_⟩
  rw [top]
  cases carryOut with
  | false =>
      rw [Bool.toNat_false, Nat.mul_zero] at sum
      simp only [Bool.false_eq_true, false_iff]
      omega
  | true =>
      rw [Bool.toNat_true, Nat.mul_one] at sum
      simp only [true_iff]
      omega

/-- The lowest bit goes out of a number that is halved. -/
theorem half_of_sum {x z : List Byte} {carryIn carryOut : Bool} (some : x ≠ [])
    (sum : value x + 256 ^ x.length * carryIn.toNat = value z + value z + carryOut.toNat) :
    value z = value x / 2 + carryIn.toNat * 2 ^ (8 * x.length - 1) ∧
      carryOut.toNat = value x % 2 := by
  have carryBound := Bool.toNat_le carryOut
  rw [space_eq_halves (List.length_pos_of_ne_nil some), Nat.mul_assoc,
    Nat.mul_comm _ carryIn.toNat] at sum
  generalize carryIn.toNat * 2 ^ (8 * x.length - 1) = half at sum ⊢
  omega

end Bytes

/-- The byte that the operation writes back, if it changes its operand. -/
def Operation.written (value : Byte) (flags : Flags) : Operation → Byte
  | .modify effect => (effect value flags).1
  | _ => value

def Instruction.written (value : Byte) (flags : Flags) : Instruction → Byte
  | .official mnemonic _ => mnemonic.operation.written value flags
  | .extension | .illegal => value

namespace Session

variable {M H O : Type} [Bus M] [TraceObserver O]

def written (session : Session M H O) : Byte :=
  session.instruction.written session.operandByte session.registers.flags

theorem written_of_modify {session : Session M H O} {mnemonic : Mnemonic}
    {effect : Byte → Flags → Byte × Flags} (executes : session.executes mnemonic)
    (modifies : mnemonic.operation = .modify effect) :
    session.written = (effect session.operandByte session.registers.flags).1 := by
  obtain ⟨mode, decoded⟩ := executes
  rw [written, decoded, Instruction.written, modifies, Operation.written]

/-- The step leaves the byte where its operand was. If that is the accumulator, nothing is written
to memory, and if it is a cell, the accumulator stays as it was. -/
inductive Leaves [ExtensionHandler H] (session : Session M H O) (byte : Byte) : Prop where
  | accumulator (form : session.instruction.mode = .accumulator)
      (a : (step session).2.registers.a = byte)
      (memory : (step session).2.bus = session.fetched.bus)
  | cell (form : session.instruction.mode ≠ .accumulator) (address : Word)
      (operand : session.operand = .cell address)
      (a : (step session).2.registers.a = session.registers.a)
      (memory : (step session).2.bus = (Bus.write address byte session.operandRead.2.bus).2)

variable [ExtensionHandler H]

section

variable {session : Session M H O} {mnemonic : Mnemonic}

theorem flags_of_modify {effect : Byte → Flags → Byte × Flags}
    (performs : session.Performs mnemonic) (modifies : mnemonic.operation = .modify effect) :
    (step session).2.registers.flags =
      (effect session.operandByte session.registers.flags).2 := by
  have processor := step_of_modify performs modifies
  generalize session.operandByte = operand at processor ⊢
  rw [registers, processor, Processor.write_operand_flags]

theorem modify_leaves {effect : Byte → Flags → Byte × Flags} (performs : session.Performs mnemonic)
    (modifies : mnemonic.operation = .modify effect) : session.Leaves session.written := by
  have processor := step_of_modify performs modifies
  dsimp only at processor
  rw [← written_of_modify performs.executes modifies] at processor
  obtain ⟨-, mode, decoded⟩ := performs
  have writable := Instruction.writable_of_decoded decoded
  rw [modifies, Operation.writable, Bool.or_eq_true, beq_iff_eq] at writable
  have decodedMode : session.instruction.mode = mode := by rw [decoded, Instruction.mode]
  cases writable with
  | inl finds =>
      obtain ⟨address, operand⟩ := operand_cell decoded finds
      rw [operand, Operand.modified_of_cell, Processor.write_cell] at processor
      have form : session.instruction.mode ≠ .accumulator := by
        rw [decodedMode]
        rintro rfl
        cases finds
      apply Leaves.cell form address operand
      · rw [registers, processor]
      · rw [bus, processor]
  | inr form =>
      subst form
      obtain ⟨operand, -, read⟩ := accumulator_operand decoded
      rw [operand, Operand.modified_of_accumulator, Processor.write_accumulator] at processor
      apply Leaves.accumulator decodedMode
      · rw [registers, processor]
      · rw [bus, processor]
        dsimp only
        exact read

theorem shift_leaves (performs : session.Performs mnemonic) (shifts : mnemonic.shifts = true) :
    session.Leaves session.written := by
  obtain ⟨effect, modifies, -⟩ := Mnemonic.shift_effect shifts
  exact modify_leaves performs modifies

/-- What a step to the left makes of its byte and the bit that goes in. -/
def MovesLeft (session : Session M H O) (bit : Bool) : Prop :=
  session.written.toNat + 256 * (step session).2.registers.flags.carry.toNat =
    session.operandByte.toNat + session.operandByte.toNat + bit.toNat

/-- What a step to the right makes of its byte and the bit that goes in. -/
def MovesRight (session : Session M H O) (bit : Bool) : Prop :=
  session.operandByte.toNat + 256 * bit.toNat =
    session.written.toNat + session.written.toNat +
      (step session).2.registers.flags.carry.toNat

theorem rol_moves (performs : session.Performs .rol) :
    session.MovesLeft session.registers.flags.carry := by
  rw [MovesLeft, flags_of_modify performs rfl, written_of_modify performs.executes rfl]
  exact Alu.rotate_left_to_nat session.operandByte session.registers.flags

theorem asl_moves (performs : session.Performs .asl) : session.MovesLeft false := by
  rw [MovesLeft, flags_of_modify performs rfl, written_of_modify performs.executes rfl,
    Alu.shift_left_eq_rotate]
  exact Alu.rotate_left_to_nat session.operandByte { session.registers.flags with carry := false }

theorem ror_moves (performs : session.Performs .ror) :
    session.MovesRight session.registers.flags.carry := by
  rw [MovesRight, flags_of_modify performs rfl, written_of_modify performs.executes rfl]
  exact Alu.rotate_right_to_nat session.operandByte session.registers.flags

theorem lsr_moves (performs : session.Performs .lsr) : session.MovesRight false := by
  rw [MovesRight, flags_of_modify performs rfl, written_of_modify performs.executes rfl,
    Alu.shift_right_eq_rotate]
  exact Alu.rotate_right_to_nat session.operandByte { session.registers.flags with carry := false }

end

section

variable {first : Session M H O} {rest : List (Session M H O)} {bit : Bool}

/-- To move the byte to the left adds it to itself. -/
def leftColumn (session : Session M H O) (bit : Bool) : Column :=
  .ofSum session.operandByte session.operandByte bit

/-- To move the byte to the right takes the addition of the other byte to itself back, so that the
carries go the other way. -/
def rightColumn (session : Session M H O) : Column :=
  .ofSum session.written session.written (step session).2.registers.flags.carry

omit [ExtensionHandler H] in
theorem left_column_operands (session : Session M H O) (bit : Bool) :
    (session.leftColumn bit).left = session.operandByte ∧
      (session.leftColumn bit).right = session.operandByte ∧
      (session.leftColumn bit).carryIn = bit :=
  Column.of_sum_operands session.operandByte session.operandByte bit

theorem left_column_results {session : Session M H O} {bit : Bool}
    (moves : session.MovesLeft bit) :
    (session.leftColumn bit).result = session.written ∧
      (session.leftColumn bit).carryOut = (step session).2.registers.flags.carry :=
  Column.of_sum_results moves

theorem right_column_operands (session : Session M H O) :
    session.rightColumn.left = session.written ∧ session.rightColumn.right = session.written ∧
      session.rightColumn.carryIn = (step session).2.registers.flags.carry :=
  Column.of_sum_operands session.written session.written (step session).2.registers.flags.carry

theorem right_column_results {session : Session M H O} {bit : Bool}
    (moves : session.MovesRight bit) :
    session.rightColumn.result = session.operandByte ∧ session.rightColumn.carryOut = bit :=
  Column.of_sum_results moves

omit [Bus M] [TraceObserver O] [ExtensionHandler H] in
theorem map_led {Item Value : Type} {lead : Item} {item : Session M H O → Item}
    {field : Item → Value} {value : Session M H O → Value} (leads : field lead = value first)
    (follows : ∀ start ∈ rest, field (item start) = value start) :
    (lead :: rest.map item).map field = (first :: rest).map value := by
  rw [List.map_cons, List.map_cons, leads, List.map_map]
  exact congrArg _ (List.map_congr_left follows)

omit [Bus M] [TraceObserver O] [ExtensionHandler H] in
theorem last_of_maps {Item Value : Type} {items : List Item} {starts : List (Session M H O)}
    {field : Item → Value} {value : Session M H O → Value}
    (maps : items.map field = starts.map value) (someItems : items ≠ []) (some : starts ≠ []) :
    field (items.getLast someItems) = value (starts.getLast some) := by
  have last := congrArg List.getLast? maps
  rw [List.getLast?_map, List.getLast?_map, List.getLast?_eq_some_getLast someItems,
    List.getLast?_eq_some_getLast some] at last
  exact Option.some_inj.mp last

/-- Steps to the left from the lowest byte on double the number. -/
theorem left_chain (linked : (first :: rest).IsChain HandsOnCarry) (leads : first.MovesLeft bit)
    (follows : ∀ start ∈ rest, start.MovesLeft start.registers.flags.carry) :
    let starts := first :: rest
    let x := starts.map operandByte
    let out := (step (starts.getLast (List.cons_ne_nil _ _))).2.registers.flags.carry
    value (starts.map written) = (2 * value x + bit.toNat) % 256 ^ starts.length ∧
      out = topBit x := by
  intro starts x out
  let column (start : Session M H O) := start.leftColumn start.registers.flags.carry
  let columns := first.leftColumn bit :: rest.map column
  have some : columns ≠ [] := List.cons_ne_nil _ _
  have results (start : Session M H O) (member : start ∈ rest) :=
    left_column_results (follows start member)
  have leadResults := left_column_results leads
  have fed : columns.IsChain Column.Feeds := by
    apply linked_map linked leadResults.2.symm
    intro start member
    exact ⟨(left_column_operands start _).2.2, (results start member).2.symm⟩
  have lefts : columns.map Column.left = x :=
    map_led (left_column_operands first bit).1 fun start _ => (left_column_operands start _).1
  have rights : columns.map Column.right = x :=
    map_led (left_column_operands first bit).2.1 fun start _ => (left_column_operands start _).2.1
  have bytes : columns.map Column.result = starts.map written :=
    map_led leadResults.1 fun start member => (results start member).1
  have carries : columns.map Column.carryOut =
      starts.map fun start => (step start).2.registers.flags.carry :=
    map_led leadResults.2 fun start member => (results start member).2
  have last : (columns.getLast some).carryOut = out := last_of_maps carries some _
  have carryIn : (columns.head some).carryIn = bit := (left_column_operands first bit).2.2
  have sum := Column.columns_add some fed
  have length : columns.length = x.length := by rw [← lefts, List.length_map]
  rw [lefts, rights, bytes, last, length, carryIn] at sum
  have bytesLength : (starts.map written).length = x.length := by
    rw [List.length_map, List.length_map]
  have startsLength : x.length = starts.length := List.length_map _
  have someBytes : x ≠ [] := List.cons_ne_nil _ _
  have doubled := double_of_sum someBytes bytesLength sum
  rw [startsLength] at doubled
  exact doubled

/-- Steps to the right from the highest byte on halve the number. -/
theorem right_chain (linked : (first :: rest).IsChain HandsOnCarry) (leads : first.MovesRight bit)
    (follows : ∀ start ∈ rest, start.MovesRight start.registers.flags.carry) :
    let starts := first :: rest
    let x := (starts.map operandByte).reverse
    let out := (step (starts.getLast (List.cons_ne_nil _ _))).2.registers.flags.carry
    value (starts.map written).reverse =
        value x / 2 + bit.toNat * 2 ^ (8 * starts.length - 1) ∧
      out.toNat = value x % 2 := by
  intro starts x out
  let columns := first.rightColumn :: rest.map rightColumn
  have some : columns ≠ [] := List.cons_ne_nil _ _
  have results (start : Session M H O) (member : start ∈ rest) :=
    right_column_results (follows start member)
  have leadResults := right_column_results leads
  -- The carry that a step leaves goes into the column of the lower byte, which comes next.
  have fedBack : columns.IsChain fun high low => low.carryOut = high.carryIn := by
    apply linked_map linked (right_column_operands first).2.2.symm
    intro start member
    exact ⟨(results start member).2, (right_column_operands start).2.2.symm⟩
  have fed : columns.reverse.IsChain Column.Feeds := by
    rw [List.isChain_reverse]
    exact fedBack.imp fun high low same => same.symm
  have lefts : columns.map Column.left = starts.map written :=
    map_led (right_column_operands first).1 fun start _ => (right_column_operands start).1
  have rights : columns.map Column.right = starts.map written :=
    map_led (right_column_operands first).2.1 fun start _ => (right_column_operands start).2.1
  have bytes : columns.map Column.result = starts.map operandByte :=
    map_led leadResults.1 fun start member => (results start member).1
  have carries : columns.map Column.carryIn =
      starts.map fun start => (step start).2.registers.flags.carry :=
    map_led (right_column_operands first).2.2 fun start _ => (right_column_operands start).2.2
  have someReverse : columns.reverse ≠ [] := mt List.reverse_eq_nil_iff.mp some
  have lowest : (columns.reverse.head someReverse).carryIn = out := by
    rw [List.head_reverse]
    exact last_of_maps carries some _
  have highest : (columns.reverse.getLast someReverse).carryOut = bit := by
    rw [List.getLast_reverse]
    exact leadResults.2
  have sum := Column.columns_add someReverse fed
  have length : columns.reverse.length = x.length := by
    rw [List.length_reverse, List.length_reverse, ← bytes, List.length_map]
  have startsLength : x.length = starts.length := by
    rw [List.length_reverse, List.length_map]
  rw [List.map_reverse, List.map_reverse, List.map_reverse, lefts, rights, bytes, lowest, highest,
    length] at sum
  have someBytes : x ≠ [] := List.ne_nil_of_length_pos (startsLength ▸ List.length_pos_of_ne_nil
    (List.cons_ne_nil first rest))
  have halved := half_of_sum someBytes sum
  rw [startsLength] at halved
  exact halved

omit [ExtensionHandler H] in
/-- The nine bits of the carry and the operand before the step. -/
def nineBitsBefore (session : Session M H O) : BitVec 9 :=
  Alu.nineBits session.registers.flags.carry session.operandByte

/-- The nine bits that the step leaves. -/
def nineBitsAfter (session : Session M H O) : BitVec 9 :=
  Alu.nineBits (step session).2.registers.flags.carry session.written

omit [ExtensionHandler H] in
/-- The one step works on the byte that the other one has left. -/
def HandsOnByte (before next : Session M H O) : Prop := next.operandByte = before.written

/-- After a step on plain memory, what it has written is at its operand. -/
theorem written_at_operand {H O : Type} [ExtensionHandler H] [TraceObserver O]
    {session : Session FlatMemory H O} {mnemonic : Mnemonic} (performs : session.Performs mnemonic)
    (shifts : mnemonic.shifts = true) :
    session.computedOperand.byteIn (step session).2.registers.a (step session).2.bus =
      session.written := by
  obtain ⟨effect, modifies, -⟩ := Mnemonic.shift_effect shifts
  have written := written_of_modify performs.executes modifies
  rw [operand_byte_on_flat] at written
  rw [registers, bus]
  obtain ⟨operand, -, left⟩ | ⟨address, found, -, left⟩ := modify_works_on_operand performs modifies
  · rw [operand, left, written, Operand.byteIn]
  · rw [Operand.eq_cell found, left, written, Operand.byteIn, FlatMemory.get_set_same]

/-- A step hands its byte on to the next one that finds the same operand, if nothing is written
there in between. -/
theorem hands_on_byte_of_same_operand {H O : Type} [ExtensionHandler H] [TraceObserver O]
    {before next : Session FlatMemory H O} {mnemonic : Mnemonic}
    (performs : before.Performs mnemonic) (shifts : mnemonic.shifts = true)
    (again : next.computedOperand = before.computedOperand)
    (kept : before.computedOperand.byteIn next.registers.a next.bus =
      before.computedOperand.byteIn (step before).2.registers.a (step before).2.bus) :
    before.HandsOnByte next := by
  rw [HandsOnByte, operand_byte_on_flat, operandValue, again, kept]
  exact written_at_operand performs shifts

theorem nine_bits_handed_on {before next : Session M H O} (carry : before.HandsOnCarry next)
    (byte : before.HandsOnByte next) : next.nineBitsBefore = before.nineBitsAfter := by
  rw [nineBitsBefore, carry, byte, nineBitsAfter]

theorem rol_rotates {session : Session M H O} (performs : session.Performs .rol) :
    session.nineBitsAfter = session.nineBitsBefore.rotateLeft 1 := by
  rw [nineBitsAfter, flags_of_modify performs rfl, written_of_modify performs.executes rfl,
    Alu.rotate_left_nine_bits, nineBitsBefore]

theorem ror_rotates {session : Session M H O} (performs : session.Performs .ror) :
    session.nineBitsAfter.rotateLeft 1 = session.nineBitsBefore := by
  rw [nineBitsAfter, flags_of_modify performs rfl, written_of_modify performs.executes rfl,
    Alu.rotate_right_nine_bits, nineBitsBefore]

theorem rol_chain (linked : (first :: rest).IsChain HandsOnCarry)
    (same : (first :: rest).IsChain HandsOnByte)
    (rotate : ∀ start ∈ first :: rest, start.Performs .rol) :
    ((first :: rest).getLast (List.cons_ne_nil _ _)).nineBitsAfter =
      first.nineBitsBefore.rotateLeft (first :: rest).length := by
  induction rest generalizing first with
  | nil => exact rol_rotates (rotate first List.mem_cons_self)
  | cons next later induction =>
      have carry := (List.isChain_cons_cons.mp linked).1
      have byte := (List.isChain_cons_cons.mp same).1
      have turned := rol_rotates (rotate first List.mem_cons_self)
      have others := induction linked.tail same.tail fun start member =>
        rotate start (List.mem_cons_of_mem first member)
      have length : (first :: next :: later).length = 1 + (next :: later).length := Nat.add_comm _ _
      rw [List.getLast_cons (List.cons_ne_nil next later), others, nine_bits_handed_on carry byte,
        turned, Alu.rotate_left_add, length]

theorem ror_chain (linked : (first :: rest).IsChain HandsOnCarry)
    (same : (first :: rest).IsChain HandsOnByte)
    (rotate : ∀ start ∈ first :: rest, start.Performs .ror) :
    ((first :: rest).getLast (List.cons_ne_nil _ _)).nineBitsAfter.rotateLeft
      (first :: rest).length = first.nineBitsBefore := by
  induction rest generalizing first with
  | nil => exact ror_rotates (rotate first List.mem_cons_self)
  | cons next later induction =>
      have carry := (List.isChain_cons_cons.mp linked).1
      have byte := (List.isChain_cons_cons.mp same).1
      have turned := ror_rotates (rotate first List.mem_cons_self)
      have others := induction linked.tail same.tail fun start member =>
        rotate start (List.mem_cons_of_mem first member)
      rw [List.getLast_cons (List.cons_ne_nil next later), List.length_cons,
        ← Alu.rotate_left_add, others, nine_bits_handed_on carry byte, turned]

/-- As many rotations to the right bring back the nine bits from before those to the left. -/
theorem ror_chain_undoes {back : Session M H O} {later : List (Session M H O)}
    (linked : (first :: rest ++ back :: later).IsChain HandsOnCarry)
    (same : (first :: rest ++ back :: later).IsChain HandsOnByte)
    (rotate : ∀ start ∈ first :: rest, start.Performs .rol)
    (rotateBack : ∀ start ∈ back :: later, start.Performs .ror)
    (asMany : (back :: later).length = (first :: rest).length) :
    ((back :: later).getLast (List.cons_ne_nil _ _)).nineBitsAfter = first.nineBitsBefore := by
  obtain ⟨linkedStarts, linkedLater, carries⟩ := List.isChain_append.mp linked
  obtain ⟨sameStarts, sameLater, bytes⟩ := List.isChain_append.mp same
  have turned := rol_chain linkedStarts sameStarts rotate
  have turnedBack := ror_chain linkedLater sameLater rotateBack
  let last := (first :: rest).getLast (List.cons_ne_nil _ _)
  have lastMember : last ∈ (first :: rest).getLast? := List.getLast?_eq_some_getLast _
  have handedOn : back.nineBitsBefore = last.nineBitsAfter :=
    nine_bits_handed_on (carries last lastMember back rfl) (bytes last lastMember back rfl)
  rw [handedOn, turned, asMany] at turnedBack
  exact Alu.rotate_left_injective turnedBack

end

theorem step_of_shift {session : Session M H O} {mnemonic : Mnemonic}
    (performs : session.Performs mnemonic) (shifts : mnemonic.shifts = true) :
    (step session).2.registers.flags =
      { session.registers.flags with
        carry := (step session).2.registers.flags.carry }.setNZ session.written := by
  obtain ⟨effect, modifies, changes⟩ := Mnemonic.shift_effect shifts
  have flags := flags_of_modify performs modifies
  have written := written_of_modify performs.executes modifies
  have shaped := changes session.operandByte session.registers.flags
  rw [← flags, ← written] at shaped
  exact shaped

/-- Rotations to the left that hand the carry on, from the lowest byte to the highest, double a
number of any length, and C is the bit that goes out; where the lowest byte is shifted, nothing
goes in. Rotations to the right, from the highest byte to the lowest, halve it. Rotations of one
byte turn the nine bits that it makes up with C, and as many in the other direction bring them back.
Each step sets N and Z by the byte that it leaves at its operand, and nothing else. The byte that it
finds there is what the bus answers, and in plain memory it is where the mode computes it to be. -/
theorem shifts_and_rotations_chain (starts : List (Session M H O)) (some : starts ≠ [])
    (linked : starts.IsChain HandsOnCarry) :
    let first := starts.head some
    let last := starts.getLast some
    let length := starts.length
    let x := starts.map operandByte
    let z := starts.map written
    let carry := first.registers.flags.carry
    let out := (step last).2.registers.flags.carry
    ((∀ start ∈ starts, start.Performs .rol) →
      value z = (2 * value x + carry.toNat) % 256 ^ length ∧ out = topBit x) ∧
    (first.Performs .asl → (∀ start ∈ starts.tail, start.Performs .rol) →
      value z = 2 * value x % 256 ^ length ∧ out = topBit x) ∧
    ((∀ start ∈ starts, start.Performs .ror) →
      value z.reverse = value x.reverse / 2 + carry.toNat * 2 ^ (8 * length - 1) ∧
        out.toNat = value x.reverse % 2) ∧
    (first.Performs .lsr → (∀ start ∈ starts.tail, start.Performs .ror) →
      value z.reverse = value x.reverse / 2 ∧ out.toNat = value x.reverse % 2) ∧
    (starts.IsChain HandsOnByte → (∀ start ∈ starts, start.Performs .rol) →
      last.nineBitsAfter = first.nineBitsBefore.rotateLeft (length % 9) ∧
        ∀ (backs : List (Session M H O)) (someBacks : backs ≠ []), backs.length = length →
          (starts ++ backs).IsChain HandsOnCarry → (starts ++ backs).IsChain HandsOnByte →
          (∀ back ∈ backs, back.Performs .ror) →
          (backs.getLast someBacks).nineBitsAfter = first.nineBitsBefore) ∧
    (∀ start ∈ starts, ∀ mnemonic : Mnemonic, mnemonic.shifts = true → start.Performs mnemonic →
      let before := start.registers.flags
      let after := (step start).2.registers.flags
      after.negative = (start.written &&& 0x80 != 0) ∧ after.zero = (start.written == 0) ∧
        after.overflow = before.overflow ∧ after.decimal = before.decimal ∧
        after.interruptDisable = before.interruptDisable ∧ start.Leaves start.written ∧
        (Bus.Quiet M → start.instruction.mode = .accumulator →
          (step start).2.bus = start.bus) ∧
        start.OperandAnswered) ∧
    ∀ flat : Session FlatMemory H O, flat.operandByte = flat.operandValue := by
  cases starts with
  | nil => exact absurd rfl some
  | cons first rest =>
      intro _ last length x z carry out
      refine ⟨?rol, ?asl, ?ror, ?lsr, ?rotations, ?steps, operand_byte_on_flat⟩
      case rol =>
        intro rotate
        exact left_chain linked (rol_moves (rotate first List.mem_cons_self)) fun start member =>
          rol_moves (rotate start (List.mem_cons_of_mem first member))
      case asl =>
        intro shift rotate
        exact left_chain linked (asl_moves shift) fun start member =>
          rol_moves (rotate start member)
      case ror =>
        intro rotate
        exact right_chain linked (ror_moves (rotate first List.mem_cons_self)) fun start member =>
          ror_moves (rotate start (List.mem_cons_of_mem first member))
      case lsr =>
        intro shift rotate
        obtain ⟨half, lowest⟩ := right_chain linked (lsr_moves shift) fun start member =>
          ror_moves (rotate start member)
        rw [Bool.toNat_false, Nat.zero_mul, Nat.add_zero] at half
        exact ⟨half, lowest⟩
      case rotations =>
        intro same rotate
        have turned := rol_chain linked same rotate
        refine ⟨turned.trans BitVec.rotateLeft_mod_eq_rotateLeft.symm, ?_⟩
        intro backs someBacks asMany linkedBacks sameBacks rotateBack
        cases backs with
        | nil => exact absurd rfl someBacks
        | cons back later => exact ror_chain_undoes linkedBacks sameBacks rotate rotateBack asMany
      case steps =>
        intro start member mnemonic shifts performs before after
        have flags : after = _ := step_of_shift performs shifts
        have leaves := shift_leaves performs shifts
        have quiet : Bus.Quiet M → start.instruction.mode = .accumulator →
            (step start).2.bus = start.bus := by
          intro quiet form
          cases leaves with
          | accumulator _ _ memory => exact memory.trans (fetched_bus_of_quiet quiet start)
          | cell other => exact absurd form other
        have answered := operand_answered performs (Mnemonic.shift_reads_operand shifts)
        rw [flags]
        exact ⟨rfl, rfl, rfl, rfl, rfl, leaves, quiet, answered⟩

/-- `$80C1` is shifted, with its low byte in memory, and then the rotation of the high byte is taken
back. -/
theorem shift_of_two_bytes :
    let idle : Session FlatMemory Empty Empty :=
      (performAll [.write 0x0010 0xC1] (start .blank 0x0600 {})).2
    let low := idle.prepared 0x06 0x10 0x55
    let high := (step low).2.prepared 0x2A 0x00 0x80
    let back := (step high).2.prepared 0x6A 0x00 (step high).2.registers.a
    [low, high].IsChain HandsOnCarry ∧ low.Performs .asl ∧ high.Performs .rol ∧
      low.OperandAnswered ∧ low.operandValue = 0xC1 ∧
      value ([low, high].map written) = 0x0182 ∧ (step high).2.registers.flags.carry = true ∧
      low.Leaves low.written ∧ high.Leaves high.written ∧
      [high, back].IsChain HandsOnCarry ∧ [high, back].IsChain HandsOnByte ∧ back.Performs .ror ∧
      back.nineBitsAfter = high.nineBitsBefore := by
  intro idle low high back
  have decodes : Instruction.decode 0x06 = .official .asl .zeroPage ∧
      Instruction.decode 0x2A = .official .rol .accumulator ∧
      Instruction.decode 0x6A = .official .ror .accumulator := by
    simp only [Instruction.decode_official_iff]
    decide +kernel
  obtain ⟨asl, rol, ror⟩ := decodes
  have shift : low.Performs .asl := prepared_performs _ _ _ idle rfl asl
  have rotate : high.Performs .rol :=
    prepared_performs _ _ _ (step low).2 (halted_of_performs shift) rol
  have rotateBack : back.Performs .ror :=
    prepared_performs _ _ _ (step high).2 (halted_of_performs rotate) ror
  have cell : low.bus.get (Word.zeroPage 0x10) = 0xC1 :=
    (prepared_cell _ _ _ idle (by decide) (by decide)).trans (FlatMemory.get_set_same _ _ _)
  have lowByte : low.operandByte = 0xC1 := (prepared_zero_page 0x06 0x10 0x55 idle asl).trans cell
  have highByte : high.operandByte = 0x80 := prepared_accumulator _ _ _ (step low).2 rol
  have found : high.computedOperand = .accumulator := by
    rw [computedOperand, prepared_instruction, rol]
    rfl
  have foundAgain : back.computedOperand = .accumulator := by
    rw [computedOperand, prepared_instruction, ror]
    rfl
  have linked : [low, high].IsChain HandsOnCarry :=
    List.isChain_pair.mpr (prepared_hands_on low _ _ _)
  have linkedBack : [high, back].IsChain HandsOnCarry :=
    List.isChain_pair.mpr (prepared_hands_on high _ _ _)
  have a : back.registers.a = (step high).2.registers.a := by
    rw [prepared_registers]
  clear_value low high back
  have handsOn : high.HandsOnByte back := by
    apply hands_on_byte_of_same_operand rotate rfl (foundAgain.trans found.symm)
    rw [found, Operand.byteIn, Operand.byteIn, a]
  have sameByte : [high, back].IsChain HandsOnByte := List.isChain_pair.mpr handsOn
  have x : [low, high].map operandByte = [0xC1, 0x80] := by
    rw [List.map_cons, List.map_singleton, lowByte, highByte]
  have tail : ∀ start ∈ [high], start.Performs .rol := by simpa using rotate
  obtain ⟨-, shifted, -, -, -, steps, computed⟩ :=
    shifts_and_rotations_chain [low, high] (List.cons_ne_nil _ _) linked
  obtain ⟨doubled, out⟩ := shifted shift tail
  have length : [low, high].length = 2 := rfl
  have whole : 2 * value [0xC1, 0x80] % 256 ^ 2 = 0x0182 := by decide
  have top : topBit [0xC1, 0x80] = true := by decide
  rw [x, length, whole] at doubled
  rw [x, top] at out
  obtain ⟨-, -, -, -, -, leavesLow, -, answered⟩ := steps low List.mem_cons_self .asl rfl shift
  obtain ⟨-, -, -, -, rotated, rotation, -⟩ :=
    shifts_and_rotations_chain [high] (List.cons_ne_nil _ _) (List.isChain_singleton high)
  obtain ⟨-, -, -, -, -, leavesHigh, -⟩ := rotation high List.mem_cons_self .rol rfl rotate
  obtain ⟨-, undone⟩ := rotated (List.isChain_singleton high) tail
  have restored := undone [back] (List.cons_ne_nil _ _) rfl linkedBack sameByte
    (by simpa using rotateBack)
  exact ⟨linked, shift, rotate, answered, (computed low).symm.trans lowByte, doubled, out,
    leavesLow, leavesHigh, linkedBack, sameByte, rotateBack, restored⟩

end Session

end Nmos6502
