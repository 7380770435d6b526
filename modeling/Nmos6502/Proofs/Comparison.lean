import Nmos6502.Proofs.Arithmetic

/-!
Comparisons as subtractions. A comparison forms the column of a subtraction that borrows nothing,
whatever the carry is, and keeps the register. So numbers of several bytes are compared by a
comparison of their lowest bytes and a subtraction of the others.
-/

namespace Nmos6502

open Bytes

/-- The registers that can be compared with a byte. -/
inductive Comparison where
  | a
  | x
  | y

namespace Comparison

def mnemonic : Comparison → Mnemonic
  | .a => .cmp
  | .x => .cpx
  | .y => .cpy

def register : Comparison → Registers → Byte
  | .a => Registers.a
  | .x => Registers.x
  | .y => Registers.y

theorem operation_eq (comparison : Comparison) :
    comparison.mnemonic.operation = .load (Operation.compareWith comparison.register) := by
  cases comparison <;> rfl

theorem register_with_pc (comparison : Comparison) (registers : Registers) (address : Word) :
    comparison.register { registers with pc := address } = comparison.register registers := by
  cases comparison <;> rfl

end Comparison

/-- With a carry, the complement makes a difference, and the carry that comes out says that it is
not negative. -/
theorem Column.of_difference (left right : Byte) :
    (ofSum left (~~~right) true).result = left - right ∧
      (ofSum left (~~~right) true).carryOut = decide (left ≥ right) := by
  have leftBound := left.toNat_lt
  have rightBound := right.toNat_lt
  apply of_sum_results
  rw [complement_to_nat, UInt8.toNat_sub, Bool.toNat_true]
  by_cases above : left ≥ right
  · have bytes : right.toNat ≤ left.toNat := UInt8.le_iff_toNat_le.mp above
    rw [decide_eq_true above, Bool.toNat_true]
    omega
  · have bytes : ¬right.toNat ≤ left.toNat := mt UInt8.le_iff_toNat_le.mpr above
    rw [decide_eq_false above, Bool.toNat_false]
    omega

/-- A comparison computes the column of the difference and drops its byte and its overflow. -/
theorem Alu.compare_eq_column (left right : Byte) (flags : Flags) :
    let column := Column.ofSum left (~~~right) true
    compare left right flags =
      { flags with
        carry := column.carryOut
        negative := column.result &&& 0x80 != 0
        zero := column.result == 0 } := by
  intro column
  have result : column.result = left - right := (Column.of_difference left right).1
  have carry : column.carryOut = decide (left ≥ right) := (Column.of_difference left right).2
  rw [compare, result, carry]
  rfl

/-- The difference is zero when the bytes are the same. -/
theorem Column.difference_zero_iff (left right : Byte) :
    ((ofSum left (~~~right) true).result == 0) = true ↔ left = right := by
  have leftBound := left.toNat_lt
  have rightBound := right.toNat_lt
  rw [(of_difference left right).1, beq_iff_eq, ← UInt8.toNat_inj, ← UInt8.toNat_inj,
    UInt8.toNat_sub]
  change _ = 0 ↔ _
  omega

namespace Session

variable {M H O : Type} [Bus M] [TraceObserver O]

/-- The column of a comparison, into which a carry goes whatever the flag is. -/
def comparisonColumn (comparison : Comparison) (session : Session M H O) : Column :=
  .ofSum (comparison.register session.registers) (~~~session.operandByte) true

theorem comparison_column_right (comparison : Comparison) (session : Session M H O) :
    (session.comparisonColumn comparison).right = ~~~session.operandByte :=
  (Column.of_sum_operands _ (~~~session.operandByte) true).2.1

/-- The operands of the columns are the numbers that are compared, the right one complemented. -/
theorem comparison_column_operands (comparison : Comparison) (first : Session M H O)
    (rest : List (Session M H O)) :
    let columns := first.comparisonColumn comparison :: rest.map differenceColumn
    columns.map Column.left =
        comparison.register first.registers :: rest.map (fun start => start.registers.a) ∧
      columns.map Column.right = ((first :: rest).map operandByte).map (~~~·) := by
  constructor
  · rw [List.map_cons, List.map_map]
    rfl
  · rw [List.map_map, List.map_cons, List.map_cons, List.map_map]
    rw [comparison_column_right, List.cons.injEq]
    exact ⟨rfl, List.map_congr_left fun start _ => difference_column_right start⟩

variable [ExtensionHandler H]

theorem registers_of_comparison {session : Session M H O} {comparison : Comparison}
    (compares : session.Performs comparison.mnemonic) :
    let column := session.comparisonColumn comparison
    (step session).2.registers =
      { session.registers with
        pc := session.following
        flags := { session.registers.flags with
          carry := column.carryOut
          negative := column.result &&& 0x80 != 0
          zero := column.result == 0 } } := by
  obtain ⟨registers, -⟩ := step_of_load compares comparison.operation_eq
  rw [comparisonColumn]
  generalize session.operandByte = operand at registers
  generalize session.following = address at registers
  rw [registers, Operation.compareWith, comparison.register_with_pc session.registers address,
    Alu.compare_eq_column]

section

variable {comparison : Comparison} {first : Session M H O} {rest : List (Session M H O)}

theorem comparison_columns_fed (linked : (first :: rest).IsChain HandsOnCarry)
    (compares : first.Performs comparison.mnemonic)
    (subtracts : ∀ start ∈ rest, start.Performs .sbc) :
    (first.comparisonColumn comparison :: rest.map differenceColumn).IsChain Column.Feeds := by
  have carry : (step first).2.registers.flags.carry =
      (first.comparisonColumn comparison).carryOut := by
    rw [registers_of_comparison compares]
  apply linked_map linked carry
  intro start member
  have formed := sbc_forms (subtracts start member)
  exact ⟨formed.carryIn, formed.carry⟩

/-- The flags after the last step are those of the last column. V alone is not, unless there is a
subtraction. -/
theorem comparison_ends_with_column (compares : first.Performs comparison.mnemonic)
    (subtracts : ∀ start ∈ rest, start.Performs .sbc) :
    let columns := first.comparisonColumn comparison :: rest.map differenceColumn
    let last := columns.getLast (List.cons_ne_nil _ _)
    let flags := (step ((first :: rest).getLast (List.cons_ne_nil _ _))).2.registers.flags
    flags.carry = last.carryOut ∧ flags.negative = (last.result &&& 0x80 != 0) ∧
      flags.zero = (last.result == 0) ∧
      (rest ≠ [] → flags.overflow = Alu.overflows last.left last.right last.result) := by
  intro columns last flags
  by_cases alone : rest = []
  · subst alone
    have registers := registers_of_comparison compares
    have compared : flags = _ := congrArg Registers.flags registers
    rw [compared]
    exact ⟨rfl, rfl, rfl, fun some => absurd rfl some⟩
  · have forms := sbc_forms (subtracts _ (List.getLast_mem alone))
    have mapped : rest.map differenceColumn ≠ [] := by simpa using alone
    have column : last = (rest.getLast alone).differenceColumn := by
      rw [← List.getLast_map mapped]
      exact List.getLast_cons mapped
    have lastStart : (first :: rest).getLast (List.cons_ne_nil _ _) = rest.getLast alone :=
      List.getLast_cons alone
    have lastFlags : flags = (step (rest.getLast alone)).2.registers.flags := by
      rw [← lastStart]
    rw [column, lastFlags]
    exact ⟨forms.carry, forms.negative, forms.zero, fun _ => forms.overflow⟩

/-- A subtraction of the same numbers that borrows nothing forms the same columns. -/
theorem comparison_columns_of_subtraction (linked : (first :: rest).IsChain HandsOnCarry)
    (compares : first.Performs comparison.mnemonic)
    (subtracts : ∀ start ∈ rest, start.Performs .sbc) {twins : List (Session M H O)}
    (some : twins ≠ []) (linkedTwins : twins.IsChain HandsOnCarry)
    (subtractTwins : ∀ twin ∈ twins, twin.Performs .sbc)
    (carry : (twins.head some).registers.flags.carry = true)
    (sameLeft : (twins.map fun twin => twin.registers.a) =
      comparison.register first.registers :: rest.map fun start => start.registers.a)
    (sameRight : twins.map operandByte = (first :: rest).map operandByte) :
    first.comparisonColumn comparison :: rest.map differenceColumn =
      twins.map differenceColumn := by
  obtain ⟨lefts, rights⟩ := comparison_column_operands comparison first rest
  have twinLefts : (twins.map differenceColumn).map Column.left =
      twins.map fun twin => twin.registers.a := List.map_map
  have twinRights : (twins.map differenceColumn).map Column.right =
      (twins.map operandByte).map (~~~·) := by
    rw [List.map_map, List.map_map]
    exact List.map_congr_left fun twin _ => difference_column_right twin
  rw [← sameLeft, ← twinLefts] at lefts
  rw [← sameRight, ← twinRights] at rights
  apply Column.columns_ext_operands (comparison_columns_fed linked compares subtracts)
    (columns_fed linkedTwins fun twin member => sbc_forms (subtractTwins twin member)) lefts rights
  intro column member twin twinMember
  rw [List.head?_map, List.head?_eq_some_head some] at twinMember
  cases member
  cases twinMember
  exact carry.symm

end

/-- A comparison of the lowest bytes takes the place of the first of the SBC steps that subtract
numbers of any length without a borrow: C, N and Z end up the same, and if other bytes are left, V
does too and each step after the first leaves the same accumulator. So C says that the
number in the registers is not the smaller one. The bytes of the other number are what the bus
answers at the operands, and in plain memory they are where the modes compute them to be. The
comparison itself changes nothing but the program counter and the flags C, N and Z, and Z says that
its bytes are the same. -/
theorem comparison_starts_subtraction (comparison : Comparison) (first : Session M H O)
    (rest : List (Session M H O)) (compares : first.Performs comparison.mnemonic)
    (subtracts : ∀ start ∈ rest, start.Performs .sbc)
    (linked : (first :: rest).IsChain HandsOnCarry) :
    let x := comparison.register first.registers :: rest.map fun start => start.registers.a
    let y := (first :: rest).map operandByte
    let flags := (step ((first :: rest).getLast (List.cons_ne_nil _ _))).2.registers.flags
    let compared := (step first).2.registers
    (∀ start ∈ first :: rest, start.OperandAnswered) ∧
    (∀ flat : Session FlatMemory H O, flat.operandByte = flat.operandValue) ∧
    (∀ (twins : List (Session M H O)) (some : twins ≠ []),
      twins.IsChain HandsOnCarry → (∀ twin ∈ twins, twin.Performs .sbc) →
      (twins.head some).registers.flags.carry = true →
      (twins.map fun twin => twin.registers.a) = x → twins.map operandByte = y →
      let twinFlags := (step (twins.getLast some)).2.registers.flags
      flags.carry = twinFlags.carry ∧ flags.negative = twinFlags.negative ∧
        flags.zero = twinFlags.zero ∧ (rest ≠ [] → flags.overflow = twinFlags.overflow) ∧
        (rest.map fun start => (step start).2.registers.a) =
          twins.tail.map fun twin => (step twin).2.registers.a) ∧
    (flags.carry = true ↔ value y ≤ value x) ∧
    compared = { first.registers with
      pc := compared.pc
      flags := { first.registers.flags with
        carry := compared.flags.carry
        negative := compared.flags.negative
        zero := compared.flags.zero } } ∧
    (compared.flags.zero = true ↔ comparison.register first.registers = first.operandByte) ∧
    (step first).2.bus = first.operandRead.2.bus ∧
    (Bus.Quiet M → Bus.Bytewise M → (step first).2.bus = first.bus) := by
  intro x y flags compared
  let columns := first.comparisonColumn comparison :: rest.map differenceColumn
  have some : columns ≠ [] := List.cons_ne_nil _ _
  have operands := comparison_column_operands comparison first rest
  have lefts : columns.map Column.left = x := operands.1
  have rights : columns.map Column.right = y.map (~~~·) := operands.2
  have ends := comparison_ends_with_column compares subtracts
  have registers := registers_of_comparison compares
  have bus := (step_of_load compares comparison.operation_eq).2
  refine ⟨?_, operand_byte_on_flat, ?_, ?_, ?_, ?_, bus, ?_⟩
  · rw [List.forall_mem_cons]
    have reads : comparison.mnemonic.operation.readsOperand = true := by
      rw [comparison.operation_eq, Operation.readsOperand]
    exact ⟨operand_answered compares reads, fun start member =>
      operand_answered (subtracts start member) rfl⟩
  · intro twins someTwins linkedTwins subtractTwins carry sameX sameY twinFlags
    have same : columns = twins.map differenceColumn :=
      comparison_columns_of_subtraction linked compares subtracts someTwins linkedTwins
        subtractTwins carry sameX sameY
    have twinForms : ∀ twin ∈ twins, twin.Forms twin.differenceColumn := fun twin member =>
      sbc_forms (subtractTwins twin member)
    have mapped : twins.map differenceColumn ≠ [] := by simpa using someTwins
    have last : columns.getLast some = (twins.getLast someTwins).differenceColumn := by
      rw [← List.getLast_map mapped]
      simp only [same]
    have twinEnds := twinForms _ (List.getLast_mem someTwins)
    obtain ⟨sameCarry, sameNegative, sameZero, sameOverflow⟩ := ends
    rw [show (_ :: rest.map differenceColumn).getLast _ = _ from last]
      at sameCarry sameNegative sameZero sameOverflow
    rw [← twinEnds.carry] at sameCarry
    rw [← twinEnds.negative] at sameNegative
    rw [← twinEnds.zero] at sameZero
    rw [← twinEnds.overflow] at sameOverflow
    refine ⟨sameCarry, sameNegative, sameZero, sameOverflow, ?_⟩
    have rests : rest.map differenceColumn = twins.tail.map differenceColumn := by
      rw [List.map_tail, ← same]
      rfl
    have tailForms : ∀ twin ∈ twins.tail, twin.Forms twin.differenceColumn := fun twin member =>
      twinForms twin (List.mem_of_mem_tail member)
    have restForms : ∀ start ∈ rest, start.Forms start.differenceColumn := fun start member =>
      sbc_forms (subtracts start member)
    rw [results_of_columns restForms, results_of_columns tailForms, rests]
  · have sum := Column.columns_add some (comparison_columns_fed linked compares subtracts)
    have yLength : y.length = columns.length := by
      rw [← List.length_map (~~~·), ← rights, List.length_map]
    have carryIn : (columns.head some).carryIn = true := rfl
    have carry : flags.carry = (columns.getLast some).carryOut := ends.1
    rw [lefts, rights, carryIn, ← carry] at sum
    obtain ⟨-, borrow⟩ := difference_of_sum yLength (List.length_map _) sum
    rw [Bool.toNat_true, Nat.sub_self, Nat.add_zero] at borrow
    exact borrow
  · have after : compared = _ := registers
    generalize first.comparisonColumn comparison = column at after
    generalize first.following = address at after
    rw [after]
  · have after : compared = _ := registers
    rw [after]
    exact Column.difference_zero_iff _ _
  · intro quiet bytewise
    exact bus.trans (operand_read_quiet quiet bytewise first)

/-- `$8000` is compared with `$0001`, whose low byte is in memory. The low bytes borrow, and the
high bytes overflow. -/
theorem comparison_of_two_bytes :
    let idle : Session FlatMemory Empty Empty :=
      (performAll [.write 0x0011 0x01] (start .blank 0x0600 {})).2
    let low := idle.prepared 0xC5 0x11 0x00
    let high := (step low).2.prepared 0xE9 0x00 0x80
    let unborrowed := (performAll [.setFlag .carry true] idle).2
    let lowTwin := unborrowed.prepared 0xE5 0x11 0x00
    let highTwin := (step lowTwin).2.prepared 0xE9 0x00 0x80
    [low, high].IsChain HandsOnCarry ∧ low.Performs .cmp ∧ high.Performs .sbc ∧
      low.OperandAnswered ∧ low.operandValue = 0x01 ∧
      [lowTwin, highTwin].IsChain HandsOnCarry ∧ lowTwin.Performs .sbc ∧ highTwin.Performs .sbc ∧
      (step high).2.registers.flags.carry = true ∧
      (step high).2.registers.a = (step highTwin).2.registers.a ∧
      (step high).2.registers.flags.overflow = (step highTwin).2.registers.flags.overflow ∧
      (step low).2.bus = low.bus := by
  intro idle low high unborrowed lowTwin highTwin
  have decodes : Instruction.decode 0xC5 = .official .cmp .zeroPage ∧
      Instruction.decode 0xE5 = .official .sbc .zeroPage ∧
      Instruction.decode 0xE9 = .official .sbc .immediate := by
    simp only [Instruction.decode_official_iff]
    decide +kernel
  obtain ⟨cmp, sbcCell, sbc⟩ := decodes
  have cell : idle.bus.get (Word.zeroPage 0x11) = 0x01 := FlatMemory.get_set_same _ _ _
  have pair : Pair low high .cmp .sbc [0x00, 0x80] [idle.bus.get (Word.zeroPage 0x11), 0x00] :=
    prepared_pair idle rfl cmp sbc _ _ _ _ (by decide) (by decide)
  have twins : Pair lowTwin highTwin .sbc .sbc [0x00, 0x80]
      [idle.bus.get (Word.zeroPage 0x11), 0x00] :=
    prepared_pair unborrowed rfl sbcCell sbc _ _ _ _ (by decide) (by decide)
  have carries : lowTwin.registers.flags.carry = true := rfl
  rw [cell] at pair twins
  clear_value low high lowTwin highTwin
  have subtracts : ∀ start ∈ [high], start.Performs .sbc := by simpa using pair.performsHigh
  have subtractTwins : ∀ twin ∈ [lowTwin, highTwin], twin.Performs .sbc := by
    simpa using ⟨twins.performsLow, twins.performsHigh⟩
  obtain ⟨answered, computed, alike, notLess, -, -, -, memory⟩ :=
    comparison_starts_subtraction .a low [high] pair.performsLow subtracts pair.linked
  have x : Comparison.register .a low.registers :: [high].map (fun start => start.registers.a) =
      [0x00, 0x80] := pair.accumulators
  rw [x] at alike notLess
  rw [pair.operands] at alike notLess
  obtain ⟨-, -, -, overflow, accumulator⟩ := alike [lowTwin, highTwin] (List.cons_ne_nil _ _)
    twins.linked subtractTwins carries twins.accumulators twins.operands
  have enough : value [0x01, 0x00] ≤ value [0x00, 0x80] := by decide
  have byte : low.operandByte = 0x01 := List.head_eq_of_cons_eq pair.operands
  refine ⟨pair.linked, pair.performsLow, pair.performsHigh, answered low List.mem_cons_self,
    (computed low).symm.trans byte, twins.linked, twins.performsLow, twins.performsHigh,
    notLess.mpr enough, ?_, overflow (List.cons_ne_nil _ _),
    memory FlatMemory.reads_quietly FlatMemory.bytewise⟩
  exact List.singleton_inj.mp accumulator

end Session

end Nmos6502
