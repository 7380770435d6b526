import Nmos6502.Proofs.Columns
import Nmos6502.Proofs.EffectiveAddress
import Nmos6502.Proofs.Protocol

/-!
Arithmetic on numbers of several bytes. Steps that hand the carry on add a number of any length, or
subtract one; the flags of the last step are those of the whole sum or difference.
-/

namespace Nmos6502

open Bytes

namespace Column

/-- The column that an addition forms. -/
def ofSum (left right : Byte) (carry : Bool) : Column where
  left := left
  right := right
  carryIn := carry
  result := (Alu.add left right { carry := carry }).1
  carryOut := (Alu.add left right { carry := carry }).2.carry
  exact := Alu.add_to_nat left right { carry := carry }

theorem of_sum_operands (left right : Byte) (carry : Bool) :
    (ofSum left right carry).left = left ∧ (ofSum left right carry).right = right ∧
      (ofSum left right carry).carryIn = carry :=
  ⟨rfl, rfl, rfl⟩

/-- A byte and a carry that the operands add up to are what comes out. -/
theorem of_sum_results {left right result : Byte} {carryIn carryOut : Bool}
    (exact : result.toNat + 256 * carryOut.toNat = left.toNat + right.toNat + carryIn.toNat) :
    (ofSum left right carryIn).result = result ∧
      (ofSum left right carryIn).carryOut = carryOut := by
  have same : ofSum left right carryIn = ⟨left, right, carryIn, result, carryOut, exact⟩ :=
    ext_operands rfl rfl rfl
  rw [same]
  exact ⟨rfl, rfl⟩

end Column

namespace Session

variable {M H O : Type} [Bus M] [TraceObserver O]

/-- The column of an ADC. -/
def sumColumn (session : Session M H O) : Column :=
  .ofSum session.registers.a session.operandByte session.registers.flags.carry

/-- The column of an SBC, which adds the complement. -/
def differenceColumn (session : Session M H O) : Column :=
  .ofSum session.registers.a (~~~session.operandByte) session.registers.flags.carry

theorem sum_column_right (session : Session M H O) :
    session.sumColumn.right = session.operandByte :=
  (Column.of_sum_operands session.registers.a session.operandByte _).2.1

theorem difference_column_right (session : Session M H O) :
    session.differenceColumn.right = ~~~session.operandByte :=
  (Column.of_sum_operands session.registers.a (~~~session.operandByte) _).2.1

variable [ExtensionHandler H]

/-- The carry goes unchanged from the one step into the other, whatever is done between them. -/
def HandsOnCarry (before next : Session M H O) : Prop :=
  next.registers.flags.carry = (step before).2.registers.flags.carry

/-- What is made of linked steps is linked too, where it takes the carry before the step in and the
carry after it out. The first step need not take the carry in. -/
theorem linked_map {Item : Type} {item : Session M H O → Item} {lead : Item}
    {carryIn carryOut : Item → Bool} {first : Session M H O} {rest : List (Session M H O)}
    (linked : (first :: rest).IsChain HandsOnCarry)
    (leads : (step first).2.registers.flags.carry = carryOut lead)
    (follows : ∀ start ∈ rest, carryIn (item start) = start.registers.flags.carry ∧
      (step start).2.registers.flags.carry = carryOut (item start)) :
    (lead :: rest.map item).IsChain fun before next => carryIn next = carryOut before := by
  induction rest generalizing first lead with
  | nil => exact List.isChain_singleton lead
  | cons next later induction =>
      obtain ⟨into, out⟩ := follows next List.mem_cons_self
      obtain ⟨handsOn, linkedLater⟩ := List.isChain_cons_cons.mp linked
      rw [List.map_cons, List.isChain_cons_cons]
      refine ⟨into.trans (handsOn.trans leads), induction linkedLater out ?_⟩
      intro start member
      exact follows start (List.mem_cons_of_mem next member)

/-- The step forms the column: it takes one operand and the carry from the column and leaves the
rest of it in the accumulator and the flags. -/
structure Forms (session : Session M H O) (column : Column) : Prop where
  left : column.left = session.registers.a
  carryIn : column.carryIn = session.registers.flags.carry
  result : (step session).2.registers.a = column.result
  carry : (step session).2.registers.flags.carry = column.carryOut
  overflow : (step session).2.registers.flags.overflow =
    Alu.overflows column.left column.right column.result
  negative : (step session).2.registers.flags.negative = (column.result &&& 0x80 != 0)
  zero : (step session).2.registers.flags.zero = (column.result == 0)

theorem adc_forms {session : Session M H O} (adds : session.Performs .adc) :
    session.Forms session.sumColumn := by
  obtain ⟨registers, -⟩ := step_of_load adds rfl
  rw [sumColumn]
  generalize session.operandByte = operand at registers
  constructor
  · rfl
  · rfl
  all_goals rw [registers]; rfl

theorem sbc_forms {session : Session M H O} (subtracts : session.Performs .sbc) :
    session.Forms session.differenceColumn := by
  obtain ⟨registers, -⟩ := step_of_load subtracts rfl
  rw [differenceColumn]
  generalize session.operandByte = operand at registers
  constructor
  · rfl
  · rfl
  all_goals rw [registers]; rfl

section

variable {starts : List (Session M H O)} {column : Session M H O → Column}

theorem columns_fed (linked : starts.IsChain HandsOnCarry)
    (forms : ∀ start ∈ starts, start.Forms (column start)) :
    (starts.map column).IsChain Column.Feeds := by
  cases starts with
  | nil => exact List.isChain_nil
  | cons first rest =>
      apply linked_map linked (forms first List.mem_cons_self).carry
      intro start member
      have formed := forms start (List.mem_cons_of_mem first member)
      exact ⟨formed.carryIn, formed.carry⟩

theorem results_of_columns (forms : ∀ start ∈ starts, start.Forms (column start)) :
    (starts.map fun start => (step start).2.registers.a) =
      (starts.map column).map Column.result := by
  rw [List.map_map]
  exact List.map_congr_left fun start member => (forms start member).result

/-- Linked steps that form columns form the sum of whole numbers, and the flags of the last step
tell of the sum. -/
theorem linked_steps_add (some : starts ≠ []) (linked : starts.IsChain HandsOnCarry)
    (forms : ∀ start ∈ starts, start.Forms (column start)) :
    let x := starts.map fun start => start.registers.a
    let y := starts.map fun start => (column start).right
    let z := starts.map fun start => (step start).2.registers.a
    let carry := (starts.head some).registers.flags.carry
    let flags := (step (starts.getLast some)).2.registers.flags
    value z + 256 ^ starts.length * flags.carry.toNat = value x + value y + carry.toNat ∧
      (flags.overflow = true ↔
        ¬FitsSigned starts.length (signed x + signed y + carry.toNat)) ∧
      flags.negative = topBit z := by
  intro x y z carry flags
  have fed := columns_fed linked forms
  have columns : starts.map column ≠ [] := by simpa using some
  have sum := Column.columns_add columns fed
  have overflow := Column.columns_overflow columns fed
  have last := forms _ (List.getLast_mem some)
  have first := forms _ (List.head_mem some)
  have lefts : (starts.map column).map Column.left = x := by
    rw [List.map_map]
    exact List.map_congr_left fun start member => (forms start member).left
  have results : (starts.map column).map Column.result = z := (results_of_columns forms).symm
  have rights : (starts.map column).map Column.right = y := List.map_map
  dsimp only at overflow
  rw [List.getLast_map, List.head_map, List.length_map, first.carryIn, lefts, rights]
    at sum overflow
  rw [results, ← last.carry] at sum
  rw [← last.overflow] at overflow
  refine ⟨sum, overflow, ?_⟩
  have bytes : z ≠ [] := by simpa [z] using some
  have top : z.getLast bytes = (column (starts.getLast some)).result := by
    rw [List.getLast_map]
    exact last.result
  rw [top_bit_eq_last bytes, top]
  exact last.negative

end

/-- ADC steps that hand the carry on add numbers of any length, and SBC steps subtract them. The
accumulators before the steps make up the one number and the bytes that the bus answers at the
operands the other, which in plain memory are where the modes compute them to be; of the flags only
the carry before the first step counts. V says that the signed result does not fit into so many
bytes, and N is its top bit. After a subtraction without borrow N and V tell together which of the
signed numbers is the smaller one. -/
theorem multi_byte_arithmetic_is_exact (starts : List (Session M H O)) (some : starts ≠ [])
    (linked : starts.IsChain HandsOnCarry) :
    let length := starts.length
    let x := starts.map fun start => start.registers.a
    let y := starts.map operandByte
    let z := starts.map fun start => (step start).2.registers.a
    let carry := (starts.head some).registers.flags.carry
    let flags := (step (starts.getLast some)).2.registers.flags
    (∀ start ∈ starts, ∀ mnemonic ∈ [Mnemonic.adc, .sbc], start.Performs mnemonic →
      start.OperandAnswered) ∧
    (∀ flat : Session FlatMemory H O, flat.operandByte = flat.operandValue) ∧
    ((∀ start ∈ starts, start.Performs .adc) →
      value z + 256 ^ length * flags.carry.toNat = value x + value y + carry.toNat ∧
        (flags.overflow = true ↔ ¬FitsSigned length (signed x + signed y + carry.toNat)) ∧
        flags.negative = topBit z) ∧
    ((∀ start ∈ starts, start.Performs .sbc) →
      (value z : Int) = (value x - value y - (1 - carry.toNat)) % 256 ^ length ∧
        (flags.carry = true ↔ value y + (1 - carry.toNat) ≤ value x) ∧
        (flags.overflow = true ↔
          ¬FitsSigned length (signed x - signed y - (1 - carry.toNat))) ∧
        flags.negative = topBit z ∧
        (carry = true → ((flags.negative ^^ flags.overflow) = true ↔ signed x < signed y))) := by
  intro length x y z carry flags
  refine ⟨?answered, operand_byte_on_flat, ?sum, ?difference⟩
  case answered =>
    have reads : ∀ mnemonic ∈ [Mnemonic.adc, .sbc], mnemonic.operation.readsOperand = true := by
      decide
    exact fun start _ mnemonic member performs => operand_answered performs (reads mnemonic member)
  case sum =>
    intro adds
    have forms : ∀ start ∈ starts, start.Forms start.sumColumn := fun start member =>
      adc_forms (adds start member)
    have total := linked_steps_add some linked forms
    simp only [sum_column_right] at total
    exact total
  case difference =>
    intro subtracts
    have forms : ∀ start ∈ starts, start.Forms start.differenceColumn := fun start member =>
      sbc_forms (subtracts start member)
    obtain ⟨sum, overflow, negative⟩ := linked_steps_add some linked forms
    have rights : (starts.map fun start => start.differenceColumn.right) = y.map (~~~·) := by
      rw [List.map_map]
      exact List.map_congr_left fun start _ => difference_column_right start
    have xLength : x.length = length := List.length_map _
    have yLength : y.length = length := List.length_map _
    have zLength : z.length = length := List.length_map _
    have someY : y ≠ [] := by simpa [y] using some
    have someZ : z ≠ [] := by simpa [z] using some
    have signedSum : signed x + signed (y.map (~~~·)) + carry.toNat =
        signed x - signed y - (1 - carry.toNat) := by
      rw [signed_complement someY]
      omega
    rw [rights, signedSum] at overflow
    rw [rights] at sum
    obtain ⟨difference, borrow⟩ := difference_of_sum yLength zLength sum
    refine ⟨difference, borrow, overflow, negative, ?_⟩
    intro noBorrow
    have none : (1 : Int) - carry.toNat = 0 := by
      rw [noBorrow]
      rfl
    rw [none, Int.sub_zero] at difference overflow
    have differ : (flags.negative ^^ flags.overflow) = true ↔
        (flags.negative = true ↔ ¬flags.overflow = true) := by
      cases flags.negative <;> cases flags.overflow <;> decide
    have fits : ¬flags.overflow = true ↔ FitsSigned length (signed x - signed y) :=
      not_iff_comm.mp overflow.symm
    have sign : flags.negative = topBit z := negative
    rw [differ, fits, sign]
    exact (signed_lt_iff someZ xLength yLength zLength difference).symm

/-- Two linked steps, and the numbers of two bytes that they find. -/
structure Pair (low high : Session M H O) (lowMnemonic highMnemonic : Mnemonic)
    (x y : List Byte) : Prop where
  linked : [low, high].IsChain HandsOnCarry
  performsLow : low.Performs lowMnemonic
  performsHigh : high.Performs highMnemonic
  accumulators : [low, high].map (fun start => start.registers.a) = x
  operands : [low, high].map operandByte = y

theorem prepared_hands_on {H O : Type} [ExtensionHandler H] [TraceObserver O]
    (before : Session FlatMemory H O) (code operand a : Byte) :
    before.HandsOnCarry ((step before).2.prepared code operand a) := rfl

/-- The low byte is in a cell of page zero and the high byte comes with the instruction. -/
theorem prepared_pair {H O : Type} [ExtensionHandler H] [TraceObserver O]
    (session : Session FlatMemory H O) (running : session.halted = none)
    {lowCode highCode : Byte} {lowMnemonic highMnemonic : Mnemonic}
    (lowDecodes : Instruction.decode lowCode = .official lowMnemonic .zeroPage)
    (highDecodes : Instruction.decode highCode = .official highMnemonic .immediate)
    (lowA highA lowCell highOperand : Byte)
    (first : session.registers.pc ≠ Word.zeroPage lowCell)
    (second : session.registers.pc + 1 ≠ Word.zeroPage lowCell) :
    let low := session.prepared lowCode lowCell lowA
    let high := (step low).2.prepared highCode highOperand highA
    Pair low high lowMnemonic highMnemonic [lowA, highA]
      [session.bus.get (Word.zeroPage lowCell), highOperand] := by
  intro low high
  have performsLow : low.Performs lowMnemonic := prepared_performs _ _ _ session running lowDecodes
  have goesOn : (step low).2.halted = none := halted_of_performs performsLow
  have lowByte : low.operandByte = session.bus.get (Word.zeroPage lowCell) :=
    (prepared_zero_page _ _ _ session lowDecodes).trans (prepared_cell _ _ _ session first second)
  have highByte : high.operandByte = highOperand := prepared_operand _ _ _ (step low).2 highDecodes
  have accumulators (start : Session FlatMemory H O) (code operand a : Byte) :
      (start.prepared code operand a).registers.a = a := rfl
  constructor
  · exact List.isChain_pair.mpr (prepared_hands_on low _ _ _)
  · exact performsLow
  · exact prepared_performs _ _ _ (step low).2 goesOn highDecodes
  · rw [List.map_cons, List.map_singleton, accumulators, accumulators]
  · rw [List.map_cons, List.map_singleton, lowByte, highByte]

/-- `$1697 + $6969` is `$8000`, which is negative in two bytes, and `$8000 - $0001` is `$7FFF`. The
low bytes of `$6969` and `$0001` are in memory. -/
theorem two_byte_results_overflow :
    let idle : Session FlatMemory Empty Empty :=
      (performAll [.write 0x0010 0x69, .write 0x0011 0x01] (start .blank 0x0600 {})).2
    let low := idle.prepared 0x65 0x10 0x97
    let high := (step low).2.prepared 0x69 0x69 0x16
    let unborrowed := (performAll [.setFlag .carry true] idle).2
    let lowLess := unborrowed.prepared 0xE5 0x11 0x00
    let highLess := (step lowLess).2.prepared 0xE9 0x00 0x80
    ([low, high].IsChain HandsOnCarry ∧ (∀ start ∈ [low, high], start.Performs .adc) ∧
      low.OperandAnswered ∧ low.operandValue = 0x69 ∧
      value ([low, high].map fun start => (step start).2.registers.a) +
        256 ^ 2 * (step high).2.registers.flags.carry.toNat = 0x8000 ∧
      (step high).2.registers.flags.overflow = true) ∧
    ([lowLess, highLess].IsChain HandsOnCarry ∧
      (∀ start ∈ [lowLess, highLess], start.Performs .sbc) ∧
      lowLess.OperandAnswered ∧ lowLess.operandValue = 0x01 ∧
      (step highLess).2.registers.flags.carry = true ∧
      (step highLess).2.registers.flags.overflow = true ∧
      ((step highLess).2.registers.flags.negative ^^
        (step highLess).2.registers.flags.overflow) = true) := by
  intro idle low high unborrowed lowLess highLess
  have decodes : Instruction.decode 0x65 = .official .adc .zeroPage ∧
      Instruction.decode 0x69 = .official .adc .immediate ∧
      Instruction.decode 0xE5 = .official .sbc .zeroPage ∧
      Instruction.decode 0xE9 = .official .sbc .immediate := by
    simp only [Instruction.decode_official_iff]
    decide +kernel
  obtain ⟨adcCell, adc, sbcCell, sbc⟩ := decodes
  have memory : idle.bus = (FlatMemory.blank.set 0x0010 0x69).set 0x0011 0x01 := rfl
  have added : idle.bus.get (Word.zeroPage 0x10) = 0x69 := by
    rw [memory, FlatMemory.get_set_other _ _ (by decide)]
    exact FlatMemory.get_set_same _ _ _
  have subtracted : unborrowed.bus.get (Word.zeroPage 0x11) = 0x01 :=
    FlatMemory.get_set_same _ _ _
  have pair : Pair low high .adc .adc [0x97, 0x16] [idle.bus.get (Word.zeroPage 0x10), 0x69] :=
    prepared_pair idle rfl adcCell adc _ _ _ _ (by decide) (by decide)
  have pairLess : Pair lowLess highLess .sbc .sbc [0x00, 0x80]
      [unborrowed.bus.get (Word.zeroPage 0x11), 0x00] :=
    prepared_pair unborrowed rfl sbcCell sbc _ _ _ _ (by decide) (by decide)
  have cleared : low.registers.flags.carry = false := rfl
  have carries : lowLess.registers.flags.carry = true := rfl
  rw [added] at pair
  rw [subtracted] at pairLess
  clear_value low high lowLess highLess
  constructor
  · have adds : ∀ start ∈ [low, high], start.Performs .adc := by
      simpa using ⟨pair.performsLow, pair.performsHigh⟩
    obtain ⟨answered, computed, sum, -⟩ :=
      multi_byte_arithmetic_is_exact [low, high] (List.cons_ne_nil _ _) pair.linked
    obtain ⟨total, overflow, -⟩ := sum adds
    rw [pair.accumulators, pair.operands, List.head_cons, cleared] at total overflow
    have outside : ¬FitsSigned 2 (signed [0x97, 0x16] + signed [0x69, 0x69] + false.toNat) := by
      decide
    have byte : low.operandByte = 0x69 := List.head_eq_of_cons_eq pair.operands
    refine ⟨pair.linked, adds, ?_, (computed low).symm.trans byte, total, overflow.mpr outside⟩
    exact answered low List.mem_cons_self .adc List.mem_cons_self pair.performsLow
  · have subtracts : ∀ start ∈ [lowLess, highLess], start.Performs .sbc := by
      simpa using ⟨pairLess.performsLow, pairLess.performsHigh⟩
    obtain ⟨answered, computed, -, difference⟩ :=
      multi_byte_arithmetic_is_exact [lowLess, highLess] (List.cons_ne_nil _ _) pairLess.linked
    obtain ⟨-, borrow, overflow, -, less⟩ := difference subtracts
    rw [pairLess.accumulators, pairLess.operands, List.head_cons, carries] at borrow overflow less
    have enough : value [0x01, 0x00] + (1 - true.toNat) ≤ value [0x00, 0x80] := by decide
    have outside :
        ¬FitsSigned 2 (signed [0x00, 0x80] - signed [0x01, 0x00] - (1 - true.toNat)) := by
      decide
    have smaller : signed [0x00, 0x80] < signed [0x01, 0x00] := by decide
    have byte : lowLess.operandByte = 0x01 := List.head_eq_of_cons_eq pairLess.operands
    refine ⟨pairLess.linked, subtracts, ?_, (computed lowLess).symm.trans byte, borrow.mpr enough,
      overflow.mpr outside, (less rfl).mpr smaller⟩
    exact answered lowLess List.mem_cons_self .sbc (by decide) pairLess.performsLow

end Session

end Nmos6502
