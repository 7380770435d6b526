import Nmos6502.Processor.Execute

/-!
Two processors on different buses, action by action. Every instruction is put together from a few
elementary actions, so whatever relates these with themselves, and is kept when one action runs
after another, relates the instruction with itself.
-/

namespace Nmos6502.Processor

variable {M N : Type}

/-- Two accesses in one action on the bus are two actions of the processor. -/
theorem on_bus_bind {First Value : Type} (first : StateM M First)
    (next : First → StateM M Value) :
    onBus (first >>= next) = onBus first >>= fun value => onBus (next value) := rfl

theorem on_bus_pure {Value : Type} (value : Value) :
    onBus (pure value : StateM M Value) = pure value := rfl

variable [Bus M] [Bus N]

/-- The relation is kept by running one action after another, and relates each elementary action
with itself. -/
structure Congruence
    (Alike : ∀ {Value : Type}, ProcessorM M Value → ProcessorM N Value → Prop) : Prop where
  value {Value : Type} (value : Value) : Alike (pure value) (pure value)
  sequence {First Value : Type} {first : ProcessorM M First} {second : ProcessorM N First}
    {firstNext : First → ProcessorM M Value} {secondNext : First → ProcessorM N Value} :
    Alike first second → (∀ value, Alike (firstNext value) (secondNext value)) →
      Alike (first >>= firstNext) (second >>= secondNext)
  registersNow : Alike registersNow registersNow
  update (effect : Registers → Registers) : Alike (update effect) (update effect)
  read (address : Word) : Alike (onBus (Bus.read address)) (onBus (Bus.read address))
  write (address : Word) (value : Byte) :
    Alike (onBus (Bus.write address value)) (onBus (Bus.write address value))
  readWord (address : Word) : Alike (onBus (Bus.readWord address)) (onBus (Bus.readWord address))
  readZeroPageWord (address : Byte) :
    Alike (onBus (Bus.readZeroPageWord address)) (onBus (Bus.readZeroPageWord address))

namespace Congruence

variable {Alike : ∀ {Value : Type}, ProcessorM M Value → ProcessorM N Value → Prop}
variable (congruence : Congruence Alike)

include congruence

theorem fetch_alike : Alike fetch fetch := by
  apply congruence.sequence congruence.registersNow
  intro registers
  apply congruence.sequence (congruence.read registers.pc)
  intro value
  apply congruence.sequence (congruence.update _)
  intro _
  exact congruence.value value

theorem fetch_word_alike : Alike fetchWord fetchWord := by
  apply congruence.sequence congruence.fetch_alike
  intro low
  apply congruence.sequence congruence.fetch_alike
  intro high
  exact congruence.value (Word.ofBytes low high)

theorem push_alike (value : Byte) : Alike (push value) (push value) := by
  apply congruence.sequence congruence.registersNow
  intro registers
  apply congruence.sequence (congruence.write _ value)
  intro _
  exact congruence.update _

theorem pull_alike : Alike pull pull := by
  apply congruence.sequence (congruence.update _)
  intro _
  apply congruence.sequence congruence.registersNow
  intro registers
  exact congruence.read _

theorem push_word_alike (value : Word) : Alike (pushWord value) (pushWord value) :=
  congruence.sequence (congruence.push_alike (Word.highByte value)) fun _ =>
    congruence.push_alike (Word.lowByte value)

theorem pull_word_alike : Alike pullWord pullWord := by
  apply congruence.sequence congruence.pull_alike
  intro low
  apply congruence.sequence congruence.pull_alike
  intro high
  exact congruence.value (Word.ofBytes low high)

theorem read_operand_alike (operand : Operand) :
    Alike (readOperand operand) (readOperand operand) := by
  cases operand with
  | implied | accumulator =>
      exact congruence.sequence congruence.registersNow fun registers =>
        congruence.value registers.a
  | constant value | displacement offset => exact congruence.value _
  | cell address => exact congruence.read address

theorem write_operand_alike (operand : Operand) (value : Byte) :
    Alike (writeOperand operand value) (writeOperand operand value) := by
  cases operand with
  | accumulator => exact congruence.update fun registers => { registers with a := value }
  | implied | constant _ | displacement _ => exact congruence.value ()
  | cell address => exact congruence.write address value

theorem read_jump_pointer_alike (wraps : Bool) (pointer : Word) :
    Alike (onBus (readJumpPointer wraps pointer)) (onBus (readJumpPointer wraps pointer)) := by
  unfold readJumpPointer
  split
  · simp only [on_bus_bind, on_bus_pure]
    apply congruence.sequence (congruence.read pointer)
    intro low
    apply congruence.sequence (congruence.read _)
    intro high
    exact congruence.value (Word.ofBytes low high)
  · exact congruence.readWord pointer

theorem resolve_alike (wraps : Bool) (mode : Mode) :
    Alike (resolve wraps mode) (resolve wraps mode) := by
  cases mode with
  | implicit | accumulator => exact congruence.value _
  | immediate | relative | zeroPage =>
      exact congruence.sequence congruence.fetch_alike fun _ => congruence.value _
  | zeroPageX | zeroPageY =>
      apply congruence.sequence congruence.fetch_alike
      intro base
      exact congruence.sequence congruence.registersNow fun _ => congruence.value _
  | absolute =>
      exact congruence.sequence congruence.fetch_word_alike fun target =>
        congruence.value (Operand.cell target)
  | absoluteX | absoluteY =>
      apply congruence.sequence congruence.fetch_word_alike
      intro base
      exact congruence.sequence congruence.registersNow fun _ => congruence.value _
  | indirect =>
      apply congruence.sequence congruence.fetch_word_alike
      intro pointer
      apply congruence.sequence (congruence.read_jump_pointer_alike wraps pointer)
      intro target
      exact congruence.value (Operand.cell target)
  | indirectX =>
      apply congruence.sequence congruence.fetch_alike
      intro base
      apply congruence.sequence congruence.registersNow
      intro registers
      apply congruence.sequence (congruence.readZeroPageWord (base + registers.x))
      intro target
      exact congruence.value (Operand.cell target)
  | indirectY =>
      apply congruence.sequence congruence.fetch_alike
      intro pointer
      apply congruence.sequence (congruence.readZeroPageWord pointer)
      intro base
      exact congruence.sequence congruence.registersNow fun _ => congruence.value _

/-- Every shape of instruction reaches memory through the bus alone. -/
theorem perform_alike (wraps : Bool) (mode : Mode) (operation : Operation) :
    Alike (perform wraps mode operation) (perform wraps mode operation) := by
  have resolved := congruence.resolve_alike wraps mode
  cases operation with
  | load effect =>
      apply congruence.sequence resolved
      intro operand
      apply congruence.sequence (congruence.read_operand_alike operand)
      intro value
      exact congruence.update (effect value)
  | store value =>
      apply congruence.sequence congruence.registersNow
      intro registers
      apply congruence.sequence resolved
      intro operand
      exact congruence.write_operand_alike operand (value registers)
  | modify effect =>
      apply congruence.sequence resolved
      intro operand
      apply congruence.sequence (congruence.read_operand_alike operand)
      intro value
      apply congruence.sequence congruence.registersNow
      intro registers
      apply congruence.sequence (congruence.update _)
      intro _
      exact congruence.write_operand_alike operand.modified (effect value registers.flags).1
  | branch taken =>
      apply congruence.sequence resolved
      intro operand
      cases operand with
      | displacement offset =>
          apply congruence.sequence congruence.registersNow
          intro registers
          split
          · exact congruence.update _
          · exact congruence.value ()
      | implied | accumulator | constant _ | cell _ => exact congruence.value ()
  | internal effect => exact congruence.update effect
  | push value =>
      apply congruence.sequence congruence.registersNow
      intro registers
      exact congruence.push_alike (value registers)
  | pull effect =>
      apply congruence.sequence congruence.pull_alike
      intro value
      exact congruence.update (effect value)
  | jump =>
      apply congruence.sequence resolved
      intro operand
      cases operand with
      | cell target => exact congruence.update _
      | implied | accumulator | constant _ | displacement _ => exact congruence.value ()
  | callSubroutine =>
      apply congruence.sequence congruence.fetch_word_alike
      intro target
      apply congruence.sequence congruence.registersNow
      intro registers
      apply congruence.sequence (congruence.push_word_alike (registers.pc - 1))
      intro _
      exact congruence.update _
  | returnFromSubroutine =>
      exact congruence.sequence congruence.pull_word_alike fun _ => congruence.update _
  | softwareInterrupt =>
      apply congruence.sequence congruence.fetch_alike
      intro padding
      apply congruence.sequence congruence.registersNow
      intro registers
      apply congruence.sequence (congruence.push_word_alike registers.pc)
      intro _
      apply congruence.sequence congruence.registersNow
      intro pushed
      apply congruence.sequence (congruence.push_alike pushed.status)
      intro _
      apply congruence.sequence (congruence.update _)
      intro _
      apply congruence.sequence (congruence.readWord Word.interruptVector)
      intro target
      exact congruence.update _
  | returnFromInterrupt =>
      apply congruence.sequence congruence.pull_alike
      intro status
      apply congruence.sequence (congruence.update (Operation.loadFlags status))
      intro _
      exact congruence.sequence congruence.pull_word_alike fun _ => congruence.update _

end Congruence

end Nmos6502.Processor
