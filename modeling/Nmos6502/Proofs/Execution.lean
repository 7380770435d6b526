import Nmos6502.Processor.Execute

/-!
Equations for the actions of the processor: what each one returns, and which registers and
which bus it leaves behind. They hold on every bus.
-/

namespace Nmos6502

section

variable {State First Second Value : Type}

theorem bind_run (first : StateM State First) (next : First → StateM State Second)
    (state : State) : (first >>= next) state = next (first state).1 (first state).2 := rfl

theorem pure_run (value : Value) (state : State) :
    (pure value : StateM State Value) state = (value, state) := rfl

theorem get_run (state : State) : (get : StateM State State) state = (state, state) := rfl

end

namespace Processor

variable {M : Type} [Bus M]

omit [Bus M] in
theorem registers_now_run (processor : Processor M) :
    registersNow processor = (processor.registers, processor) := rfl

/-- The program counter moves past the operand bytes and no other register changes. -/
theorem resolve_registers (wraps : Bool) (mode : Mode) (processor : Processor M) :
    (resolve wraps mode processor).2.registers =
      { processor.registers with
        pc := processor.registers.pc + UInt16.ofNat mode.operandBytes } := by
  have none : processor.registers.pc + UInt16.ofNat 0 = processor.registers.pc := by simp
  have two : processor.registers.pc + UInt16.ofNat 2 = processor.registers.pc + 1 + 1 := by
    rw [UInt16.add_assoc]
    rfl
  cases mode with
  | implicit | accumulator =>
      rw [Mode.operandBytes, none]
      rfl
  | immediate | relative | zeroPage | zeroPageX | zeroPageY | indirectX | indirectY => rfl
  | absolute | absoluteX | absoluteY | indirect =>
      rw [Mode.operandBytes, two]
      rfl

theorem read_operand_registers (operand : Operand) (processor : Processor M) :
    (readOperand operand processor).2.registers = processor.registers := by
  cases operand <;> rfl

theorem perform_load (wraps : Bool) (mode : Mode) (effect : Byte → Registers → Registers)
    (processor : Processor M) :
    perform wraps mode (.load effect) processor =
      let resolved := resolve wraps mode processor
      let read := readOperand resolved.1 resolved.2
      ((), ⟨effect read.1 read.2.registers, read.2.bus⟩) := rfl

theorem perform_store (wraps : Bool) (mode : Mode) (value : Registers → Byte)
    (processor : Processor M) :
    perform wraps mode (.store value) processor =
      let resolved := resolve wraps mode processor
      writeOperand resolved.1 (value processor.registers) resolved.2 := rfl

theorem perform_modify (wraps : Bool) (mode : Mode) (effect : Byte → Flags → Byte × Flags)
    (processor : Processor M) :
    perform wraps mode (.modify effect) processor =
      let resolved := resolve wraps mode processor
      let read := readOperand resolved.1 resolved.2
      let changed := effect read.1 read.2.registers.flags
      writeOperand resolved.1.modified changed.1
        ⟨{ read.2.registers with flags := changed.2 }, read.2.bus⟩ := rfl

theorem perform_branch (wraps : Bool) (mode : Mode) (taken : Flags → Bool)
    (processor : Processor M) :
    perform wraps mode (.branch taken) processor =
      let resolved := resolve wraps mode processor
      match resolved.1 with
      | .displacement offset =>
          if taken resolved.2.registers.flags then
            ((), ⟨{ resolved.2.registers with
              pc := Word.displace resolved.2.registers.pc offset }, resolved.2.bus⟩)
          else ((), resolved.2)
      | _ => ((), resolved.2) := by
  rw [perform, bind_run]
  dsimp only
  rcases resolve wraps mode processor with ⟨operand, resolved⟩
  cases operand with
  | displacement offset =>
      cases decided : taken resolved.registers.flags with
      | false =>
          simp only [bind_run, registers_now_run, decided, Bool.false_eq_true, if_false]
          rfl
      | true =>
          simp only [bind_run, registers_now_run, decided, if_true]
          rfl
  | implied | accumulator | constant _ | cell _ => rfl

theorem perform_jump (wraps : Bool) (mode : Mode) (processor : Processor M) :
    perform wraps mode .jump processor =
      let resolved := resolve wraps mode processor
      match resolved.1 with
      | .cell target => ((), ⟨{ resolved.2.registers with pc := target }, resolved.2.bus⟩)
      | _ => ((), resolved.2) := by
  rw [perform, bind_run]
  dsimp only
  rcases resolve wraps mode processor with ⟨operand, resolved⟩
  cases operand with
  | implied | accumulator | constant _ | displacement _ | cell _ => rfl

/-- Neither a branch nor a jump accesses memory once it knows where to. -/
theorem branch_bus (wraps : Bool) (mode : Mode) (taken : Flags → Bool) (processor : Processor M) :
    (perform wraps mode (.branch taken) processor).2.bus =
      (resolve wraps mode processor).2.bus := by
  rw [perform_branch]
  dsimp only
  split
  · split <;> rfl
  · rfl

theorem jump_bus (wraps : Bool) (mode : Mode) (processor : Processor M) :
    (perform wraps mode .jump processor).2.bus = (resolve wraps mode processor).2.bus := by
  rw [perform_jump]
  dsimp only
  split <;> rfl

theorem call_subroutine_run (processor : Processor M) :
    callSubroutine processor =
      let target := fetchWord processor
      let pushed := (pushWord (target.2.registers.pc - 1) target.2).2
      ((), ⟨{ pushed.registers with pc := target.1 }, pushed.bus⟩) := rfl

theorem return_from_subroutine_run (processor : Processor M) :
    returnFromSubroutine processor =
      let pulled := pullWord processor
      ((), ⟨{ pulled.2.registers with pc := pulled.1 + 1 }, pulled.2.bus⟩) := rfl

theorem return_from_interrupt_run (processor : Processor M) :
    returnFromInterrupt processor =
      let status := pull processor
      let restored := ⟨Operation.loadFlags status.1 status.2.registers, status.2.bus⟩
      let pulled := pullWord restored
      ((), ⟨{ pulled.2.registers with pc := pulled.1 }, pulled.2.bus⟩) := rfl

end Processor

end Nmos6502
