import Nmos6502.Bus.Flat
import Nmos6502.Proofs.Address
import Nmos6502.Proofs.Frame
import Nmos6502.Proofs.Step

/-!
What an instruction does to the stack: how many bytes it pushes and pulls, and, on plain memory,
that it changes no cell but those that it pushes to and the one that it stores to.
-/

namespace Nmos6502

namespace Mnemonic

def pushes : Mnemonic → Nat
  | .pha | .php => 1
  | .jsr => 2
  | .brk => 3
  | _ => 0

def pulls : Mnemonic → Nat
  | .pla | .plp => 1
  | .rts => 2
  | .rti => 3
  | _ => 0

/-- The instructions that push or pull, and the one that loads the stack pointer. -/
def stackers : List Mnemonic := [.txs, .pha, .php, .pla, .plp, .jsr, .rts, .brk, .rti]

theorem keeps_sp {mnemonic : Mnemonic} (other : mnemonic ∉ stackers) (mode : Mode) :
    mnemonic.operation.Keeps Registers.sp mode := by
  cases mnemonic with
  | txs | pha | php | pla | plp | jsr | rts | brk | rti => exact absurd (by decide) other
  | adc | sbc | and | ora | eor | bit | cmp | cpx | cpy | lda | ldx | ldy =>
      exact fun value registers => rfl
  | sta | stx | sty => exact fun form registers a => rfl
  | asl | lsr | rol | ror | inc | dec =>
      exact ⟨fun form registers a => rfl, fun value registers => rfl⟩
  | clc | cld | cli | clv | sec | sed | sei | inx | iny | dex | dey | tax | tay | tsx | txa
    | tya | nop => exact fun registers => rfl
  | _ => trivial

theorem stack_still {mnemonic : Mnemonic} (other : mnemonic ∉ stackers) :
    mnemonic.pushes = 0 ∧ mnemonic.pulls = 0 := by
  cases mnemonic with
  | txs | pha | php | pla | plp | jsr | rts | brk | rti => exact absurd (by decide) other
  | _ => exact ⟨rfl, rfl⟩

/-- The instructions that write to their operand. -/
def stores : Mnemonic → Bool
  | .sta | .stx | .sty | .asl | .lsr | .rol | .ror | .inc | .dec => true
  | _ => false

end Mnemonic

namespace Instruction

def pushes : Instruction → Nat
  | .official mnemonic _ => mnemonic.pushes
  | .extension | .illegal => 0

def pulls : Instruction → Nat
  | .official mnemonic _ => mnemonic.pulls
  | .extension | .illegal => 0

theorem pushes_or_pulls (instruction : Instruction) :
    instruction.pushes = 0 ∨ instruction.pulls = 0 := by
  cases instruction with
  | official mnemonic mode =>
      cases mnemonic with
      | pha | php | jsr | brk => exact Or.inr rfl
      | _ => exact Or.inl rfl
  | extension | illegal => exact Or.inl rfl

end Instruction

namespace Word

theorem stack_cell_eq_or (sp : Byte) : stackCell sp = 0x0100 ||| sp.toUInt16 := by
  have apart := Nat.two_pow_add_eq_or_of_lt sp.toNat_lt 1
  apply UInt16.toNat_inj.mp
  rw [stack_cell_to_nat, UInt16.toNat_or, UInt8.toNat_toUInt16]
  exact apart

theorem stack_cell_ne (sp : Byte) {address : Word}
    (outside : address < 0x0100 ∨ 0x01FF < address) : stackCell sp ≠ address := by
  rintro rfl
  have cell := stack_cell_to_nat sp
  have bound := sp.toNat_lt
  simp only [UInt16.lt_iff_toNat_lt, cell, UInt16.reduceToNat] at outside
  omega

/-- Going down the stack from a cell comes back to it after 256 steps. -/
theorem stack_cell_eq_iff (sp : Byte) (index : Nat) {distance : Nat} (below : distance < 256) :
    stackCell (sp - UInt8.ofNat index) = stackCell (sp - UInt8.ofNat distance) ↔
      index % 256 = distance := by
  have steps : UInt8.ofNat index = UInt8.ofNat distance ↔ index % 256 = distance := by
    rw [← UInt8.toNat_inj, UInt8.toNat_ofNat', UInt8.toNat_ofNat']
    omega
  rw [← steps]
  constructor
  · intro same
    have pointers := stack_cell_injective same
    grind
  · intro same
    rw [same]

theorem stack_cells_apart (sp : Byte) {first second : Nat} (firstBound : first < 256)
    (secondBound : second < 256) (apart : first ≠ second) :
    stackCell (sp - UInt8.ofNat first) ≠ stackCell (sp - UInt8.ofNat second) := by
  rw [ne_eq, stack_cell_eq_iff sp first secondBound]
  omega

theorem above_stack (sp : Byte) {address : Word} (above : 0x0200 ≤ address) :
    stackCell sp ≠ address := by
  apply stack_cell_ne
  right
  exact UInt16.lt_of_lt_of_le (by decide) above

end Word

namespace Processor

section

variable {M : Type} [Bus M]

/-- TXS alone loads the stack pointer; the others move it by what they push and pull. -/
theorem execute_sp (wraps : Bool) {mnemonic : Mnemonic} (mode : Mode) (other : mnemonic ≠ .txs)
    (processor : Processor M) :
    (execute wraps mnemonic mode processor).2.registers.sp =
      processor.registers.sp - UInt8.ofNat mnemonic.pushes + UInt8.ofNat mnemonic.pulls := by
  by_cases listed : mnemonic ∈ Mnemonic.stackers
  · cases mnemonic with
    | txs => exact absurd rfl other
    | pha | php =>
        change processor.registers.sp - 1 = processor.registers.sp - 1 + 0
        grind
    | pla | plp =>
        change processor.registers.sp + 1 = processor.registers.sp - 0 + 1
        grind
    | jsr =>
        change processor.registers.sp - 1 - 1 = processor.registers.sp - 2 + 0
        grind
    | rts =>
        change processor.registers.sp + 1 + 1 = processor.registers.sp - 0 + 2
        grind
    | brk =>
        change processor.registers.sp - 1 - 1 - 1 = processor.registers.sp - 3 + 0
        grind
    | rti =>
        change processor.registers.sp + 1 + 1 + 1 = processor.registers.sp - 0 + 3
        grind
    | _ => exact absurd listed (by decide)
  · obtain ⟨pushes, pulls⟩ := Mnemonic.stack_still listed
    have keeps := Mnemonic.keeps_sp listed mode
    rw [execute, perform_keeps wraps (fun _ _ => rfl) keeps, pushes, pulls]
    grind

end

section

variable (wraps : Bool) (mode : Mode) (processor : Processor FlatMemory)

theorem resolve_bus : (resolve wraps mode processor).2.bus = processor.bus := by
  cases mode with
  | indirect =>
      change (readJumpPointer wraps _ processor.bus).2 = processor.bus
      rw [readJumpPointer]
      split <;> rfl
  | _ => rfl

theorem read_operand_bus (operand : Operand) :
    (readOperand operand processor).2.bus = processor.bus := by
  cases operand <;> rfl

variable {address : Word}

theorem write_operand_keeps {operand : Operand} (value : Byte)
    (apart : operand.cell? ≠ some address) :
    (writeOperand operand value processor).2.bus.get address = processor.bus.get address := by
  cases operand with
  | implied | accumulator | constant _ | displacement _ => rfl
  | cell target =>
      have other : target ≠ address := by
        intro same
        exact apart (congrArg some same)
      exact FlatMemory.get_set_other processor.bus value other

theorem push_keeps (value : Byte) (apart : Word.stackCell processor.registers.sp ≠ address) :
    (push value processor).2.bus.get address = processor.bus.get address :=
  FlatMemory.get_set_other processor.bus value apart

theorem push_word_keeps (value : Word) (first : Word.stackCell processor.registers.sp ≠ address)
    (second : Word.stackCell (processor.registers.sp - 1) ≠ address) :
    (pushWord value processor).2.bus.get address = processor.bus.get address := by
  have low := push_keeps (push (Word.highByte value) processor).2 (Word.lowByte value) second
  have high := push_keeps processor (Word.highByte value) first
  exact low.trans high

theorem push_stores (value : Byte) :
    (push value processor).2.bus.get (Word.stackCell processor.registers.sp) = value :=
  FlatMemory.get_set_same processor.bus (Word.stackCell processor.registers.sp) value

theorem push_word_stores (value : Word) :
    (pushWord value processor).2.bus.get (Word.stackCell processor.registers.sp) =
        Word.highByte value ∧
      (pushWord value processor).2.bus.get (Word.stackCell (processor.registers.sp - 1)) =
        Word.lowByte value := by
  have below : Word.stackCell (processor.registers.sp - 1) ≠
      Word.stackCell processor.registers.sp := by
    intro same
    have pointers := Word.stack_cell_injective same
    grind
  have high := push_keeps (push (Word.highByte value) processor).2 (Word.lowByte value) below
  refine ⟨high.trans (push_stores processor (Word.highByte value)), ?_⟩
  exact push_stores (push (Word.highByte value) processor).2 (Word.lowByte value)

theorem load_keeps (effect : Byte → Registers → Registers) :
    (perform wraps mode (.load effect) processor).2.bus = processor.bus := by
  rw [perform_load]
  dsimp only
  rw [read_operand_bus, resolve_bus]

theorem store_keeps (value : Registers → Byte)
    (apart : (resolve wraps mode processor).1.cell? ≠ some address) :
    (perform wraps mode (.store value) processor).2.bus.get address =
      processor.bus.get address := by
  rw [perform_store]
  dsimp only
  rw [write_operand_keeps _ _ apart, resolve_bus]

theorem modify_keeps (effect : Byte → Flags → Byte × Flags)
    (apart : (resolve wraps mode processor).1.cell? ≠ some address) :
    (perform wraps mode (.modify effect) processor).2.bus.get address =
      processor.bus.get address := by
  rw [← Operand.modified_cell] at apart
  rw [perform_modify]
  dsimp only
  rw [write_operand_keeps _ _ apart]
  dsimp only
  rw [read_operand_bus, resolve_bus]

/-- A cell that is neither pushed to nor stored to keeps its byte. -/
theorem execute_keeps {mnemonic : Mnemonic}
    (stored : mnemonic.stores → (resolve wraps mode processor).1.cell? ≠ some address)
    (pushed : ∀ offset < mnemonic.pushes,
      Word.stackCell (processor.registers.sp - UInt8.ofNat offset) ≠ address) :
    (execute wraps mnemonic mode processor).2.bus.get address = processor.bus.get address := by
  have resolved := resolve_bus wraps mode processor
  have zero : processor.registers.sp - UInt8.ofNat 0 = processor.registers.sp :=
    UInt8.sub_zero processor.registers.sp
  have one : processor.registers.sp - UInt8.ofNat 1 = processor.registers.sp - 1 := rfl
  have two : processor.registers.sp - UInt8.ofNat 2 = processor.registers.sp - 1 - 1 := by grind
  cases mnemonic with
  | adc | sbc | and | ora | eor | bit | cmp | cpx | cpy | lda | ldx | ldy =>
      exact congrArg (FlatMemory.get · address) (load_keeps wraps mode processor _)
  | sta | stx | sty => exact store_keeps wraps mode processor _ (stored rfl)
  | asl | lsr | rol | ror | inc | dec => exact modify_keeps wraps mode processor _ (stored rfl)
  | bcc | bcs | beq | bmi | bne | bpl | bvc | bvs =>
      exact congrArg (FlatMemory.get · address) ((branch_bus wraps mode _ processor).trans resolved)
  | jmp =>
      exact congrArg (FlatMemory.get · address) ((jump_bus wraps mode processor).trans resolved)
  | clc | cld | cli | clv | sec | sed | sei | inx | iny | dex | dey | tax | tay | tsx | txa | txs
    | tya | nop | pla | plp | rts | rti => rfl
  | pha | php =>
      have first := pushed 0 (by decide)
      rw [zero] at first
      exact push_keeps processor _ first
  | jsr =>
      have first := pushed 0 (by decide)
      have second := pushed 1 (by decide)
      rw [zero] at first
      rw [one] at second
      exact push_word_keeps (fetchWord processor).2 _ first second
  | brk =>
      have first := pushed 0 (by decide)
      have second := pushed 1 (by decide)
      have third := pushed 2 (by decide)
      rw [zero] at first
      rw [one] at second
      rw [two] at third
      have returned := push_word_keeps (fetch processor).2 (processor.registers.pc + 1) first second
      have pushedStatus := push_keeps (pushWord (processor.registers.pc + 1) (fetch processor).2).2
        processor.registers.status third
      exact pushedStatus.trans returned

end

end Processor

namespace Session

section

variable {M H O : Type} [Bus M]

def executes (session : Session M H O) (mnemonic : Mnemonic) : Prop :=
  ∃ mode, session.instruction = .official mnemonic mode

theorem step_sp [ExtensionHandler H] [TraceObserver O] (session : Session M H O)
    (running : session.halted = none) (other : ¬session.executes .txs) :
    (step session).2.registers.sp =
      session.registers.sp - UInt8.ofNat session.instruction.pushes +
        UInt8.ofNat session.instruction.pulls := by
  have still : session.registers.sp - UInt8.ofNat 0 + UInt8.ofNat 0 = session.registers.sp := by
    grind
  cases decoded : session.instruction with
  | illegal =>
      rw [step_of_illegal session running decoded]
      exact still.symm
  | extension =>
      obtain ⟨_, _, _, _, _, executed⟩ := step_of_extension_changes session running decoded
      rw [executed]
      exact still.symm
  | official mnemonic mode =>
      rw [step_of_official session running decoded]
      apply Processor.execute_sp
      intro same
      exact other ⟨mode, same ▸ decoded⟩

end

variable {H O : Type} [TraceObserver O]

/-- The cell that the instruction writes to as its operand, if it does. -/
def storeTarget (session : Session FlatMemory H O) : Option Word :=
  match session.instruction with
  | .official mnemonic mode =>
      if mnemonic.stores then
        (Processor.resolve session.config.pointerWraps mode session.fetched.processor).1.cell?
      else none
  | .extension | .illegal => none

theorem fetched_bus (session : Session FlatMemory H O) : session.fetched.bus = session.bus :=
  fetched_bus_of_quiet FlatMemory.reads_quietly session

theorem instruction_on_flat (session : Session FlatMemory H O) :
    session.instruction = Instruction.decode (session.bus.get session.registers.pc) :=
  congrArg (fun bus => Instruction.decode (FlatMemory.get bus session.registers.pc))
    (fetched_bus session)

theorem step_keeps [ExtensionHandler H] (session : Session FlatMemory H O)
    (running : session.halted = none) {address : Word}
    (stored : session.storeTarget ≠ some address)
    (pushed : ∀ offset < session.instruction.pushes,
      Word.stackCell (session.registers.sp - UInt8.ofNat offset) ≠ address) :
    (step session).2.bus.get address = session.bus.get address := by
  have fetched := congrArg (FlatMemory.get · address) (fetched_bus session)
  cases decoded : session.instruction with
  | illegal =>
      rw [step_of_illegal session running decoded]
      exact fetched
  | extension =>
      obtain ⟨_, _, _, _, _, executed⟩ := step_of_extension_changes session running decoded
      rw [executed]
      exact fetched
  | official mnemonic mode =>
      have stores : mnemonic.stores → (Processor.resolve session.config.pointerWraps mode
          session.fetched.processor).1.cell? ≠ some address := by
        intro writes same
        apply stored
        unfold storeTarget
        rw [decoded]
        exact (if_pos writes).trans same
      rw [decoded] at pushed
      have executed := Processor.execute_keeps session.config.pointerWraps mode
        session.fetched.processor stores pushed
      rw [step_of_official session running decoded]
      exact executed.trans fetched

/-- Code above the stack is not affected by what goes onto the stack. -/
theorem code_of_step [ExtensionHandler H] (session : Session FlatMemory H O)
    (running : session.halted = none) {mnemonic : Mnemonic} {mode : Mode}
    (decoded : session.instruction = .official mnemonic mode)
    (storeless : mnemonic.stores = false) :
    session.storeTarget = none ∧ (∃ progress, (step session).1 = .ok progress) ∧
      (step session).2.halted = none ∧
      ∀ address, 0x0200 ≤ address → (step session).2.bus.get address = session.bus.get address := by
  have target : session.storeTarget = none := by
    unfold storeTarget
    rw [decoded]
    exact if_neg (Bool.eq_false_iff.mp storeless)
  have executed := step_of_official session running decoded
  refine ⟨target, ⟨_, congrArg Prod.fst executed⟩, ?_, ?_⟩
  · rw [executed]
    exact running
  · intro address above
    apply step_keeps session running
    · simp [target]
    · intro offset below
      exact Word.above_stack _ above

end Session

end Nmos6502
