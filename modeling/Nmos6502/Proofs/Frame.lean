import Nmos6502.Proofs.Execution

/-!
What an instruction leaves alone. An operation keeps a field of the registers if what it makes of
registers keeps it, wherever its operand comes from and whatever the bus answers. The program
counter moves with every operand, so the field is not about it.
-/

namespace Nmos6502

section

variable {Value : Type} (field : Registers → Value)

def Registers.SparesPC : Prop := ∀ registers pc, field { registers with pc := pc } = field registers

def Registers.SparesSP : Prop := ∀ registers sp, field { registers with sp := sp } = field registers

def Registers.SparesA : Prop := ∀ registers a, field { registers with a := a } = field registers

/-- Nothing of the field is lost when the operand of the mode is written to. -/
def Mode.Spares (mode : Mode) : Prop :=
  mode = .implicit ∨ mode = .accumulator → Registers.SparesA field

/-- The operation leaves the field as it was, if the field is not about the program counter. -/
def Operation.Keeps (mode : Mode) : Operation → Prop
  | .load effect => ∀ value registers, field (effect value registers) = field registers
  | .store _ => mode.Spares field
  | .modify effect => mode.Spares field ∧ ∀ value registers,
      field { registers with flags := (effect value registers.flags).2 } = field registers
  | .branch _ | .jump => True
  | .internal effect => ∀ registers, field (effect registers) = field registers
  | .push _ | .callSubroutine | .returnFromSubroutine => Registers.SparesSP field
  | .pull effect => Registers.SparesSP field ∧ ∀ value registers,
      field (effect value registers) = field registers
  | .softwareInterrupt => Registers.SparesSP field ∧ ∀ registers,
      field (registers.setFlag .interruptDisable true) = field registers
  | .returnFromInterrupt => Registers.SparesSP field ∧ ∀ status registers,
      field (Operation.loadFlags status registers) = field registers

end

namespace Processor

variable {M Value : Type} [Bus M] {field : Registers → Value} (wraps : Bool)

theorem write_operand_spared {operand : Operand}
    (spares : operand = .accumulator → Registers.SparesA field) (value : Byte)
    (processor : Processor M) :
    field (writeOperand operand value processor).2.registers = field processor.registers := by
  cases operand with
  | accumulator => exact spares rfl processor.registers value
  | _ => rfl

theorem mode_of_modified_accumulator {mode : Mode} {processor : Processor M}
    (modified : (resolve wraps mode processor).1.modified = .accumulator) :
    mode = .implicit ∨ mode = .accumulator := by
  cases mode with
  | implicit => exact Or.inl rfl
  | accumulator => exact Or.inr rfl
  | _ => cases modified

theorem perform_keeps (moved : Registers.SparesPC field) {mode : Mode} {operation : Operation}
    (keeps : operation.Keeps field mode) (processor : Processor M) :
    field (perform wraps mode operation processor).2.registers = field processor.registers := by
  have resolved : field (resolve wraps mode processor).2.registers = field processor.registers := by
    rw [resolve_registers]
    exact moved processor.registers _
  have both (still : Registers.SparesSP field) (registers : Registers) (pc : Word) (sp : Byte) :
      field { registers with pc := pc, sp := sp } = field registers :=
    (moved { registers with sp := sp } pc).trans (still registers sp)
  -- Whatever else happens to the registers on the way only moves the two pointers.
  cases operation with
  | load effect =>
      rw [perform_load]
      dsimp only
      rw [keeps, read_operand_registers, resolved]
  | store value =>
      rw [perform_store]
      have spares : (resolve wraps mode processor).1 = .accumulator → Registers.SparesA field := by
        intro operand
        exact keeps (mode_of_modified_accumulator wraps (congrArg Operand.modified operand))
      exact (write_operand_spared spares _ _).trans resolved
  | modify effect =>
      obtain ⟨spares, flags⟩ := keeps
      rw [perform_modify]
      dsimp only
      rw [write_operand_spared fun operand => spares (mode_of_modified_accumulator wraps operand),
        flags, read_operand_registers, resolved]
  | branch taken =>
      rw [perform_branch]
      dsimp only
      split
      · split
        · exact (moved _ _).trans resolved
        · exact resolved
      · exact resolved
  | jump =>
      rw [perform_jump]
      dsimp only
      split
      · exact (moved _ _).trans resolved
      · exact resolved
  | internal effect => exact keeps processor.registers
  | push value => exact keeps processor.registers _
  | callSubroutine | returnFromSubroutine => exact both keeps processor.registers _ _
  | pull effect => exact (keeps.2 _ _).trans (keeps.1 processor.registers _)
  | softwareInterrupt =>
      obtain ⟨still, effect⟩ := keeps
      exact (moved _ _).trans ((effect _).trans (both still processor.registers _ _))
  | returnFromInterrupt =>
      obtain ⟨still, effect⟩ := keeps
      exact (both still _ _ _).trans ((effect _ _).trans (still processor.registers _))

end Processor

end Nmos6502
