import Nmos6502.Proofs.Footprint
import Nmos6502.Proofs.Shifts

/-!
Which instructions change a flag, and what N and Z tell of. Most instructions leave a byte in a
register or at their operand, and N and Z tell of this byte. Comparisons leave none, BIT takes N and
V from memory, and PLP and RTI take every flag from the stack.
-/

namespace Nmos6502

/-- The instructions under which the flag changes. -/
def Flag.writers : Flag → List Mnemonic
  | .overflow => [.adc, .sbc, .bit, .clv, .plp, .rti]
  | .carry =>
      [.adc, .sbc, .cmp, .cpx, .cpy, .asl, .lsr, .rol, .ror, .clc, .sec, .plp, .rti]
  | .decimal => [.cld, .sed, .plp, .rti]
  | .interruptDisable => [.cli, .sei, .brk, .plp, .rti]
  | .negative | .zero =>
      [.lda, .ldx, .ldy, .tax, .tay, .txa, .tya, .tsx, .pla, .and, .ora, .eor, .adc, .sbc, .cmp,
        .cpx, .cpy, .bit, .asl, .lsr, .rol, .ror, .inc, .dec, .inx, .iny, .dex, .dey, .plp, .rti]

/-- Z says whether the byte is zero, and N is its top bit. -/
structure Flags.TellOf (flags : Flags) (byte : Byte) : Prop where
  zero : flags.zero = (byte == 0)
  negative : flags.negative = byte.toNat.testBit 7

theorem Flags.set_nz_tells (flags : Flags) (byte : Byte) : (flags.setNZ byte).TellOf byte :=
  ⟨rfl, Alu.sign_eq_test_bit byte⟩

/-- The bit below the sign. -/
theorem Bytes.second_bit_eq_test_bit (byte : Byte) :
    (byte &&& 0x40 != 0) = byte.toNat.testBit 6 := by
  revert byte
  apply byte_of_codes
  decide +kernel

/-- Where an instruction leaves a byte. -/
inductive Destination where
  | register (loaded : ByteRegister)
  | operand
  deriving DecidableEq

def Destination.writers : Destination → List Mnemonic
  | .register loaded => loaded.writers
  | .operand => [.asl, .lsr, .rol, .ror, .inc, .dec]

/-- The operation leaves a byte in the register, and N and Z tell of it. -/
def Operation.Tells (register : ByteRegister) : Operation → Prop
  | .load effect | .pull effect => ∀ value registers,
      (effect value registers).flags.TellOf (register.get (effect value registers))
  | .internal effect => ∀ registers,
      (effect registers).flags.TellOf (register.get (effect registers))
  | _ => False

namespace Mnemonic

variable {mnemonic : Mnemonic}

theorem keeps_flag {flag : Flag} (other : mnemonic ∉ flag.writers) (mode : Mode) :
    mnemonic.operation.Keeps (fun registers => registers.flags.get flag) mode := by
  -- The instructions of a case have one shape and change the same flags.
  cases mnemonic with
  | lda | ldx | ldy | and | ora | eor =>
      intro value registers
      cases flag with
      | negative | zero => exact absurd (by decide) other
      | _ => rfl
  | pla =>
      refine ⟨fun registers sp => rfl, ?_⟩
      intro value registers
      cases flag with
      | negative | zero => exact absurd (by decide) other
      | _ => rfl
  | adc | sbc =>
      intro value registers
      cases flag with
      | negative | overflow | zero | carry => exact absurd (by decide) other
      | _ => rfl
  | cmp | cpx | cpy =>
      intro value registers
      cases flag with
      | negative | zero | carry => exact absurd (by decide) other
      | _ => rfl
  | bit =>
      intro value registers
      cases flag with
      | negative | overflow | zero => exact absurd (by decide) other
      | _ => rfl
  | inx | iny | dex | dey | tax | tay | txa | tya | tsx =>
      intro registers
      cases flag with
      | negative | zero => exact absurd (by decide) other
      | _ => rfl
  | asl | lsr | rol | ror =>
      refine ⟨fun form registers value => rfl, ?_⟩
      intro value registers
      cases flag with
      | negative | zero | carry => exact absurd (by decide) other
      | _ => rfl
  | inc | dec =>
      refine ⟨fun form registers value => rfl, ?_⟩
      intro value registers
      cases flag with
      | negative | zero => exact absurd (by decide) other
      | _ => rfl
  | clc | sec =>
      intro registers
      cases flag with
      | carry => exact absurd (by decide) other
      | _ => rfl
  | cld | sed =>
      intro registers
      cases flag with
      | decimal => exact absurd (by decide) other
      | _ => rfl
  | cli | sei =>
      intro registers
      cases flag with
      | interruptDisable => exact absurd (by decide) other
      | _ => rfl
  | brk =>
      refine ⟨fun registers sp => rfl, ?_⟩
      intro registers
      cases flag with
      | interruptDisable => exact absurd (by decide) other
      | _ => rfl
  | clv =>
      intro registers
      cases flag with
      | overflow => exact absurd (by decide) other
      | _ => rfl
  | plp | rti => cases flag <;> exact absurd (by decide) other
  | txs | nop => exact fun registers => rfl
  | sta | stx | sty => exact fun form registers value => rfl
  | pha | php | jsr | rts => exact fun registers sp => rfl
  | _ => trivial

theorem register_told {register : ByteRegister} (member : mnemonic ∈ register.writers) :
    mnemonic.operation.Tells register := by
  cases register with
  | a =>
      cases mnemonic with
      | lda | pla | adc | sbc | and | ora | eor =>
          exact fun value registers => Flags.set_nz_tells _ _
      | txa | tya => exact fun registers => Flags.set_nz_tells _ _
      | _ => exact absurd member (by decide)
  | x =>
      cases mnemonic with
      | ldx => exact fun value registers => Flags.set_nz_tells _ _
      | tax | tsx | inx | dex => exact fun registers => Flags.set_nz_tells _ _
      | _ => exact absurd member (by decide)
  | y =>
      cases mnemonic with
      | ldy => exact fun value registers => Flags.set_nz_tells _ _
      | tay | iny | dey => exact fun registers => Flags.set_nz_tells _ _
      | _ => exact absurd member (by decide)

theorem operand_told (member : mnemonic ∈ Destination.operand.writers) :
    ∃ effect, mnemonic.operation = .modify effect ∧
      ∀ value flags, (effect value flags).2.TellOf (effect value flags).1 := by
  cases mnemonic with
  | asl | lsr | rol | ror | inc | dec =>
      exact ⟨_, rfl, fun value flags => Flags.set_nz_tells _ _⟩
  | _ => exact absurd member (by decide)

/-- N and Z tell of a byte that is left somewhere, or the instruction is one of these. -/
theorem destination_of_writer (writes : mnemonic ∈ Flag.zero.writers)
    (leaves : mnemonic ∉ [.cmp, .cpx, .cpy, .bit, .plp, .rti]) :
    ∃ destination : Destination, mnemonic ∈ destination.writers := by
  cases mnemonic with
  | lda | txa | tya | pla | adc | sbc | and | ora | eor => exact ⟨.register .a, by decide⟩
  | ldx | tax | tsx | inx | dex => exact ⟨.register .x, by decide⟩
  | ldy | tay | iny | dey => exact ⟨.register .y, by decide⟩
  | asl | lsr | rol | ror | inc | dec => exact ⟨.operand, by decide⟩
  | cmp | cpx | cpy | bit | plp | rti => exact absurd (by decide) leaves
  | _ => exact absurd writes (by decide)

end Mnemonic

theorem Processor.perform_tells {M : Type} [Bus M] (wraps : Bool) (mode : Mode)
    {register : ByteRegister} {operation : Operation} (tells : operation.Tells register)
    (processor : Processor M) :
    let registers := (perform wraps mode operation processor).2.registers
    registers.flags.TellOf (register.get registers) := by
  cases operation with
  | load effect =>
      rw [perform_load]
      exact tells _ _
  | pull effect => exact tells _ _
  | internal effect => exact tells _
  | _ => exact absurd tells id

namespace Session

variable {M H O : Type} [Bus M] [ExtensionHandler H] [TraceObserver O]
variable (session : Session M H O)

/-- The byte that the step leaves at the destination. -/
def delivered : Destination → Byte
  | .register loaded => loaded.get (step session).2.registers
  | .operand => session.written

/-- N and Z tell of the byte that the step leaves at the destination. -/
structure Delivers (destination : Destination) : Prop where
  told : (step session).2.registers.flags.TellOf (session.delivered destination)
  left : destination = .operand → session.Leaves session.written

variable {session}

theorem delivers_of_performs {mnemonic : Mnemonic} {destination : Destination}
    (member : mnemonic ∈ destination.writers) (performs : session.Performs mnemonic) :
    session.Delivers destination := by
  cases destination with
  | register loaded =>
      refine ⟨?_, fun other => by cases other⟩
      obtain ⟨running, mode, decoded⟩ := performs
      rw [delivered, step_of_official session running decoded]
      exact Processor.perform_tells _ mode (Mnemonic.register_told member) session.fetched.processor
  | operand =>
      obtain ⟨effect, modifies, tells⟩ := Mnemonic.operand_told member
      refine ⟨?_, fun _ => modify_leaves performs modifies⟩
      rw [delivered, flags_of_modify performs modifies,
        written_of_modify performs.executes modifies]
      exact tells _ _

theorem performs_of_flag_changed {flag : Flag}
    (changed : (step session).2.registers.flags.get flag ≠ session.registers.flags.get flag) :
    ∃ mnemonic ∈ flag.writers, session.Performs mnemonic := by
  have moved : Registers.SparesPC fun registers => registers.flags.get flag :=
    fun registers pc => rfl
  apply performs_of_changed moved session
  · exact fun registers a => rfl
  · exact fun mnemonic mode other => Mnemonic.keeps_flag other mode
  · exact changed

theorem flag_of_run {flag : Flag} {count : Nat}
    (unwritten : ∀ mnemonic ∈ session.executed count, mnemonic ∉ flag.writers) :
    (session.after count).registers.flags.get flag = session.registers.flags.get flag := by
  induction count with
  | zero => rfl
  | succ count induction =>
      have before := induction fun mnemonic member =>
        unwritten mnemonic (List.mem_append_left _ member)
      by_contra changed
      rw [after, ← before] at changed
      obtain ⟨mnemonic, writer, performs⟩ := performs_of_flag_changed changed
      have last : mnemonic ∈ (session.after count).executing?.toList :=
        Option.mem_toList.mpr ((executing_iff _ mnemonic).mpr performs)
      exact unwritten mnemonic (List.mem_append_right _ last) writer

theorem interrupt_disable_of_brk (performs : session.Performs .brk) :
    (step session).2.registers.flags.interruptDisable = true := by
  obtain ⟨running, mode, decoded⟩ := performs
  rw [step_of_official session running decoded]
  rfl

theorem flags_of_bit (performs : session.Performs .bit) :
    (step session).2.registers.flags =
      Alu.testBits session.registers.a session.operandByte session.registers.flags := by
  obtain ⟨registers, -⟩ := step_of_load performs rfl
  rw [registers]
  rfl

/-- A flag changes under its instructions alone, and BRK sets I. Where one of them leaves a byte in
a register or at its operand, Z and N tell of this byte, and after BIT they and V tell of the byte
that the bus answers at the operand, which in plain memory is where the mode computes it to be. So a
flag keeps its value over a run that performs none of its instructions. -/
theorem flags_change_under_their_instructions (session : Session M H O) :
    (∀ flag : Flag,
      (step session).2.registers.flags.get flag ≠ session.registers.flags.get flag →
        ∃ mnemonic ∈ flag.writers, session.Performs mnemonic) ∧
    (session.Performs .brk → (step session).2.registers.flags.interruptDisable = true) ∧
    (∀ mnemonic ∈ Flag.zero.writers, mnemonic ∉ [.cmp, .cpx, .cpy, .bit, .plp, .rti] →
      session.Performs mnemonic →
        ∃ destination : Destination, mnemonic ∈ destination.writers ∧
          session.Delivers destination) ∧
    (session.Performs .bit →
      let flags := (step session).2.registers.flags
      session.OperandAnswered ∧
        flags.zero = (session.registers.a &&& session.operandByte == 0) ∧
        flags.negative = session.operandByte.toNat.testBit 7 ∧
        flags.overflow = session.operandByte.toNat.testBit 6) ∧
    (∀ flat : Session FlatMemory H O, flat.operandByte = flat.operandValue) ∧
    ∀ (flag : Flag) (count : Nat),
      (∀ mnemonic ∈ session.executed count, mnemonic ∉ flag.writers) →
        (session.after count).registers.flags.get flag = session.registers.flags.get flag := by
  refine ⟨fun flag => performs_of_flag_changed, interrupt_disable_of_brk, ?tells, ?bits,
    operand_byte_on_flat, fun flag count => flag_of_run⟩
  case tells =>
    intro mnemonic writes leaves performs
    obtain ⟨destination, member⟩ := Mnemonic.destination_of_writer writes leaves
    exact ⟨destination, member, delivers_of_performs member performs⟩
  case bits =>
    intro performs flags
    have tested : flags = _ := flags_of_bit performs
    rw [tested]
    exact ⟨operand_answered performs rfl, rfl, Alu.sign_eq_test_bit _,
      Bytes.second_bit_eq_test_bit _⟩

/-- `LDA #$80` changes N and keeps D, `BIT $10` finds bits 7 and 6 in its cell, both of them common
to A, and I is set after BRK. -/
theorem load_test_and_break_flags :
    let idle : Session FlatMemory Empty Empty :=
      (performAll [.write 0x0010 0xC0] (start .blank 0x0600 {})).2
    let loading := idle.prepared 0xA9 0x80 0x00
    let testing := idle.prepared 0x24 0x10 0xFF
    let breaking := idle.prepared 0x00 0x00 0x00
    (loading.executed 1 = [.lda] ∧ loading.Delivers (.register .a) ∧
      (loading.after 1).registers.flags.get .negative ≠ loading.registers.flags.get .negative ∧
      (∃ mnemonic ∈ Flag.negative.writers, loading.Performs mnemonic) ∧
      (loading.after 1).registers.flags.get .decimal = true) ∧
    (testing.Performs .bit ∧ testing.OperandAnswered ∧ testing.operandValue = 0xC0 ∧
      (step testing).2.registers.flags.zero = false ∧
      (step testing).2.registers.flags.negative = true ∧
      (step testing).2.registers.flags.overflow = true) ∧
    breaking.Performs .brk ∧ (step breaking).2.registers.flags.interruptDisable = true := by
  intro idle loading testing breaking
  have decodes : Instruction.decode 0xA9 = .official .lda .immediate ∧
      Instruction.decode 0x24 = .official .bit .zeroPage ∧
      Instruction.decode 0x00 = .official .brk .implicit := by
    simp only [Instruction.decode_official_iff]
    decide +kernel
  obtain ⟨lda, bit, brk⟩ := decodes
  have loads : loading.Performs .lda := prepared_performs _ _ _ idle rfl lda
  have tests : testing.Performs .bit := prepared_performs _ _ _ idle rfl bit
  have breaks : breaking.Performs .brk := prepared_performs _ _ _ idle rfl brk
  have loaded : loading.operandByte = 0x80 := prepared_operand _ _ _ idle lda
  have cell : testing.bus.get (Word.zeroPage 0x10) = 0xC0 :=
    (prepared_cell _ _ _ idle (by decide) (by decide)).trans (FlatMemory.get_set_same _ _ _)
  have tested : testing.operandByte = 0xC0 :=
    (prepared_zero_page 0x24 0x10 0xFF idle bit).trans cell
  have a : testing.registers.a = 0xFF := rfl
  have positive : loading.registers.flags.get .negative = false := rfl
  have decimal : loading.registers.flags.get .decimal = true := rfl
  clear_value loading testing breaking
  have executed : loading.executed 1 = [.lda] := by
    rw [Session.executed, Session.executed, after, (executing_iff loading .lda).mpr loads]
    rfl
  obtain ⟨changes, -, tells, -, -, keeps⟩ := flags_change_under_their_instructions loading
  obtain ⟨-, -, -, bits, computed, -⟩ := flags_change_under_their_instructions testing
  obtain ⟨-, disables, -⟩ := flags_change_under_their_instructions breaking
  obtain ⟨destination, member, delivers⟩ := tells .lda (by decide) (by decide) loads
  have place : destination = .register .a := by
    cases destination with
    | operand => exact absurd member (by decide)
    | register loaded =>
        cases loaded with
        | a => rfl
        | x | y => exact absurd member (by decide)
  rw [place] at delivers
  have delivered : loading.delivered (.register .a) = 0x80 := by
    obtain ⟨registers, -⟩ := step_of_load loads rfl
    rw [Session.delivered, registers, loaded]
    rfl
  have negative : (step loading).2.registers.flags.negative = true := by
    rw [delivers.told.negative, delivered]
    decide
  have ran : loading.after 1 = (step loading).2 := by rw [after, after]
  have changed : (step loading).2.registers.flags.get .negative ≠
      loading.registers.flags.get .negative := by
    rw [positive, Flags.get, negative]
    decide
  have kept : (loading.after 1).registers.flags.get .decimal = true := by
    rw [← decimal]
    apply keeps
    rw [executed]
    decide
  obtain ⟨answered, zero, seventh, sixth⟩ := bits tests
  rw [tested, a] at zero
  rw [tested] at seventh sixth
  rw [ran] at kept ⊢
  exact ⟨⟨executed, delivers, changed, changes .negative changed, kept⟩,
    ⟨tests, answered, (computed testing).symm.trans tested, zero, seventh, sixth⟩, breaks,
    disables breaks⟩

end Session

end Nmos6502
