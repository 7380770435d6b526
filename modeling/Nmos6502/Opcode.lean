import Nmos6502.Word
import Nmos6502.Mnemonic
import Nmos6502.Mode

/-!
What each of the 256 opcode bytes stands for. 151 are the documented instructions, `$FF`
is kept for the host, and the rest are illegal. `decode` looks the answer up in a table
made from the list of documented opcodes.
-/

namespace Nmos6502

structure Opcode where
  code : Byte
  mnemonic : Mnemonic
  mode : Mode
  deriving DecidableEq, Repr

/-- The documented opcodes in ascending order of their codes. -/
def officialOpcodes : List Opcode :=
  [⟨0x00, .brk, .implicit⟩, ⟨0x01, .ora, .indirectX⟩, ⟨0x05, .ora, .zeroPage⟩,
    ⟨0x06, .asl, .zeroPage⟩, ⟨0x08, .php, .implicit⟩, ⟨0x09, .ora, .immediate⟩,
    ⟨0x0A, .asl, .accumulator⟩, ⟨0x0D, .ora, .absolute⟩, ⟨0x0E, .asl, .absolute⟩,
    ⟨0x10, .bpl, .relative⟩, ⟨0x11, .ora, .indirectY⟩, ⟨0x15, .ora, .zeroPageX⟩,
    ⟨0x16, .asl, .zeroPageX⟩, ⟨0x18, .clc, .implicit⟩, ⟨0x19, .ora, .absoluteY⟩,
    ⟨0x1D, .ora, .absoluteX⟩, ⟨0x1E, .asl, .absoluteX⟩, ⟨0x20, .jsr, .absolute⟩,
    ⟨0x21, .and, .indirectX⟩, ⟨0x24, .bit, .zeroPage⟩, ⟨0x25, .and, .zeroPage⟩,
    ⟨0x26, .rol, .zeroPage⟩, ⟨0x28, .plp, .implicit⟩, ⟨0x29, .and, .immediate⟩,
    ⟨0x2A, .rol, .accumulator⟩, ⟨0x2C, .bit, .absolute⟩, ⟨0x2D, .and, .absolute⟩,
    ⟨0x2E, .rol, .absolute⟩, ⟨0x30, .bmi, .relative⟩, ⟨0x31, .and, .indirectY⟩,
    ⟨0x35, .and, .zeroPageX⟩, ⟨0x36, .rol, .zeroPageX⟩, ⟨0x38, .sec, .implicit⟩,
    ⟨0x39, .and, .absoluteY⟩, ⟨0x3D, .and, .absoluteX⟩, ⟨0x3E, .rol, .absoluteX⟩,
    ⟨0x40, .rti, .implicit⟩, ⟨0x41, .eor, .indirectX⟩, ⟨0x45, .eor, .zeroPage⟩,
    ⟨0x46, .lsr, .zeroPage⟩, ⟨0x48, .pha, .implicit⟩, ⟨0x49, .eor, .immediate⟩,
    ⟨0x4A, .lsr, .accumulator⟩, ⟨0x4C, .jmp, .absolute⟩, ⟨0x4D, .eor, .absolute⟩,
    ⟨0x4E, .lsr, .absolute⟩, ⟨0x50, .bvc, .relative⟩, ⟨0x51, .eor, .indirectY⟩,
    ⟨0x55, .eor, .zeroPageX⟩, ⟨0x56, .lsr, .zeroPageX⟩, ⟨0x58, .cli, .implicit⟩,
    ⟨0x59, .eor, .absoluteY⟩, ⟨0x5D, .eor, .absoluteX⟩, ⟨0x5E, .lsr, .absoluteX⟩,
    ⟨0x60, .rts, .implicit⟩, ⟨0x61, .adc, .indirectX⟩, ⟨0x65, .adc, .zeroPage⟩,
    ⟨0x66, .ror, .zeroPage⟩, ⟨0x68, .pla, .implicit⟩, ⟨0x69, .adc, .immediate⟩,
    ⟨0x6A, .ror, .accumulator⟩, ⟨0x6C, .jmp, .indirect⟩, ⟨0x6D, .adc, .absolute⟩,
    ⟨0x6E, .ror, .absolute⟩, ⟨0x70, .bvs, .relative⟩, ⟨0x71, .adc, .indirectY⟩,
    ⟨0x75, .adc, .zeroPageX⟩, ⟨0x76, .ror, .zeroPageX⟩, ⟨0x78, .sei, .implicit⟩,
    ⟨0x79, .adc, .absoluteY⟩, ⟨0x7D, .adc, .absoluteX⟩, ⟨0x7E, .ror, .absoluteX⟩,
    ⟨0x81, .sta, .indirectX⟩, ⟨0x84, .sty, .zeroPage⟩, ⟨0x85, .sta, .zeroPage⟩,
    ⟨0x86, .stx, .zeroPage⟩, ⟨0x88, .dey, .implicit⟩, ⟨0x8A, .txa, .implicit⟩,
    ⟨0x8C, .sty, .absolute⟩, ⟨0x8D, .sta, .absolute⟩, ⟨0x8E, .stx, .absolute⟩,
    ⟨0x90, .bcc, .relative⟩, ⟨0x91, .sta, .indirectY⟩, ⟨0x94, .sty, .zeroPageX⟩,
    ⟨0x95, .sta, .zeroPageX⟩, ⟨0x96, .stx, .zeroPageY⟩, ⟨0x98, .tya, .implicit⟩,
    ⟨0x99, .sta, .absoluteY⟩, ⟨0x9A, .txs, .implicit⟩, ⟨0x9D, .sta, .absoluteX⟩,
    ⟨0xA0, .ldy, .immediate⟩, ⟨0xA1, .lda, .indirectX⟩, ⟨0xA2, .ldx, .immediate⟩,
    ⟨0xA4, .ldy, .zeroPage⟩, ⟨0xA5, .lda, .zeroPage⟩, ⟨0xA6, .ldx, .zeroPage⟩,
    ⟨0xA8, .tay, .implicit⟩, ⟨0xA9, .lda, .immediate⟩, ⟨0xAA, .tax, .implicit⟩,
    ⟨0xAC, .ldy, .absolute⟩, ⟨0xAD, .lda, .absolute⟩, ⟨0xAE, .ldx, .absolute⟩,
    ⟨0xB0, .bcs, .relative⟩, ⟨0xB1, .lda, .indirectY⟩, ⟨0xB4, .ldy, .zeroPageX⟩,
    ⟨0xB5, .lda, .zeroPageX⟩, ⟨0xB6, .ldx, .zeroPageY⟩, ⟨0xB8, .clv, .implicit⟩,
    ⟨0xB9, .lda, .absoluteY⟩, ⟨0xBA, .tsx, .implicit⟩, ⟨0xBC, .ldy, .absoluteX⟩,
    ⟨0xBD, .lda, .absoluteX⟩, ⟨0xBE, .ldx, .absoluteY⟩, ⟨0xC0, .cpy, .immediate⟩,
    ⟨0xC1, .cmp, .indirectX⟩, ⟨0xC4, .cpy, .zeroPage⟩, ⟨0xC5, .cmp, .zeroPage⟩,
    ⟨0xC6, .dec, .zeroPage⟩, ⟨0xC8, .iny, .implicit⟩, ⟨0xC9, .cmp, .immediate⟩,
    ⟨0xCA, .dex, .implicit⟩, ⟨0xCC, .cpy, .absolute⟩, ⟨0xCD, .cmp, .absolute⟩,
    ⟨0xCE, .dec, .absolute⟩, ⟨0xD0, .bne, .relative⟩, ⟨0xD1, .cmp, .indirectY⟩,
    ⟨0xD5, .cmp, .zeroPageX⟩, ⟨0xD6, .dec, .zeroPageX⟩, ⟨0xD8, .cld, .implicit⟩,
    ⟨0xD9, .cmp, .absoluteY⟩, ⟨0xDD, .cmp, .absoluteX⟩, ⟨0xDE, .dec, .absoluteX⟩,
    ⟨0xE0, .cpx, .immediate⟩, ⟨0xE1, .sbc, .indirectX⟩, ⟨0xE4, .cpx, .zeroPage⟩,
    ⟨0xE5, .sbc, .zeroPage⟩, ⟨0xE6, .inc, .zeroPage⟩, ⟨0xE8, .inx, .implicit⟩,
    ⟨0xE9, .sbc, .immediate⟩, ⟨0xEA, .nop, .implicit⟩, ⟨0xEC, .cpx, .absolute⟩,
    ⟨0xED, .sbc, .absolute⟩, ⟨0xEE, .inc, .absolute⟩, ⟨0xF0, .beq, .relative⟩,
    ⟨0xF1, .sbc, .indirectY⟩, ⟨0xF5, .sbc, .zeroPageX⟩, ⟨0xF6, .inc, .zeroPageX⟩,
    ⟨0xF8, .sed, .implicit⟩, ⟨0xF9, .sbc, .absoluteY⟩, ⟨0xFD, .sbc, .absoluteX⟩,
    ⟨0xFE, .inc, .absoluteX⟩]

/-- The opcode that calls the host; the byte after it says what for. -/
def extensionOpcode : Byte := 0xFF

inductive Instruction where
  | official (mnemonic : Mnemonic) (mode : Mode)
  | extension
  | illegal
  deriving DecidableEq, Repr, Inhabited

namespace Instruction

def ofCode (code : Byte) : Instruction :=
  match officialOpcodes.find? (fun opcode => opcode.code == code) with
  | some opcode => .official opcode.mnemonic opcode.mode
  | none => if code = extensionOpcode then .extension else .illegal

def table : Vector Instruction 256 := Vector.ofFn fun index => ofCode (UInt8.ofNat index.val)

def decode (code : Byte) : Instruction :=
  have bound : code.toNat < 256 := code.toNat_lt
  table[code.toNat]

def spelling : Instruction → String
  | .official mnemonic _ => mnemonic.spelling
  | .extension => "EXT"
  | .illegal => "???"

/-- The operation byte of the extension follows it as an immediate operand would. -/
def mode : Instruction → Mode
  | .official _ mode => mode
  | .extension => .immediate
  | .illegal => .implicit

/-- BRK is followed by a padding byte that its mode does not count. -/
def size : Instruction → Nat
  | .official .brk _ => 2
  | .official _ mode => 1 + mode.operandBytes
  | .extension => 2
  | .illegal => 1

def isOfficial : Instruction → Bool
  | .official _ _ => true
  | _ => false

theorem decode_eq_of_code (code : Byte) : decode code = ofCode code := by
  simp [decode, table]

theorem official_codes_ascending :
    (officialOpcodes.map fun opcode => opcode.code.toNat).Pairwise (· < ·) := by
  decide +kernel

theorem find_code_of_mem {opcodes : List Opcode}
    (ascending : (opcodes.map fun opcode => opcode.code.toNat).Pairwise (· < ·))
    {opcode : Opcode} (member : opcode ∈ opcodes) :
    opcodes.find? (fun other => other.code == opcode.code) = some opcode := by
  induction opcodes with
  | nil => cases member
  | cons first rest induction =>
      rw [List.map_cons, List.pairwise_cons] at ascending
      rw [List.find?_cons]
      rcases List.mem_cons.mp member with same | later
      · rw [same]
        simp
      · have below := ascending.1 opcode.code.toNat
          (List.mem_map_of_mem (f := fun opcode : Opcode => opcode.code.toNat) later)
        have apart : first.code ≠ opcode.code := by
          intro same
          rw [same] at below
          exact Nat.lt_irrefl _ below
        rw [beq_false_of_ne apart]
        exact induction ascending.2 later

/-- Every code that is not in the list and is not kept for the host is illegal. -/
theorem decode_illegal_iff (code : Byte) :
    decode code = .illegal ↔
      (∀ opcode ∈ officialOpcodes, opcode.code ≠ code) ∧ code ≠ extensionOpcode := by
  rw [decode_eq_of_code, ofCode]
  cases found : officialOpcodes.find? (fun opcode => opcode.code == code) with
  | some opcode =>
      have member := List.mem_of_find?_eq_some found
      have same : opcode.code = code := by simpa using List.find?_some found
      simp only [reduceCtorEq, false_iff, not_and]
      intro absent
      exact absurd same (absent opcode member)
  | none =>
      have absent : ∀ opcode ∈ officialOpcodes, opcode.code ≠ code := by
        simpa using List.find?_eq_none.mp found
      by_cases extension : code = extensionOpcode
      · simp [extension]
      · simp only [if_neg extension, true_iff]
        exact ⟨absent, extension⟩

theorem decode_extension_iff (code : Byte) :
    decode code = .extension ↔ code = extensionOpcode := by
  constructor
  · intro decoded
    rw [decode_eq_of_code, ofCode] at decoded
    split at decoded
    · cases decoded
    · split at decoded
      · assumption
      · cases decoded
  · rintro rfl
    exact (decode_eq_of_code extensionOpcode).trans (by decide +kernel)

theorem decode_official_iff (code : Byte) (mnemonic : Mnemonic) (mode : Mode) :
    decode code = .official mnemonic mode ↔ ⟨code, mnemonic, mode⟩ ∈ officialOpcodes := by
  rw [decode_eq_of_code, ofCode]
  constructor
  · intro decoded
    cases found : officialOpcodes.find? (fun opcode => opcode.code == code) with
    | some opcode =>
        have member := List.mem_of_find?_eq_some found
        have same : opcode.code = code := by simpa using List.find?_some found
        simp only [found, official.injEq] at decoded
        rw [← same, ← decoded.1, ← decoded.2]
        exact member
    | none =>
        simp only [found] at decoded
        split at decoded <;> simp at decoded
  · intro member
    rw [find_code_of_mem official_codes_ascending member]

end Instruction

end Nmos6502
