import Nmos6502.Bus.Flat
import Nmos6502.Session.Script
import Nmos6502.Proofs.Step

/-!
When a running session traps and what the trap leaves behind: the trap itself and, of all that
the step had begun, only the reads of the opcode.
-/

namespace Nmos6502.Session

variable {M H O : Type} [Bus M] [ExtensionHandler H] [TraceObserver O]

theorem step_error_iff_illegal (session : Session M H O) (running : session.halted = none) :
    (∃ trap, (step session).1 = .error trap) ↔ session.instruction = .illegal := by
  constructor
  · rintro ⟨trap, failed⟩
    by_cases illegal : session.instruction = .illegal
    · exact illegal
    · obtain ⟨progress, succeeded, -⟩ := step_of_legal session running illegal
      rw [succeeded] at failed
      cases failed
  · intro illegal
    rw [step_of_illegal session running illegal]
    exact ⟨_, rfl⟩

/-- The byte that is fetched decides. For a byte without an instruction the step puts the
program counter back, however the fetch moved it, and leaves everything a program or a handler
could notice as it was; of the bus it has asked for the opcode, and before that for the opcode of
the snapshot if tracing is on. For any other byte the step succeeds and is counted. -/
theorem step_traps_exactly (session : Session M H O) (running : session.halted = none) :
    let opcode := session.fetchedOpcode
    let next := (step session).2
    ((∃ trap, (step session).1 = .error trap) ↔
      (∀ official ∈ officialOpcodes, official.code ≠ opcode) ∧ opcode ≠ 0xFF) ∧
    (∀ trap, (step session).1 = .error trap →
      trap = .illegalOpcode opcode session.registers.pc ∧ next.halted = some trap ∧
      next.registers = session.registers ∧ next.tracing = session.tracing ∧
      next.config = session.config ∧ next.instructions = session.instructions ∧
      next.handler = session.handler ∧
      next.bus = (Bus.read session.registers.pc session.busAtFetch).2) ∧
    (∀ progress, (step session).1 = .ok progress →
      next.halted = none ∧
      (session.instructions.toNat < UInt64.size - 1 →
        next.instructions.toNat = session.instructions.toNat + 1)) := by
  intro opcode next
  refine ⟨?_, ?_, ?_⟩
  · rw [step_error_iff_illegal session running]
    exact Instruction.decode_illegal_iff opcode
  · intro trap failed
    have illegal := (step_error_iff_illegal session running).mp ⟨trap, failed⟩
    have trapped := step_of_illegal session running illegal
    rw [trapped] at failed
    have same : .illegalOpcode opcode session.registers.pc = trap := Except.error.inj failed
    subst same
    refine ⟨rfl, ?_, ?_, ?_, ?_, ?_, ?_, ?_⟩ <;> simp only [next, trapped] <;> rfl
  · intro progress succeeded
    have legal := (step_ok_iff_legal session running).mp ⟨progress, succeeded⟩
    obtain ⟨_, _, still, counted, -⟩ := step_of_legal session running legal
    refine ⟨still, ?_⟩
    intro room
    unfold UInt64.size at room
    change (step session).2.instructions.toNat = _
    have one : (1 : UInt64).toNat = 1 := rfl
    rw [counted, UInt64.toNat_add, one]
    omega

/-- The fetch has wrapped to `$0000` when the trap at the top of memory is found. -/
theorem step_traps_at_top_of_memory :
    let fresh : Session FlatMemory Script (Array Snapshot) :=
      Session.start (FlatMemory.ofFn fun _ => 0x02) 0xFFFF { tracing := true }
    let handler : Script := { respond := fun _ accumulator => accumulator }
    let session : Session FlatMemory Script (Array Snapshot) :=
      { fresh with observer := some #[], handler := some handler }
    session.halted = none ∧
      (step session).1 = .error (.illegalOpcode 0x02 0xFFFF) ∧
      (step session).2.registers.pc = 0xFFFF ∧ (step session).2.instructions = 0 := by
  intro fresh handler session
  have running : session.halted = none := rfl
  have opcode : session.fetchedOpcode = 0x02 :=
    FlatMemory.get_of_fn (fun _ => 0x02) 0xFFFF
  obtain ⟨traps, trapped, -⟩ := step_traps_exactly session running
  rw [opcode] at traps trapped
  obtain ⟨trap, failed⟩ := traps.mpr (by decide +kernel)
  obtain ⟨same, -, registers, -, -, counted, -⟩ := trapped trap failed
  refine ⟨running, ?_, ?_, ?_⟩
  · rw [failed, same]
    rfl
  · rw [registers]
    rfl
  · rw [counted]
    rfl

end Nmos6502.Session
