import Nmos6502.Proofs.EffectiveAddress
import Nmos6502.Proofs.Observer
import Nmos6502.Proofs.Restore

/-!
What steps change, and under which instructions. A byte register changes under those that leave a
byte in it, and the stack pointer under those that push and pull. Over a run the stack pointer is
accounted for by the instructions executed, and a byte outside the stack is changed only where one
of them stores.
-/

namespace Nmos6502

/-- The registers that instructions load and transfer bytes to. -/
inductive ByteRegister where
  | a
  | x
  | y
  deriving DecidableEq

namespace ByteRegister

def get : ByteRegister → Registers → Byte
  | .a => Registers.a
  | .x => Registers.x
  | .y => Registers.y

/-- The instructions that leave a byte in the register whatever their mode is. -/
def writers : ByteRegister → List Mnemonic
  | .a => [.lda, .txa, .tya, .pla, .adc, .sbc, .and, .ora, .eor]
  | .x => [.ldx, .tax, .tsx, .inx, .dex]
  | .y => [.ldy, .tay, .iny, .dey]

theorem spares_pc (register : ByteRegister) : Registers.SparesPC register.get := by
  intro registers pc
  cases register <;> rfl

theorem spares_sp (register : ByteRegister) : Registers.SparesSP register.get := by
  intro registers sp
  cases register <;> rfl

theorem spares_a {register : ByteRegister} (other : register ≠ .a) :
    Registers.SparesA register.get := by
  intro registers value
  cases register with
  | a => exact absurd rfl other
  | x | y => rfl

end ByteRegister

namespace Mnemonic

variable {mnemonic : Mnemonic}

theorem keeps_register {register : ByteRegister} (other : mnemonic ∉ register.writers) {mode : Mode}
    (spares : mnemonic.stores = true → mode.Spares register.get) :
    mnemonic.operation.Keeps register.get mode := by
  cases mnemonic with
  | lda | adc | sbc | and | ora | eor =>
      intro value registers
      cases register with
      | a => exact absurd (by decide) other
      | x | y => rfl
  | pla =>
      refine ⟨register.spares_sp, ?_⟩
      intro value registers
      cases register with
      | a => exact absurd (by decide) other
      | x | y => rfl
  | txa | tya =>
      intro registers
      cases register with
      | a => exact absurd (by decide) other
      | x | y => rfl
  | ldx =>
      intro value registers
      cases register with
      | x => exact absurd (by decide) other
      | a | y => rfl
  | tax | tsx | inx | dex =>
      intro registers
      cases register with
      | x => exact absurd (by decide) other
      | a | y => rfl
  | ldy =>
      intro value registers
      cases register with
      | y => exact absurd (by decide) other
      | a | x => rfl
  | tay | iny | dey =>
      intro registers
      cases register with
      | y => exact absurd (by decide) other
      | a | x => rfl
  | bit | cmp | cpx | cpy =>
      intro value registers
      cases register <;> rfl
  | txs | clc | sec | cld | sed | cli | sei | clv | nop =>
      intro registers
      cases register <;> rfl
  | brk =>
      refine ⟨register.spares_sp, ?_⟩
      intro registers
      cases register <;> rfl
  | plp | rti =>
      refine ⟨register.spares_sp, ?_⟩
      intro status registers
      cases register <;> rfl
  | sta | stx | sty => exact spares rfl
  | asl | lsr | rol | ror | inc | dec =>
      refine ⟨spares rfl, ?_⟩
      intro value registers
      cases register <;> rfl
  | pha | php | jsr | rts => exact register.spares_sp
  | _ => trivial

/-- How many bytes the instructions push. -/
def pushed (mnemonics : List Mnemonic) : Nat :=
  mnemonics.count .pha + mnemonics.count .php + 2 * mnemonics.count .jsr +
    3 * mnemonics.count .brk

/-- How many bytes the instructions pull. -/
def pulled (mnemonics : List Mnemonic) : Nat :=
  mnemonics.count .pla + mnemonics.count .plp + 2 * mnemonics.count .rts +
    3 * mnemonics.count .rti

theorem pushed_singleton (mnemonic : Mnemonic) : pushed [mnemonic] = mnemonic.pushes := by
  cases mnemonic <;> rfl

theorem pulled_singleton (mnemonic : Mnemonic) : pulled [mnemonic] = mnemonic.pulls := by
  cases mnemonic <;> rfl

theorem pushed_append (first second : List Mnemonic) :
    pushed (first ++ second) = pushed first + pushed second := by
  simp only [pushed, List.count_append]
  omega

theorem pulled_append (first second : List Mnemonic) :
    pulled (first ++ second) = pulled first + pulled second := by
  simp only [pulled, List.count_append]
  omega

theorem store_listed (stores : mnemonic.stores = true) :
    mnemonic ∈ [.sta, .stx, .sty, .inc, .dec, .asl, .lsr, .rol, .ror] := by
  cases mnemonic with
  | sta | stx | sty | inc | dec | asl | lsr | rol | ror => decide
  | _ => cases stores

/-- Only shifts and rotations work on the accumulator as their operand. -/
theorem spares_of_decoded {register : ByteRegister} {code : Byte} {mode : Mode}
    (decoded : Instruction.decode code = .official mnemonic mode)
    (apart : register = .a → mnemonic ∈ [.asl, .lsr, .rol, .ror] → mode ≠ .accumulator)
    (stores : mnemonic.stores = true) : mode.Spares register.get := by
  have listed : ∀ opcode ∈ officialOpcodes, opcode.mnemonic.stores = true →
      opcode.mode ≠ .implicit ∧
        (opcode.mode = .accumulator → opcode.mnemonic ∈ [.asl, .lsr, .rol, .ror]) := by
    decide +kernel
  obtain ⟨explicit, shifts⟩ :=
    listed _ ((Instruction.decode_official_iff code mnemonic mode).mp decoded) stores
  intro form
  by_cases accumulator : register = .a
  · cases form with
    | inl implicit => exact absurd implicit explicit
    | inr same => exact absurd same (apart accumulator (shifts same))
  · exact ByteRegister.spares_a accumulator

end Mnemonic

namespace Session

/-- The same hooks are attached, each left by the one call made to it, if there was one. -/
structure SameHooks {M H O : Type} [ExtensionHandler H] [TraceObserver O]
    (before after : Session M H O) : Prop where
  handler : after.handler = before.handler ∨ ∃ operation accumulator, after.handler =
    before.handler.map fun handler => (ExtensionHandler.call operation accumulator handler).2
  observer : after.observer = before.observer ∨ ∃ snapshot, after.observer =
    before.observer.map (TraceObserver.observe snapshot)

variable {M H O : Type} [Bus M] [ExtensionHandler H] [TraceObserver O]

section

variable {Value : Type} {field : Registers → Value} (moved : Registers.SparesPC field)
  (session : Session M H O)

include moved

theorem field_of_step
    (keeps : ∀ mnemonic mode, session.halted = none →
      session.instruction = .official mnemonic mode → mnemonic.operation.Keeps field mode)
    (spares : session.handlerCall?.isSome → Registers.SparesA field) :
    field (step session).2.registers = field session.registers := by
  cases step_kind session with
  | halted trap halted => rw [step_of_halted session trap halted]
  | illegal running decoded =>
      rw [step_of_illegal session running decoded]
      rfl
  | official running mnemonic mode decoded =>
      rw [step_of_official session running decoded]
      exact (Processor.perform_keeps _ moved (keeps mnemonic mode running decoded)
        session.fetched.processor).trans (moved session.registers _)
  | toggle running decoded toggle =>
      rw [step_of_toggle session running decoded toggle]
      exact moved session.registers _
  | unanswered running decoded operation detached =>
      rw [step_of_unanswered session running decoded operation detached]
      exact moved session.registers _
  | answered running decoded operation handler attached =>
      have called : session.handlerCall?.isSome := by
        rw [handler_call_of_answered session running decoded operation attached]
        rfl
      rw [step_of_answered session running decoded operation attached]
      exact (spares called _ _).trans (moved session.registers _)

/-- If all other instructions keep the field, one of these is performed where it changes. -/
theorem performs_of_changed (spares : Registers.SparesA field) {writers : List Mnemonic}
    (kept : ∀ mnemonic mode, mnemonic ∉ writers → mnemonic.operation.Keeps field mode)
    (changed : field (step session).2.registers ≠ field session.registers) :
    ∃ mnemonic ∈ writers, session.Performs mnemonic := by
  by_contra none
  apply changed
  apply field_of_step moved session
  · intro mnemonic mode running decoded
    apply kept
    intro member
    exact none ⟨mnemonic, member, running, mode, decoded⟩
  · exact fun _ => spares

end

variable (session : Session M H O)

theorem performs_of_register_changed (register : ByteRegister)
    (changed : register.get (step session).2.registers ≠ register.get session.registers) :
    (∃ mnemonic ∈ register.writers, session.Performs mnemonic) ∨
      register = .a ∧ ((∃ mnemonic ∈ [.asl, .lsr, .rol, .ror], session.Performs mnemonic ∧
        session.instruction.mode = .accumulator) ∨ session.handlerCall?.isSome) := by
  by_contra other
  rw [not_or, not_and_or, not_or] at other
  obtain ⟨unwritten, apart⟩ := other
  apply changed
  apply field_of_step register.spares_pc session
  · intro mnemonic mode running decoded
    apply Mnemonic.keeps_register
    · intro member
      exact unwritten ⟨mnemonic, member, running, mode, decoded⟩
    · apply Mnemonic.spares_of_decoded decoded
      intro accumulator member form
      cases apart with
      | inl different => exact different accumulator
      | inr unmet =>
          have decodedMode : session.instruction.mode = .accumulator := by
            rw [decoded, Instruction.mode, form]
          exact unmet.1 ⟨mnemonic, member, ⟨running, mode, decoded⟩, decodedMode⟩
  · intro called
    apply ByteRegister.spares_a
    intro accumulator
    cases apart with
    | inl different => exact different accumulator
    | inr unmet => exact unmet.2 called

theorem performs_of_sp_changed
    (changed : (step session).2.registers.sp ≠ session.registers.sp) :
    ∃ mnemonic ∈ Mnemonic.stackers, session.Performs mnemonic := by
  have moved : Registers.SparesPC Registers.sp := fun registers pc => rfl
  apply performs_of_changed moved session
  · exact fun registers a => rfl
  · exact fun mnemonic mode other => Mnemonic.keeps_sp other mode
  · exact changed

theorem same_hooks_of_step : SameHooks session (step session).2 := by
  constructor
  · rw [handler_of_step]
    split
    · exact Or.inr ⟨_, _, rfl⟩
    · exact Or.inl rfl
  · rw [observer_of_step, observerAtFetch]
    split
    · split
      · exact Or.inr ⟨_, rfl⟩
      · exact Or.inl rfl
    · exact Or.inl rfl

/-- What a step changes outside the memory, the program counter and the flags, and under which
instructions alone. -/
structure Footprint (session : Session M H O) : Prop where
  a : (step session).2.registers.a ≠ session.registers.a →
    (∃ mnemonic ∈ [.lda, .txa, .tya, .pla, .adc, .sbc, .and, .ora, .eor],
      session.Performs mnemonic) ∨
    (∃ mnemonic ∈ [.asl, .lsr, .rol, .ror], session.Performs mnemonic ∧
      session.instruction.mode = .accumulator) ∨
    session.instruction = .extension ∧ session.handler.isSome ∧
      session.fetched.fetchedOperation ≠ 0xFF
  x : (step session).2.registers.x ≠ session.registers.x →
    ∃ mnemonic ∈ [.ldx, .tax, .tsx, .inx, .dex], session.Performs mnemonic
  y : (step session).2.registers.y ≠ session.registers.y →
    ∃ mnemonic ∈ [.ldy, .tay, .iny, .dey], session.Performs mnemonic
  sp : (step session).2.registers.sp ≠ session.registers.sp →
    ∃ mnemonic ∈ [.txs, .pha, .php, .pla, .plp, .jsr, .rts, .brk, .rti],
      session.Performs mnemonic
  tracing : (step session).2.tracing ≠ session.tracing →
    session.fetchedOpcode = 0xFF ∧ session.fetched.fetchedOperation = 0xFF
  config : (step session).2.config = session.config
  halted : (step session).2.halted = session.halted
  hooks : SameHooks session (step session).2

theorem footprint_of_step {session : Session M H O} {progress : Progress}
    (succeeded : (step session).1 = .ok progress) : session.Footprint := by
  have running : session.halted = none := by
    cases halted : session.halted with
    | none => rfl
    | some trap =>
        rw [step_of_halted session trap halted] at succeeded
        cases succeeded
  have legal := (step_ok_iff_legal session running).mp ⟨progress, succeeded⟩
  obtain ⟨-, -, runs, -, config⟩ := step_of_legal session running legal
  refine ⟨?a, ?x, ?y, performs_of_sp_changed session, ?tracing, config, runs.trans running.symm,
    same_hooks_of_step session⟩
  case a =>
    intro changed
    rcases performs_of_register_changed session .a changed with
      written | ⟨-, shifted | called⟩
    · exact Or.inl written
    · exact Or.inr (Or.inl shifted)
    · rw [handlerCall?] at called
      split at called
      · rename_i asked
        obtain ⟨-, opcode, operation, attached⟩ := asked
        exact Or.inr (Or.inr ⟨(extension_iff_opcode session).mpr opcode, attached, operation⟩)
      · cases called
  case x =>
    intro changed
    rcases performs_of_register_changed session .x changed with
      written | ⟨other, -⟩
    · exact written
    · cases other
  case y =>
    intro changed
    rcases performs_of_register_changed session .y changed with
      written | ⟨other, -⟩
    · exact written
    · cases other
  case tracing =>
    intro changed
    rw [tracing_of_step] at changed
    split at changed
    · rename_i toggles
      exact (of_decide_eq_true toggles).2
    · exact absurd rfl changed

/-- The documented instruction that a step of the session executes, if it does. -/
def executing? (session : Session M H O) : Option Mnemonic :=
  match session.halted, session.instruction with
  | none, .official mnemonic _ => some mnemonic
  | _, _ => none

omit [ExtensionHandler H] [TraceObserver O] in
theorem executing_iff (session : Session M H O) (mnemonic : Mnemonic) :
    session.executing? = some mnemonic ↔ session.Performs mnemonic := by
  constructor
  · intro executing
    rw [executing?] at executing
    split at executing
    · rename_i mode running decoded
      cases executing
      exact ⟨running, mode, decoded⟩
    · cases executing
  · rintro ⟨running, mode, decoded⟩
    rw [executing?, running, decoded]

/-- The documented instructions that so many steps execute, in their order. -/
def executed (session : Session M H O) : Nat → List Mnemonic
  | 0 => []
  | count + 1 => session.executed count ++ (session.after count).executing?.toList

theorem sp_of_step (other : ¬session.Performs .txs) :
    (step session).2.registers.sp = session.registers.sp -
      UInt8.ofNat (Mnemonic.pushed session.executing?.toList) +
      UInt8.ofNat (Mnemonic.pulled session.executing?.toList) := by
  have still : session.registers.sp - UInt8.ofNat 0 + UInt8.ofNat 0 = session.registers.sp := by
    grind
  cases halted : session.halted with
  | some trap =>
      have idle : session.executing? = none := by rw [executing?, halted]
      rw [step_of_halted session trap halted, idle]
      exact still.symm
  | none =>
      rw [step_sp session halted fun executes => other ⟨halted, executes⟩]
      cases decoded : session.instruction with
      | official mnemonic mode =>
          have executing : session.executing? = some mnemonic := by rw [executing?, halted, decoded]
          rw [executing, Option.toList_some, Mnemonic.pushed_singleton, Mnemonic.pulled_singleton]
          rfl
      | extension | illegal =>
          have idle : session.executing? = none := by rw [executing?, halted, decoded]
          rw [idle]
          rfl

theorem sp_of_run (count : Nat) (other : .txs ∉ session.executed count) :
    (session.after count).registers.sp = session.registers.sp -
      UInt8.ofNat (Mnemonic.pushed (session.executed count)) +
      UInt8.ofNat (Mnemonic.pulled (session.executed count)) := by
  induction count with
  | zero =>
      change session.registers.sp = session.registers.sp - UInt8.ofNat 0 + UInt8.ofNat 0
      grind
  | succ count induction =>
      rw [executed, List.mem_append, not_or, Option.mem_toList, executing_iff] at other
      rw [after, sp_of_step _ other.2, induction other.1, executed, Mnemonic.pushed_append,
        Mnemonic.pulled_append, UInt8.ofNat_add, UInt8.ofNat_add]
      grind

omit [ExtensionHandler H] in
/-- The cell that a step stores to is the one that the address arithmetic finds. -/
theorem effective_of_store_target {session : Session FlatMemory H O} {address : Word}
    (running : session.halted = none) (stored : session.storeTarget = some address) :
    ∃ mnemonic ∈ [.sta, .stx, .sty, .inc, .dec, .asl, .lsr, .rol, .ror],
      session.Performs mnemonic ∧ session.effectiveAddress = some address := by
  unfold storeTarget at stored
  cases decoded : session.instruction with
  | extension | illegal =>
      rw [decoded] at stored
      cases stored
  | official mnemonic mode =>
      rw [decoded] at stored
      by_cases stores : mnemonic.stores = true
      · have found := (if_pos stores).symm.trans stored
        refine ⟨mnemonic, Mnemonic.store_listed stores, ⟨running, mode, decoded⟩, ?_⟩
        rw [effectiveAddress, ← operand_eq_computed, operand, operandFound, decoded]
        exact found
      · have found := (if_neg stores).symm.trans stored
        cases found

/-- Outside page one a step changes no cell but the one that it stores to. -/
theorem stores_of_changed {session : Session FlatMemory H O} {address : Word}
    (outside : address.toNat / 256 ≠ 1)
    (changed : (step session).2.bus.get address ≠ session.bus.get address) :
    ∃ mnemonic ∈ [.sta, .stx, .sty, .inc, .dec, .asl, .lsr, .rol, .ror],
      session.Performs mnemonic ∧ session.effectiveAddress = some address := by
  by_contra none
  apply changed
  cases halted : session.halted with
  | some trap => rw [step_of_halted session trap halted]
  | none =>
      have stored : session.storeTarget ≠ some address := fun stored =>
        none (effective_of_store_target halted stored)
      -- The other cells that a step writes to are pushed to, and these are all in page one.
      have pushed : ∀ offset < session.instruction.pushes,
          Word.stackCell (session.registers.sp - UInt8.ofNat offset) ≠ address := by
        intro offset below same
        have cell := Word.stack_cell_to_nat (session.registers.sp - UInt8.ofNat offset)
        have bound := (session.registers.sp - UInt8.ofNat offset).toNat_lt
        rw [same] at cell
        omega
      exact step_keeps session halted stored pushed

/-- So it is over a run: a byte that is not what it was has been stored to by one of its steps. -/
theorem stores_of_run (session : Session FlatMemory H O) (count : Nat) {address : Word}
    (outside : address.toNat / 256 ≠ 1)
    (changed : (session.after count).bus.get address ≠ session.bus.get address) :
    ∃ index < count, ∃ mnemonic ∈ [.sta, .stx, .sty, .inc, .dec, .asl, .lsr, .rol, .ror],
      (session.after index).Performs mnemonic ∧
        (session.after index).effectiveAddress = some address := by
  induction count with
  | zero => exact absurd rfl changed
  | succ count induction =>
      -- Either the last step has changed the byte, or it had been changed before.
      by_cases same : (session.after count).bus.get address = session.bus.get address
      · rw [← same] at changed
        exact ⟨count, Nat.lt_succ_self count, stores_of_changed outside changed⟩
      · obtain ⟨index, below, stored⟩ := induction same
        exact ⟨index, Nat.lt_succ_of_lt below, stored⟩

/-- A step that succeeds changes a register, the trace switch and the stack pointer under their
instructions alone, and it never changes the options, the halt or which hooks are attached. Over
a run without TXS the stack pointer goes down and up by what the instructions executed push and
pull, and a byte outside page one that changes was where an instruction executed writes to. -/
theorem steps_change_only_their_footprint :
    (∀ (session : Session M H O) (progress : Progress), (step session).1 = .ok progress →
      session.Footprint) ∧
    ∀ (session : Session FlatMemory H O) (count : Nat),
      let executed := session.executed count
      let final := session.after count
      (.txs ∉ executed → final.registers.sp = session.registers.sp -
        UInt8.ofNat (executed.count .pha + executed.count .php + 2 * executed.count .jsr +
          3 * executed.count .brk) +
        UInt8.ofNat (executed.count .pla + executed.count .plp + 2 * executed.count .rts +
          3 * executed.count .rti)) ∧
      ∀ address : Word, address.toNat / 256 ≠ 1 →
        final.bus.get address ≠ session.bus.get address →
        ∃ index < count, ∃ mnemonic ∈ [.sta, .stx, .sty, .inc, .dec, .asl, .lsr, .rol, .ror],
          (session.after index).Performs mnemonic ∧
            (session.after index).effectiveAddress = some address := by
  refine ⟨fun session progress succeeded => footprint_of_step succeeded, ?_⟩
  intro session count executed final
  constructor
  · exact sp_of_run session count
  · intro address outside changed
    exact stores_of_run session count outside changed

/-- PHA moves the stack pointer down, and `STA $10` changes a byte in page zero. -/
theorem push_and_store_footprint :
    let memory := FlatMemory.ofFn fun address =>
      if address = 0x0600 then 0x48 else if address = 0x0601 then 0x85
      else if address = 0x0602 then 0x10 else 0x00
    let session : Session FlatMemory Empty Empty :=
      (performAll [.setA 0x42] (start memory 0x0600 {})).2
    session.Footprint ∧ session.executed 2 = [.pha, .sta] ∧
      (session.after 2).registers.sp = 0xFE ∧ (session.after 2).bus.get 0x0010 = 0x42 ∧
      ∃ index < 2, ∃ mnemonic ∈ [.sta, .stx, .sty, .inc, .dec, .asl, .lsr, .rol, .ror],
        (session.after index).Performs mnemonic ∧
          (session.after index).effectiveAddress = some 0x0010 := by
  intro memory session
  have first : memory.get 0x0600 = 0x48 := FlatMemory.get_of_fn _ 0x0600
  have second : memory.get 0x0601 = 0x85 := FlatMemory.get_of_fn _ 0x0601
  have operand : memory.get 0x0602 = 0x10 := FlatMemory.get_of_fn _ 0x0602
  have blank : memory.get 0x0010 = 0x00 := FlatMemory.get_of_fn _ 0x0010
  have running : session.halted = none := rfl
  have registers : session.registers = { Registers.start 0x0600 with a := 0x42 } := rfl
  have bus : session.bus = memory := rfl
  clear_value session memory
  have decodedFirst : session.instruction = .official .pha .implicit := by
    rw [instruction_on_flat, registers, bus]
    change Instruction.decode (memory.get 0x0600) = _
    rw [first, Instruction.decode_official_iff]
    decide +kernel
  have pushed := step_of_official session running decodedFirst
  have nextRegisters : (step session).2.registers =
      { Registers.start 0x0601 with a := 0x42, sp := 0xFE } := by
    rw [pushed]
    change { session.registers with
      pc := session.registers.pc + 1, sp := session.registers.sp - 1 } = _
    rw [registers]
    decide
  have nextBus : (step session).2.bus = memory.set 0x01FF 0x42 := by
    rw [pushed]
    change session.fetched.bus.set (Word.stackCell session.registers.sp) session.registers.a = _
    rw [fetched_bus, bus, registers]
    congr
  have performsFirst : session.Performs .pha := ⟨running, .implicit, decodedFirst⟩
  have nextRunning := halted_of_performs performsFirst
  have decodedSecond : (step session).2.instruction = .official .sta .zeroPage := by
    rw [instruction_on_flat, nextRegisters, nextBus, Instruction.decode_official_iff]
    change ⟨(memory.set 0x01FF 0x42).get 0x0601, .sta, .zeroPage⟩ ∈ officialOpcodes
    rw [FlatMemory.get_set_other _ _ (by decide), second]
    decide +kernel
  have performsSecond : (step session).2.Performs .sta := ⟨nextRunning, .zeroPage, decodedSecond⟩
  have executed : session.executed 2 = [.pha, .sta] := by
    have start : session.executing? = some .pha := (executing_iff session .pha).mpr performsFirst
    have next := (executing_iff (step session).2 .sta).mpr performsSecond
    rw [Session.executed, Session.executed, Session.executed, after, after, after, start, next]
    rfl
  obtain ⟨address, effective, -, stored⟩ := store_works_on_operand performsSecond rfl
  have cell : (step session).2.effectiveAddress = some 0x0010 := by
    rw [effectiveAddress, ← operand_eq_computed, Session.operand, operandFound, decodedSecond,
      fetched_on_flat, nextBus]
    change some (Word.zeroPage ((memory.set 0x01FF 0x42).get
      ((step session).2.registers.pc + 1))) = some 0x0010
    have operandAt : (step session).2.registers.pc + 1 = 0x0602 := by
      rw [nextRegisters]
      decide
    rw [operandAt, FlatMemory.get_set_other _ _ (by decide), operand]
    rfl
  have same : address = 0x0010 := Option.some.inj (effective.symm.trans cell)
  have byte : (session.after 2).bus.get 0x0010 = 0x42 := by
    rw [after, after, after, Session.bus, stored, same, nextRegisters]
    exact FlatMemory.get_set_same _ _ _
  have changed : (session.after 2).bus.get 0x0010 ≠ session.bus.get 0x0010 := by
    rw [byte, bus, blank]
    decide
  obtain ⟨footprints, runs⟩ :=
    steps_change_only_their_footprint (M := FlatMemory) (H := Empty) (O := Empty)
  obtain ⟨accounted, written⟩ := runs session 2
  rw [executed] at accounted
  refine ⟨?_, executed, ?_, byte, written 0x0010 (by decide) changed⟩
  · exact footprints session _ (congrArg Prod.fst pushed)
  · have sp := accounted (by decide)
    rw [sp, registers]
    decide

end Session

end Nmos6502
