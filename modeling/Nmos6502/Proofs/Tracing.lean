import Nmos6502.Proofs.Extension

/-!
Tracing does not show. Two sessions that differ in whether and by whom they are traced go on
alike, as long as reading memory does not change it: the snapshot costs one more read and nothing
else depends on the switch. The program can switch tracing, but only from its present state to the
opposite one, so the difference stays.
-/

namespace Nmos6502.Session

variable {M H O : Type}

/-- The sessions are alike in all but their observers, their logs and whether they are traced, of
which exactly one is. -/
structure TraceTwins (left right : Session M H O) : Prop where
  processor : left.processor = right.processor
  pointerWraps : left.config.pointerWraps = right.config.pointerWraps
  tracing : left.tracing = !right.tracing
  stopPending : left.stopPending = right.stopPending
  halted : left.halted = right.halted
  instructions : left.instructions = right.instructions
  handler : left.handler = right.handler

namespace TraceTwins

variable {left right : Session M H O}

theorem registers (twins : TraceTwins left right) : left.registers = right.registers :=
  congrArg Processor.registers twins.processor

theorem bus (twins : TraceTwins left right) : left.bus = right.bus :=
  congrArg Processor.bus twins.processor

variable [Bus M] [TraceObserver O]

omit [TraceObserver O] in
theorem fetched_opcode (twins : TraceTwins left right) (quiet : Bus.Quiet M) :
    left.fetchedOpcode = right.fetchedOpcode := by
  rw [fetchedOpcode, fetchedOpcode, bus_at_fetch_of_quiet quiet, bus_at_fetch_of_quiet quiet,
    twins.registers, twins.bus]

omit [TraceObserver O] in
theorem instruction (twins : TraceTwins left right) (quiet : Bus.Quiet M) :
    left.instruction = right.instruction :=
  congrArg Instruction.decode (twins.fetched_opcode quiet)

theorem fetched_bus (twins : TraceTwins left right) (quiet : Bus.Quiet M) :
    left.fetched.bus = right.fetched.bus := by
  rw [fetched_bus_of_quiet quiet, fetched_bus_of_quiet quiet, twins.bus]

theorem fetched_processor (twins : TraceTwins left right) (quiet : Bus.Quiet M) :
    left.fetched.processor = right.fetched.processor := by
  have pc : left.fetched.registers = right.fetched.registers :=
    congrArg (fun registers : Registers => { registers with pc := registers.pc + 1 })
      twins.registers
  exact congrArg₂ Processor.mk pc (twins.fetched_bus quiet)

theorem fetched_operation (twins : TraceTwins left right) (quiet : Bus.Quiet M) :
    left.fetched.fetchedOperation = right.fetched.fetchedOperation :=
  congrArg (fun processor => (Processor.fetch processor).1) (twins.fetched_processor quiet)

theorem operation_fetched (twins : TraceTwins left right) (quiet : Bus.Quiet M) :
    left.fetched.operationFetched.processor = right.fetched.operationFetched.processor :=
  congrArg (fun processor => (Processor.fetch processor).2) (twins.fetched_processor quiet)

theorem handler_call (twins : TraceTwins left right) (quiet : Bus.Quiet M) :
    left.handlerCall? = right.handlerCall? := by
  rw [handlerCall?, handlerCall?, twins.halted, twins.fetched_opcode quiet,
    twins.fetched_operation quiet, twins.handler, twins.registers]

end TraceTwins

variable [Bus M] [ExtensionHandler H] [TraceObserver O]

theorem step_twins (quiet : Bus.Quiet M) :
    Agree (TraceTwins : Session M H O → Session M H O → Prop) step step := by
  intro left right twins
  have opcode := twins.fetched_opcode quiet
  have same := twins.instruction quiet
  have operation := twins.fetched_operation quiet
  have processor := twins.operation_fetched quiet
  have stop := twins.stopPending
  -- The kind of step is read off the left session; the facts above give the right one the same.
  cases step_kind left with
  | halted trap halted =>
      rw [step_of_halted left trap halted, step_of_halted right trap (twins.halted ▸ halted)]
      exact ⟨rfl, twins⟩
  | illegal running decoded =>
      rw [step_of_illegal left running decoded,
        step_of_illegal right (twins.halted ▸ running) (same ▸ decoded), opcode, twins.registers,
        twins.fetched_bus quiet]
      exact ⟨rfl, ⟨rfl, twins.pointerWraps, twins.tracing, twins.stopPending, rfl,
        twins.instructions, twins.handler⟩⟩
  | official running mnemonic mode decoded =>
      rw [step_of_official left running decoded,
        step_of_official right (twins.halted ▸ running) (same ▸ decoded), stop,
        twins.pointerWraps, twins.fetched_processor quiet, twins.instructions]
      exact ⟨rfl, ⟨rfl, twins.pointerWraps, twins.tracing, rfl, twins.halted, rfl, twins.handler⟩⟩
  | toggle running decoded toggle =>
      rw [step_of_toggle left running decoded toggle,
        step_of_toggle right (twins.halted ▸ running) (same ▸ decoded) (operation ▸ toggle), stop,
        twins.instructions]
      exact ⟨rfl, ⟨processor, twins.pointerWraps, congrArg not twins.tracing, rfl, twins.halted,
        rfl, twins.handler⟩⟩
  | unanswered running decoded other detached =>
      rw [step_of_unanswered left running decoded other detached,
        step_of_unanswered right (twins.halted ▸ running) (same ▸ decoded) (operation ▸ other)
          (twins.handler ▸ detached), stop, twins.instructions]
      exact ⟨rfl, ⟨processor, twins.pointerWraps, twins.tracing, rfl, twins.halted, rfl,
        twins.handler⟩⟩
  | answered running decoded other handler attached =>
      rw [step_of_answered left running decoded other attached,
        step_of_answered right (twins.halted ▸ running) (same ▸ decoded) (operation ▸ other)
          (twins.handler ▸ attached), stop, twins.instructions, operation, twins.registers]
      have answered (result : Byte) := congrArg (fun fetched : Processor M =>
        Processor.mk { fetched.registers with a := result } fetched.bus) processor
      exact ⟨rfl, ⟨answered _, twins.pointerWraps, twins.tracing, rfl, twins.halted, rfl, rfl⟩⟩

theorem idle_twins {call : Call M H O} (idle : call.stepLimit = none)
    (untraced : ∀ on, call ≠ .setTracing on) :
    Agree (TraceTwins : Session M H O → Session M H O → Prop) (perform call) (perform call) := by
  rintro ⟨processor, config, tracing, stopPending, halted, instructions, observer, handler, log⟩
    ⟨other, otherConfig, otherTracing, _, _, _, otherObserver, _, otherLog⟩ twins
  obtain ⟨rfl, pointerWraps, opposite, rfl, rfl, rfl, rfl⟩ := twins
  cases call with
  | step | run _ | runFor _ => cases idle
  | setTracing on => exact absurd rfl (untraced on)
  | _ => exact ⟨rfl, ⟨rfl, pointerWraps, opposite, rfl, rfl, rfl, rfl⟩⟩

/-- Sessions over memory that reads do not change, of which one is traced and the other is not,
but which are otherwise alike, return the same, make the same handler calls and stay alike
through every history in which the host leaves the trace switch to the program. -/
theorem tracing_does_not_show (quiet : Bus.Quiet M) (left right : Session M H O)
    (twins : TraceTwins left right) (calls : List (Call M H O))
    (untraced : ∀ call ∈ calls, ∀ on, call ≠ .setTracing on) :
    (performAll calls left).1 = (performAll calls right).1 ∧
      handlerCalls calls left = handlerCalls calls right ∧
      TraceTwins (performAll calls left).2 (performAll calls right).2 := by
  have idle : ∀ call ∈ calls, call.stepLimit = none →
      Agree TraceTwins (perform call) (perform call) :=
    fun call member idle => idle_twins idle (untraced call member)
  obtain ⟨replies, last⟩ := perform_all_agrees (step_twins quiet) idle left right twins
  have starts := step_starts_related (step_twins quiet) idle left right twins
  have calls := filter_map_of_related (fun _ _ twins => twins.handler_call quiet) starts
  exact ⟨replies, calls, last⟩

/-- The one session starts traced, the other does not, and only the first has an observer. -/
theorem observed_session_goes_on_alike :
    let memory := FlatMemory.ofFn fun _ => 0xFF
    let plain : Session FlatMemory Script (Array Snapshot) := start memory 0xFFFE {}
    let observed : Session FlatMemory Script (Array Snapshot) :=
      { plain with config := { tracing := true }, tracing := true, observer := some #[] }
    let calls : List (Call FlatMemory Script (Array Snapshot)) :=
      [.step, .setA 0x41, .write 0x0000 0x01, .runFor 3, .run 9]
    (performAll calls observed).1 = (performAll calls plain).1 ∧
      handlerCalls calls observed = handlerCalls calls plain ∧
      TraceTwins (performAll calls observed).2 (performAll calls plain).2 := by
  intro memory plain observed calls
  have twins : TraceTwins observed plain := ⟨rfl, rfl, rfl, rfl, rfl, rfl, rfl⟩
  have untraced : ∀ call ∈ calls, ∀ on, call ≠ .setTracing on := by simp [calls]
  exact tracing_does_not_show FlatMemory.reads_quietly observed plain twins calls untraced

end Nmos6502.Session
