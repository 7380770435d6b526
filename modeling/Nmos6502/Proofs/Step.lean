import Nmos6502.Session.Step
import Nmos6502.Proofs.Execution

/-!
A step of a running session, one equation for each kind of instruction. The bus is arbitrary,
so the opcode that decides is the one that the fetch reads, after the read for the snapshot.
-/

namespace Nmos6502.Session

variable {M H O : Type} [Bus M]

/-- The bus as the fetch of the opcode finds it. -/
def busAtFetch (session : Session M H O) : M :=
  if session.tracing then (Bus.read session.registers.pc session.bus).2 else session.bus

def fetchedOpcode (session : Session M H O) : Byte :=
  (Bus.read session.registers.pc session.busAtFetch).1

theorem bus_at_fetch_of_quiet (quiet : Bus.Quiet M) (session : Session M H O) :
    session.busAtFetch = session.bus := by
  unfold busAtFetch
  cases session.tracing with
  | false => rfl
  | true => exact quiet session.registers.pc session.bus

/-- What a step of the session executes, unless the session is halted. -/
def instruction (session : Session M H O) : Instruction :=
  Instruction.decode session.fetchedOpcode

def observerAtFetch [TraceObserver O] (session : Session M H O) : Option O :=
  if session.tracing then
    session.observer.map (TraceObserver.observe
      (Snapshot.ofRegisters session.registers (Bus.read session.registers.pc session.bus).1))
  else session.observer

/-- The session once the opcode has been fetched. -/
def fetched [TraceObserver O] (session : Session M H O) : Session M H O :=
  { session with
    processor := ⟨{ session.registers with pc := session.registers.pc + 1 },
      (Bus.read session.registers.pc session.busAtFetch).2⟩
    observer := session.observerAtFetch }

theorem fetched_bus_of_quiet [TraceObserver O] (quiet : Bus.Quiet M) (session : Session M H O) :
    session.fetched.bus = session.bus :=
  (quiet session.registers.pc session.busAtFetch).trans (bus_at_fetch_of_quiet quiet session)

theorem observe_run [TraceObserver O] (session : Session M H O) :
    observe session =
      ((), { session with
        processor := ⟨session.registers, session.busAtFetch⟩
        observer := session.observerAtFetch }) := by
  cases tracing : session.tracing with
  | false =>
      simp only [observe, bind_run, get_run, tracing, busAtFetch, observerAtFetch,
        Bool.false_eq_true, if_false, pure_run]
      rw [← tracing]
      rfl
  | true =>
      simp only [observe, bind_run, get_run, tracing, busAtFetch, observerAtFetch, if_true]
      rw [← tracing]
      rfl

section

variable [ExtensionHandler H] [TraceObserver O]

theorem step_of_illegal (session : Session M H O) (running : session.halted = none)
    (decoded : session.instruction = .illegal) :
    step session =
      (.error (.illegalOpcode session.fetchedOpcode session.registers.pc),
        { session.fetched with
          processor := ⟨session.registers, session.fetched.bus⟩
          halted := some (.illegalOpcode session.fetchedOpcode session.registers.pc)
          log := session.log.push
            (.halting (.illegalOpcode session.fetchedOpcode session.registers.pc)) }) := by
  rw [instruction, fetchedOpcode] at decoded
  rw [step_of_running session running]
  simp only [fetchAndExecute, bind_run, observe_run, on_processor_run,
    Processor.registers_now_run, Processor.fetch_run, decoded]
  rfl

theorem step_of_official (session : Session M H O) (running : session.halted = none)
    {mnemonic : Mnemonic} {mode : Mode} (decoded : session.instruction = .official mnemonic mode) :
    step session =
      (.ok (if session.stopPending then .stopped else .running),
        { session.fetched with
          processor := (Processor.execute session.config.pointerWraps mnemonic mode
            session.fetched.processor).2
          instructions := session.instructions + 1
          stopPending := false
          log := session.log.push (.executing session.registers.pc session.fetchedOpcode) }) := by
  rw [instruction, fetchedOpcode] at decoded
  rw [step_of_running session running]
  simp only [fetchAndExecute, bind_run, observe_run, on_processor_run,
    Processor.registers_now_run, Processor.fetch_run, decoded]
  rfl

theorem step_of_extension (session : Session M H O) (running : session.halted = none)
    (decoded : session.instruction = .extension) :
    step session = finish (extension { session.fetched with
      log := session.log.push (.executing session.registers.pc session.fetchedOpcode) }).2 := by
  rw [instruction, fetchedOpcode] at decoded
  rw [step_of_running session running]
  simp only [fetchAndExecute, bind_run, observe_run, on_processor_run,
    Processor.registers_now_run, Processor.fetch_run, decoded]
  rfl

end

variable [ExtensionHandler H]

/-- The session once the operation byte of the extension has been fetched too. -/
def operationFetched (session : Session M H O) : Session M H O :=
  { session with processor := (Processor.fetch session.processor).2 }

def fetchedOperation (session : Session M H O) : Byte :=
  (Processor.fetch session.processor).1

theorem extension_of_toggle (session : Session M H O)
    (toggle : session.fetchedOperation = traceToggle) :
    extension session =
      ((), { session.operationFetched with
        tracing := !session.tracing
        log := session.log.push
          (.traceSwitched (!session.tracing) (session.operationFetched.registers.pc - 2)) }) := by
  rw [fetchedOperation] at toggle
  simp only [extension, bind_run, on_processor_run, toggle, if_true]
  rfl

omit [Bus M] in
theorem consult_of_detached (operation accumulator : Byte) (session : Session M H O)
    (detached : session.handler = none) :
    consult operation accumulator session = (none, session) := by
  simp only [consult, detached]
  rw [← detached]

omit [Bus M] in
theorem consult_of_attached (operation accumulator : Byte) (session : Session M H O) {handler : H}
    (attached : session.handler = some handler) :
    consult operation accumulator session =
      (some ((ExtensionHandler.call operation accumulator handler).1,
          ExtensionHandler.stopRequested (ExtensionHandler.call operation accumulator handler).2),
        { session with
          handler := some (ExtensionHandler.call operation accumulator handler).2 }) := by
  simp only [consult, attached]
  rfl

theorem extension_of_unanswered (session : Session M H O)
    (operation : session.fetchedOperation ≠ traceToggle) (detached : session.handler = none) :
    extension session =
      ((), { session.operationFetched with
        log := session.log.push (.unanswered session.fetchedOperation
          (session.operationFetched.registers.pc - 2)) }) := by
  have other : (onProcessor Processor.fetch session).1 ≠ traceToggle := operation
  have still : (onProcessor Processor.registersNow
      (onProcessor Processor.fetch session).2).2.handler = none := detached
  rw [extension, bind_run, if_neg other, bind_run, bind_run, consult_of_detached _ _ _ still]
  rfl

theorem extension_of_answered (session : Session M H O) {handler : H}
    (operation : session.fetchedOperation ≠ traceToggle)
    (attached : session.handler = some handler) :
    let answer := ExtensionHandler.call session.fetchedOperation session.registers.a handler
    let stop := ExtensionHandler.stopRequested answer.2
    extension session =
      ((), { session.operationFetched with
        processor := ⟨{ session.operationFetched.registers with a := answer.1 },
          session.operationFetched.bus⟩
        handler := some answer.2
        stopPending := session.stopPending || stop
        log := if stop then session.log.push (.stopRequested session.fetchedOperation)
          else session.log }) := by
  intro answer stop
  have other : (onProcessor Processor.fetch session).1 ≠ traceToggle := operation
  have still : (onProcessor Processor.registersNow
      (onProcessor Processor.fetch session).2).2.handler = some handler := attached
  rw [extension, bind_run, if_neg other, bind_run, bind_run, consult_of_attached _ _ _ still]
  change (bind _ fun _ => if stop = true then _ else _ : SessionM M H O Unit) _ = _
  rw [bind_run]
  cases stopping : stop with
  | false =>
      rw [if_neg Bool.false_ne_true, if_neg Bool.false_ne_true, Bool.or_false]
      rfl
  | true =>
      rw [if_pos rfl, if_pos rfl, Bool.or_true]
      rfl

/-- Whatever its operation byte asks for, the extension writes no memory and no register but
the accumulator and the program counter. -/
theorem extension_changes (session : Session M H O) :
    ∃ accumulator tracing stopPending handler log, (extension session).2 =
      { session.operationFetched with
        processor := ⟨{ session.operationFetched.registers with a := accumulator },
          session.operationFetched.bus⟩
        tracing := tracing
        stopPending := stopPending
        handler := handler
        log := log } := by
  by_cases toggle : session.fetchedOperation = traceToggle
  · rw [extension_of_toggle session toggle]
    exact ⟨_, _, _, _, _, rfl⟩
  · cases attached : session.handler with
    | none =>
        rw [extension_of_unanswered session toggle attached]
        exact ⟨_, _, _, _, _, rfl⟩
    | some handler =>
        rw [extension_of_answered session toggle attached]
        exact ⟨_, _, _, _, _, rfl⟩

theorem step_of_extension_changes [TraceObserver O] (session : Session M H O)
    (running : session.halted = none) (decoded : session.instruction = .extension) :
    ∃ progress accumulator tracing handler log, step session =
      (.ok progress,
        { session.fetched with
          processor :=
            ⟨{ session.registers with a := accumulator, pc := session.registers.pc + 1 + 1 },
              (Bus.read (session.registers.pc + 1) session.fetched.bus).2⟩
          tracing := tracing
          stopPending := false
          instructions := session.instructions + 1
          handler := handler
          log := log }) := by
  obtain ⟨accumulator, tracing, stopPending, handler, log, changes⟩ :=
    extension_changes { session.fetched with
      log := session.log.push (.executing session.registers.pc session.fetchedOpcode) }
  rw [step_of_extension session running decoded, changes]
  exact ⟨_, accumulator, tracing, handler, log, rfl⟩

theorem step_of_answered [TraceObserver O] (session : Session M H O)
    (running : session.halted = none) (decoded : session.instruction = .extension) {handler : H}
    (operation : session.fetched.fetchedOperation ≠ traceToggle)
    (attached : session.handler = some handler) :
    let answer := ExtensionHandler.call session.fetched.fetchedOperation session.registers.a handler
    let stop := ExtensionHandler.stopRequested answer.2
    let executing := session.log.push (.executing session.registers.pc session.fetchedOpcode)
    step session =
      (.ok (if session.stopPending || stop then .stopped else .running),
        { session.fetched with
          processor := ⟨{ session.fetched.operationFetched.registers with a := answer.1 },
            session.fetched.operationFetched.bus⟩
          handler := some answer.2
          stopPending := false
          instructions := session.instructions + 1
          log := if stop then executing.push (.stopRequested session.fetched.fetchedOperation)
            else executing }) := by
  intro answer stop executing
  rw [step_of_extension session running decoded,
    extension_of_answered { session.fetched with log := executing } operation attached]
  rfl

theorem step_of_unanswered [TraceObserver O] (session : Session M H O)
    (running : session.halted = none) (decoded : session.instruction = .extension)
    (operation : session.fetched.fetchedOperation ≠ traceToggle)
    (detached : session.handler = none) :
    let executing := session.log.push (.executing session.registers.pc session.fetchedOpcode)
    step session =
      (.ok (if session.stopPending then .stopped else .running),
        { session.fetched.operationFetched with
          stopPending := false
          instructions := session.instructions + 1
          log := executing.push (.unanswered session.fetched.fetchedOperation
            (session.fetched.operationFetched.registers.pc - 2)) }) := by
  intro executing
  rw [step_of_extension session running decoded,
    extension_of_unanswered { session.fetched with log := executing } operation detached]
  rfl

theorem step_of_toggle [TraceObserver O] (session : Session M H O)
    (running : session.halted = none) (decoded : session.instruction = .extension)
    (toggle : session.fetched.fetchedOperation = traceToggle) :
    let executing := session.log.push (.executing session.registers.pc session.fetchedOpcode)
    step session =
      (.ok (if session.stopPending then .stopped else .running),
        { session.fetched.operationFetched with
          tracing := !session.tracing
          stopPending := false
          instructions := session.instructions + 1
          log := executing.push (.traceSwitched (!session.tracing)
            (session.fetched.operationFetched.registers.pc - 2)) }) := by
  intro executing
  rw [step_of_extension session running decoded,
    extension_of_toggle { session.fetched with log := executing } toggle]
  rfl

/-- The ways in which a step can go, each with what decides for it. The equation for the step that
goes this way is the `step_of_` lemma of the same name. -/
inductive StepKind [TraceObserver O] (session : Session M H O) : Prop where
  | halted (trap : Trap) (halted : session.halted = some trap)
  | illegal (running : session.halted = none) (decoded : session.instruction = .illegal)
  | official (running : session.halted = none) (mnemonic : Mnemonic) (mode : Mode)
      (decoded : session.instruction = .official mnemonic mode)
  | toggle (running : session.halted = none) (decoded : session.instruction = .extension)
      (toggle : session.fetched.fetchedOperation = traceToggle)
  | unanswered (running : session.halted = none) (decoded : session.instruction = .extension)
      (operation : session.fetched.fetchedOperation ≠ traceToggle)
      (detached : session.handler = none)
  | answered (running : session.halted = none) (decoded : session.instruction = .extension)
      (operation : session.fetched.fetchedOperation ≠ traceToggle) (handler : H)
      (attached : session.handler = some handler)

omit [ExtensionHandler H] in
theorem step_kind [TraceObserver O] (session : Session M H O) : StepKind session := by
  cases halted : session.halted with
  | some trap => exact .halted trap halted
  | none =>
      cases decoded : session.instruction with
      | illegal => exact .illegal halted decoded
      | official mnemonic mode => exact .official halted mnemonic mode decoded
      | extension =>
          by_cases toggle : session.fetched.fetchedOperation = traceToggle
          · exact .toggle halted decoded toggle
          · cases attached : session.handler with
            | none => exact .unanswered halted decoded toggle attached
            | some handler => exact .answered halted decoded toggle handler attached

/-- An instruction that exists is executed and counted, and leaves the session running. -/
theorem step_of_legal [TraceObserver O] (session : Session M H O)
    (running : session.halted = none) (legal : session.instruction ≠ .illegal) :
    ∃ progress, (step session).1 = .ok progress ∧ (step session).2.halted = none ∧
      (step session).2.instructions = session.instructions + 1 ∧
      (step session).2.config = session.config := by
  cases decoded : session.instruction with
  | illegal => exact absurd decoded legal
  | extension =>
      obtain ⟨progress, accumulator, tracing, handler, log, executed⟩ :=
        step_of_extension_changes session running decoded
      rw [executed]
      exact ⟨progress, rfl, running, rfl, rfl⟩
  | official mnemonic mode =>
      rw [step_of_official session running decoded]
      exact ⟨_, rfl, running, rfl, rfl⟩

theorem step_ok_iff_legal [TraceObserver O] (session : Session M H O)
    (running : session.halted = none) :
    (∃ progress, (step session).1 = .ok progress) ↔ session.instruction ≠ .illegal := by
  constructor
  · rintro ⟨progress, succeeded⟩ illegal
    rw [step_of_illegal session running illegal] at succeeded
    cases succeeded
  · intro legal
    obtain ⟨progress, succeeded, -⟩ := step_of_legal session running legal
    exact ⟨progress, succeeded⟩

end Nmos6502.Session
