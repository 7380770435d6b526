import Mathlib.Data.List.Basic
import Nmos6502.Bus.Flat
import Nmos6502.Session.Script
import Nmos6502.Proofs.Simulation

/-!
The extension opcode over whole histories. A step calls the handler for an extension instruction
whose operation byte is not the trace toggle, if a handler is attached, and otherwise neither
calls it nor asks it for a stop. What a handler hears is therefore what the steps of the history
say, call by call.
-/

namespace Nmos6502

/-- A handler that keeps the calls made to it and leaves the answers to another one. -/
structure Heard (H : Type) where
  calls : List (Byte × Byte) := []
  handler : H

instance {H : Type} [ExtensionHandler H] : ExtensionHandler (Heard H) where
  call operation accumulator
    | ⟨calls, handler⟩ =>
        let (result, handler) := ExtensionHandler.call operation accumulator handler
        (result, ⟨calls ++ [(operation, accumulator)], handler⟩)
  stopRequested heard := ExtensionHandler.stopRequested heard.handler

/-- The call leaves the attached handler attached. -/
def Call.keepsHandler {M H O : Type} : Call M H O → Bool
  | .attachHandler _ | .detachHandler => false
  | _ => true

namespace Session

section Steps

variable {M H O : Type} [Bus M] [TraceObserver O]

omit [TraceObserver O] in
theorem extension_iff_opcode (session : Session M H O) :
    session.instruction = .extension ↔ session.fetchedOpcode = 0xFF :=
  Instruction.decode_extension_iff session.fetchedOpcode

/-- The operation byte and the accumulator that a step of the session hands to the handler. -/
def handlerCall? (session : Session M H O) : Option (Byte × Byte) :=
  if session.halted = none ∧ session.fetchedOpcode = 0xFF ∧
      session.fetched.fetchedOperation ≠ 0xFF ∧ session.handler.isSome then
    some (session.fetched.fetchedOperation, session.registers.a)
  else none

theorem handler_call_of_answered (session : Session M H O) (running : session.halted = none)
    (decoded : session.instruction = .extension)
    (operation : session.fetched.fetchedOperation ≠ traceToggle) {handler : H}
    (attached : session.handler = some handler) :
    session.handlerCall? = some (session.fetched.fetchedOperation, session.registers.a) := by
  have called : session.handler.isSome := by
    rw [attached]
    rfl
  exact if_pos ⟨running, (extension_iff_opcode session).mp decoded, operation, called⟩

theorem handler_call_of_halted (session : Session M H O) {trap : Trap}
    (halted : session.halted = some trap) : session.handlerCall? = none := by
  simp [handlerCall?, halted]

theorem handler_call_of_other (session : Session M H O)
    (other : session.instruction ≠ .extension) : session.handlerCall? = none := by
  rw [ne_eq, extension_iff_opcode] at other
  simp [handlerCall?, other]

theorem handler_call_of_toggle (session : Session M H O)
    (toggle : session.fetched.fetchedOperation = traceToggle) : session.handlerCall? = none := by
  simp [handlerCall?, toggle, traceToggle]

theorem handler_call_of_detached (session : Session M H O) (detached : session.handler = none) :
    session.handlerCall? = none := by
  simp [handlerCall?, detached]

/-- Each step makes at most one call, and the handler is left as this call leaves it. -/
theorem handler_of_step [ExtensionHandler H] (session : Session M H O) :
    (step session).2.handler = match session.handlerCall? with
      | some (operation, accumulator) => session.handler.map fun handler =>
          (ExtensionHandler.call operation accumulator handler).2
      | none => session.handler := by
  cases step_kind session with
  | halted trap halted =>
      rw [step_of_halted session trap halted, handler_call_of_halted session halted]
  | illegal running decoded =>
      rw [step_of_illegal session running decoded,
        handler_call_of_other session (by simp [decoded])]
      rfl
  | official running mnemonic mode decoded =>
      rw [step_of_official session running decoded,
        handler_call_of_other session (by simp [decoded])]
      rfl
  | toggle running decoded toggle =>
      rw [step_of_toggle session running decoded toggle, handler_call_of_toggle session toggle]
      rfl
  | unanswered running decoded operation detached =>
      rw [step_of_unanswered session running decoded operation detached,
        handler_call_of_detached session detached]
      rfl
  | answered running decoded operation handler attached =>
      rw [step_of_answered session running decoded operation attached,
        handler_call_of_answered session running decoded operation attached, attached]
      rfl

/-- The step has one outcome, whatever a handler would answer and whether or not it would ask for
a stop. So it neither calls a handler nor polls one. -/
def LeavesHandlerAlone (session : Session M H O) : Prop :=
  ∃ outcome, ∀ handler : ExtensionHandler H, @step M H O _ handler _ session = outcome

theorem handler_left_alone (session : Session M H O) (uncalled : session.handlerCall? = none) :
    session.LeavesHandlerAlone := by
  -- The outcome is the right side of the equation, in which no handler occurs.
  cases step_kind session with
  | halted trap halted => exact ⟨_, fun _ => step_of_halted session trap halted⟩
  | illegal running decoded => exact ⟨_, fun _ => step_of_illegal session running decoded⟩
  | official running mnemonic mode decoded =>
      exact ⟨_, fun _ => step_of_official session running decoded⟩
  | toggle running decoded toggle =>
      exact ⟨_, fun _ => step_of_toggle session running decoded toggle⟩
  | unanswered running decoded operation detached =>
      exact ⟨_, fun _ => step_of_unanswered session running decoded operation detached⟩
  | answered running decoded operation handler attached =>
      rw [handler_call_of_answered session running decoded operation attached] at uncalled
      cases uncalled

/-- What an extension instruction leaves behind. It only reads memory, and of the registers it
changes the accumulator and the program counter. -/
structure ExtensionEffect [ExtensionHandler H] (session next : Session M H O) : Prop where
  registers : next.registers =
    { session.registers with a := next.registers.a, pc := session.registers.pc + 2 }
  reads : next.bus = (Bus.read (session.registers.pc + 1) session.fetched.bus).2
  memory : Bus.Quiet M → next.bus = session.bus
  /-- Operation `$FF` is for the session itself. -/
  toggle : session.fetched.fetchedOperation = 0xFF →
    next.tracing = !session.tracing ∧ next.registers.a = session.registers.a ∧
      next.handler = session.handler ∧ session.LeavesHandlerAlone
  passed : session.fetched.fetchedOperation ≠ 0xFF → next.tracing = session.tracing
  unanswered : session.fetched.fetchedOperation ≠ 0xFF → session.handler = none →
    next.registers.a = session.registers.a ∧ next.handler = none ∧ session.LeavesHandlerAlone
  answered : session.fetched.fetchedOperation ≠ 0xFF → ∀ handler, session.handler = some handler →
    let answer := ExtensionHandler.call session.fetched.fetchedOperation session.registers.a handler
    next.registers.a = answer.1 ∧ next.handler = some answer.2

theorem extension_effect [ExtensionHandler H] (session : Session M H O)
    (running : session.halted = none) (decoded : session.instruction = .extension) :
    ExtensionEffect session (step session).2 := by
  have two : session.registers.pc + 1 + 1 = session.registers.pc + 2 := by
    rw [UInt16.add_assoc]
    rfl
  have quiet (memory : Bus.Quiet M) :
      (Bus.read (session.registers.pc + 1) session.fetched.bus).2 = session.bus :=
    (memory _ _).trans (fetched_bus_of_quiet memory session)
  cases step_kind session with
  | halted trap halted =>
      rw [running] at halted
      cases halted
  | illegal running other | official running _ _ other =>
      rw [decoded] at other
      cases other
  | toggle running decoded toggle =>
      have alone := handler_left_alone session (handler_call_of_toggle session toggle)
      rw [step_of_toggle session running decoded toggle]
      refine ⟨?_, rfl, quiet, fun _ => ⟨rfl, rfl, rfl, alone⟩, absurd toggle, absurd toggle,
        absurd toggle⟩
      rw [← two]
      rfl
  | unanswered running decoded operation detached =>
      have alone := handler_left_alone session (handler_call_of_detached session detached)
      rw [step_of_unanswered session running decoded operation detached]
      refine ⟨?_, rfl, quiet, fun same => absurd same operation, fun _ => rfl,
        fun _ _ => ⟨rfl, detached, alone⟩, ?_⟩
      · rw [← two]
        rfl
      · intro _ handler attached
        rw [detached] at attached
        cases attached
  | answered running decoded operation handler attached =>
      rw [step_of_answered session running decoded operation attached]
      refine ⟨?_, rfl, quiet, fun same => absurd same operation, fun _ => rfl, ?_, ?_⟩
      · rw [← two]
        rfl
      · intro _ detached
        rw [detached] at attached
        cases attached
      · intro _ other same
        rw [attached] at same
        cases same
        exact ⟨rfl, rfl⟩

/-- A stop comes from the very step that called the handler. -/
theorem stopped_iff_asked [ExtensionHandler H] (session : Session M H O)
    (settled : session.stopPending = false) :
    (step session).1 = .ok .stopped ↔
      ∃ operation accumulator handler, session.handlerCall? = some (operation, accumulator) ∧
        session.handler = some handler ∧
        ExtensionHandler.stopRequested
          (ExtensionHandler.call operation accumulator handler).2 = true := by
  cases step_kind session with
  | halted trap halted =>
      rw [step_of_halted session trap halted, handler_call_of_halted session halted]
      simp
  | illegal running decoded =>
      rw [step_of_illegal session running decoded,
        handler_call_of_other session (by simp [decoded])]
      simp
  | official running mnemonic mode decoded =>
      rw [step_of_official session running decoded,
        handler_call_of_other session (by simp [decoded])]
      simp [settled]
  | toggle running decoded toggle =>
      rw [step_of_toggle session running decoded toggle, handler_call_of_toggle session toggle]
      simp [settled]
  | unanswered running decoded operation detached =>
      rw [step_of_unanswered session running decoded operation detached,
        handler_call_of_detached session detached]
      simp [settled]
  | answered running decoded operation handler attached =>
      rw [step_of_answered session running decoded operation attached,
        handler_call_of_answered session running decoded operation attached, attached, settled]
      simp only [Bool.false_or, Except.ok.injEq, Option.some.injEq, Prod.mk.injEq]
      constructor
      · intro stopped
        refine ⟨_, _, handler, ⟨rfl, rfl⟩, rfl, ?_⟩
        by_contra silent
        rw [if_neg silent] at stopped
        cases stopped
      · rintro ⟨_, _, _, ⟨rfl, rfl⟩, rfl, asked⟩
        exact if_pos asked

end Steps

section Histories

variable {M H O : Type}

/-- What the attached handler has heard so far. -/
def heard (session : Session M (Heard H) O) : List (Byte × Byte) :=
  match session.handler with
  | some handler => handler.calls
  | none => []

/-- The session with the handler that answers in place of the one that keeps the calls. -/
def unrecorded (session : Session M (Heard H) O) : Session M H O where
  processor := session.processor
  config := session.config
  tracing := session.tracing
  stopPending := session.stopPending
  halted := session.halted
  instructions := session.instructions
  observer := session.observer
  handler := session.handler.map Heard.handler
  log := session.log

variable [Bus M] [TraceObserver O]

theorem handler_call_unrecorded (session : Session M (Heard H) O) :
    session.handlerCall? = session.unrecorded.handlerCall? := by
  have attached : session.unrecorded.handler.isSome = session.handler.isSome :=
    Option.isSome_map
  rw [handlerCall?, handlerCall?, attached]
  rfl

variable [ExtensionHandler H]

omit [TraceObserver O] [Bus M] [ExtensionHandler H] in
theorem unrecorded_eq (session : Session M (Heard H) O) :
    session.unrecorded = session.mapHooks Heard.handler id := by
  rcases session with ⟨_, _, _, _, _, _, _ | observer, _, _⟩ <;> rfl

/-- To keep the calls changes nothing else. -/
theorem step_unrecorded :
    Agree (fun (recorded : Session M (Heard H) O) plain => recorded.unrecorded = plain)
      step step := by
  have forget : HooksForget (Heard.handler : Heard H → H) (id : O → O) :=
    ⟨fun _ _ _ => rfl, fun _ => rfl, fun _ _ => rfl⟩
  simp only [unrecorded_eq]
  exact step_map_hooks forget

/-- The calls that the steps of a history make to the handler. -/
def handlerCalls (calls : List (Call M H O)) (session : Session M H O) : List (Byte × Byte) :=
  (stepStarts calls session).filterMap handlerCall?

theorem heard_of_step (session : Session M (Heard H) O) :
    (step session).2.heard = session.heard ++ session.handlerCall?.toList := by
  rw [heard, handler_of_step, heard]
  cases attached : session.handler with
  | none =>
      rw [handler_call_of_detached session attached]
      rfl
  | some handler =>
      cases session.handlerCall? with
      | none => exact (List.append_nil handler.calls).symm
      | some made => rfl

/-- A run of the session in which the handler keeps its calls is the run without, and the handler
hears what the steps of the run without say. -/
theorem heard_of_run (recorded : Session M (Heard H) O) (limit : Nat) :
    (advance limit recorded).1 = (advance limit recorded.unrecorded).1 ∧
      (advance limit recorded).2.unrecorded = (advance limit recorded.unrecorded).2 ∧
      (advance limit recorded).2.heard =
        recorded.heard ++ (advanceStarts limit recorded.unrecorded).filterMap handlerCall? := by
  obtain ⟨result, next, -, starts⟩ := runs_alike step_unrecorded limit recorded _ rfl
  have alike (left : Session M (Heard H) O) (right : Session M H O)
      (same : left.unrecorded = right) : left.handlerCall? = right.handlerCall? :=
    (handler_call_unrecorded left).trans (congrArg handlerCall? same)
  have calls := filter_map_of_related alike starts
  refine ⟨result, next, ?_⟩
  rw [← calls, List.filterMap_eq_flatMap_toList]
  exact advance_accumulates heard_of_step limit recorded

theorem heard_of_idle {call : Call M (Heard H) O} (idle : call.stepLimit = none)
    (keeps : call.keepsHandler) (session : Session M (Heard H) O) :
    (perform call session).2.heard = session.heard := by
  cases call with
  | step | run _ | runFor _ => cases idle
  | attachHandler _ | detachHandler => cases keeps
  | _ => rfl

theorem heard_of_history (session : Session M (Heard H) O) (calls : List (Call M (Heard H) O))
    (keeps : ∀ call ∈ calls, call.keepsHandler) :
    (performAll calls session).2.heard = session.heard ++ handlerCalls calls session := by
  rw [handlerCalls, List.filterMap_eq_flatMap_toList]
  apply perform_all_accumulates heard_of_step
  intro call member idle
  exact heard_of_idle idle (keeps call member)

/-- The protocol of the extension hook in every session that a host can bring about. No stop is
pending between steps, and a step is stopped exactly if it called the handler and the handler,
as the call left it, asks for a stop. An extension instruction is executed and has the effect
described; a step that makes no call does not ask the handler for anything. A handler that keeps
the calls made to it changes no run, and hears the calls that the steps of the run make, in their
order, and no others; so it does over every history that leaves it attached. -/
theorem extension_protocol (session : Session M H O) (reachable : session.Reachable) :
    session.stopPending = false ∧
    ((step session).1 = .ok .stopped ↔
      ∃ operation accumulator handler, session.handlerCall? = some (operation, accumulator) ∧
        session.handler = some handler ∧
        ExtensionHandler.stopRequested
          (ExtensionHandler.call operation accumulator handler).2 = true) ∧
    (session.handlerCall? = none → session.LeavesHandlerAlone) ∧
    (session.halted = none → session.fetchedOpcode = 0xFF →
      (∃ progress, (step session).1 = .ok progress) ∧ ExtensionEffect session (step session).2) ∧
    ∀ recorded : Session M (Heard H) O, recorded.unrecorded = session →
      (∀ limit, (advance limit recorded).1 = (advance limit session).1 ∧
        (advance limit recorded).2.unrecorded = (advance limit session).2 ∧
        (advance limit recorded).2.heard =
          recorded.heard ++ (advanceStarts limit session).filterMap handlerCall?) ∧
      ∀ calls : List (Call M (Heard H) O), (∀ call ∈ calls, call.keepsHandler) →
        (performAll calls recorded).2.heard = recorded.heard ++ handlerCalls calls recorded := by
  have settled := reachable.stop_not_pending
  refine ⟨settled, stopped_iff_asked session settled, handler_left_alone session, ?_, ?_⟩
  · intro running opcode
    have decoded := (extension_iff_opcode session).mpr opcode
    have legal : session.instruction ≠ .illegal := by simp [decoded]
    exact ⟨(step_ok_iff_legal session running).mpr legal,
      extension_effect session running decoded⟩
  · intro recorded same
    refine ⟨?_, heard_of_history recorded⟩
    rw [← same]
    exact heard_of_run recorded

/-- An operation that the handler answers and stops at. -/
theorem script_stops_session :
    let contents : Word → Byte := fun address => if address = 0x0200 then 0xFF else 0x01
    let script : Script := { respond := fun operation _ => operation + 0x41, stopOn := [0x01] }
    let fresh : Session FlatMemory Script Empty := start (FlatMemory.ofFn contents) 0x0200 {}
    let session := (performAll [.attachHandler script] fresh).2
    session.Reachable ∧ (step session).1 = .ok .stopped ∧
      (step session).2.registers = { session.registers with a := 0x42, pc := 0x0202 } := by
  intro contents script fresh session
  have reachable : session.Reachable := ⟨_, _, _, _, rfl⟩
  have opcode : session.fetchedOpcode = 0xFF := FlatMemory.get_of_fn contents 0x0200
  have operation : session.fetched.fetchedOperation = 0x01 := FlatMemory.get_of_fn contents 0x0201
  have attached : session.handler = some script := rfl
  have other : session.fetched.fetchedOperation ≠ 0xFF := by
    rw [operation]
    decide
  obtain ⟨-, stops, -, effect, -⟩ := extension_protocol session reachable
  obtain ⟨-, effect⟩ := effect rfl opcode
  have called : session.handlerCall? = some (0x01, 0x00) := by
    have decoded := (extension_iff_opcode session).mpr opcode
    rw [handler_call_of_answered session rfl decoded other attached, operation]
    rfl
  have answered := (effect.answered other script attached).1
  rw [operation] at answered
  refine ⟨reachable, stops.mpr ⟨_, _, script, called, attached, rfl⟩, ?_⟩
  rw [effect.registers, answered]
  rfl

end Histories

end Session

end Nmos6502
