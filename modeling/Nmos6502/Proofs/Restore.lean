import Nmos6502.Proofs.Observer
import Nmos6502.Proofs.Replay

/-!
Saving a session and starting another one from what was saved. Memory, registers, status byte,
trace switch and hooks are all that a running session is between two calls. The copy goes on as the
original does; only its count of instructions and its log begin anew.
-/

namespace Nmos6502.Session

variable {M H O : Type}

/-- The calls that give a fresh session on the same memory and at the same address what else can
be saved. The flags go through the status byte. -/
def restoring (session : Session M H O) : List (Call M H O) :=
  [.setA session.registers.a, .setX session.registers.x, .setY session.registers.y,
    .setSP session.registers.sp, .setStatus session.registers.status,
    .setTracing session.tracing] ++
  session.observer.toList.map .attachObserver ++ session.handler.toList.map .attachHandler

/-- The session with a log and a count of instructions that were there before its own. -/
def continuing (earlier : Array LogRecord) (count : UInt64) (session : Session M H O) :
    Session M H O :=
  { session with
    instructions := session.instructions + count
    log := earlier ++ session.log }

variable [Bus M] [ExtensionHandler H] [TraceObserver O]

def restored (config : Config) (session : Session M H O) : Session M H O :=
  (performAll session.restoring (start session.bus session.registers.pc config)).2

theorem step_config (session : Session M H O) : (step session).2.config = session.config := by
  cases halted : session.halted with
  | some trap => rw [step_of_halted session trap halted]
  | none =>
      by_cases illegal : session.instruction = .illegal
      · rw [step_of_illegal session halted illegal]
        rfl
      · obtain ⟨-, -, -, -, kept⟩ := step_of_legal session halted illegal
        exact kept

theorem config_of_history (session : Session M H O) (calls : List (Call M H O)) :
    (performAll calls session).2.config = session.config := by
  apply perform_all_preserves fun later => later.config = session.config
  · intro later same
    exact (step_config later).trans same
  · intro later processor tracing observer handler same
    exact same
  · rfl

theorem restored_eq (config : Config) (session : Session M H O) :
    session.restored config =
      { session with
        config := config, stopPending := false, halted := none
        instructions := 0, log := #[] } := by
  have flags : Flags.ofByte session.registers.status = session.registers.flags :=
    Flags.of_byte_to_byte session.registers.flags
  have loaded : session.restored config =
      { session with
        processor := ⟨{ session.registers with flags := Flags.ofByte session.registers.status },
          session.bus⟩
        config := config, stopPending := false, halted := none
        instructions := 0, log := #[] } := by
    rcases session with ⟨_, _, _, _, _, _, _ | observer, _ | handler, _⟩ <;> rfl
  rw [loaded, flags]
  rfl

/-- Nothing of a running session is lost but the log and the count. -/
theorem continuing_restored (session : Session M H O) (running : session.halted = none)
    (settled : session.stopPending = false) :
    session = (session.restored session.config).continuing session.log session.instructions := by
  have counted : 0 + session.instructions = session.instructions :=
    UInt64.zero_add session.instructions
  have logged : session.log ++ #[] = session.log := Array.append_empty
  rw [restored_eq, continuing, counted, logged, ← running, ← settled]

/-- A log and a count from before do not show in a step. -/
theorem step_continuing (earlier : Array LogRecord) (count : UInt64) :
    Agree (fun (original copy : Session M H O) => original = copy.continuing earlier count)
      step step := by
  rintro original copy rfl
  have counted : (copy.continuing earlier count).instructions + 1 =
      copy.instructions + 1 + count := by
    rw [continuing]
    grind
  have pushed (log : Array LogRecord) (entry : LogRecord) :
      (earlier ++ log).push entry = earlier ++ log.push entry := Array.append_push.symm
  have logged (entry : LogRecord) :
      (copy.continuing earlier count).log.push entry = earlier ++ copy.log.push entry :=
    pushed copy.log entry
  cases step_kind copy with
  | halted trap halted =>
      rw [step_of_halted copy trap halted,
        step_of_halted (copy.continuing earlier count) trap halted]
      exact ⟨rfl, rfl⟩
  | illegal running decoded =>
      rw [step_of_illegal copy running decoded,
        step_of_illegal (copy.continuing earlier count) running decoded, logged]
      exact ⟨rfl, rfl⟩
  | official running mnemonic mode decoded =>
      rw [step_of_official copy running decoded,
        step_of_official (copy.continuing earlier count) running decoded, logged, counted]
      exact ⟨rfl, rfl⟩
  | toggle running decoded toggle =>
      rw [step_of_toggle copy running decoded toggle,
        step_of_toggle (copy.continuing earlier count) running decoded toggle, logged, pushed,
        counted]
      exact ⟨rfl, rfl⟩
  | unanswered running decoded operation detached =>
      rw [step_of_unanswered copy running decoded operation detached,
        step_of_unanswered (copy.continuing earlier count) running decoded operation detached,
        logged, pushed, counted]
      exact ⟨rfl, rfl⟩
  | answered running decoded operation handler attached =>
      rw [step_of_answered copy running decoded operation attached,
        step_of_answered (copy.continuing earlier count) running decoded operation attached, logged,
        pushed, ← apply_ite (earlier ++ ·), counted]
      exact ⟨rfl, rfl⟩

theorem idle_continuing (earlier : Array LogRecord) (count : UInt64) {call : Call M H O}
    (idle : call.stepLimit = none) :
    Agree (fun (original copy : Session M H O) => original = copy.continuing earlier count)
      (perform call) (perform call) := by
  rintro original copy rfl
  cases call with
  | step | run _ | runFor _ => cases idle
  | _ => exact ⟨rfl, rfl⟩

theorem accesses_continuing (earlier : Array LogRecord) (count : UInt64) (copy : Session M H O) :
    (copy.continuing earlier count).accesses = copy.accesses := by
  obtain ⟨-, same⟩ := step_continuing earlier count (copy.recording.continuing earlier count)
    copy.recording rfl
  exact congrArg (fun session => session.bus.accesses.toList) same

theorem step_starts_continuing (earlier : Array LogRecord) (count : UInt64)
    (calls : List (Call M H O)) (copy : Session M H O) :
    stepStarts calls (copy.continuing earlier count) =
      (stepStarts calls copy).map (continuing earlier count) := by
  have starts := step_starts_related (step_continuing earlier count)
    (fun (call : Call M H O) (_ : call ∈ calls) idle => idle_continuing earlier count idle)
    (copy.continuing earlier count) copy rfl
  rw [← List.forall₂_map_right_iff, List.forall₂_eq_eq_eq] at starts
  exact starts

theorem start_increments (memory : FlatMemory) (pc : Word) (config : Config)
    (increment : memory.get pc = 0xE8) :
    let fresh : Session FlatMemory Script (Array Snapshot) := start memory pc config
    (performAll [.attachObserver #[], .step] fresh).2.halted = none ∧
      (performAll [.attachObserver #[], .step] fresh).2.instructions = 1 := by
  intro fresh
  have stepped (call : Call FlatMemory Script (Array Snapshot)) :
      (performAll [call, .step] fresh).2 = (step (perform call fresh).2).2 := rfl
  have opcode : (perform (.attachObserver #[]) fresh).2.fetchedOpcode = 0xE8 := by
    rw [fetchedOpcode, bus_at_fetch_of_quiet FlatMemory.reads_quietly]
    exact increment
  have legal : (perform (.attachObserver #[]) fresh).2.instruction ≠ .illegal := by
    rw [instruction, opcode, ne_eq, Instruction.decode_illegal_iff]
    decide +kernel
  obtain ⟨-, -, running, counted, -⟩ := step_of_legal _ rfl legal
  rw [stepped]
  exact ⟨running, counted⟩

/-- A running session, saved after any history and restored over the saved memory with the same
options, returns the same from then on as the original does, whatever the host calls. Its steps
make the same accesses, the same calls to the handler and show the same to the observer, and it
ends in the same state, but for the log and the count that the original had when it was saved. -/
theorem restored_session_goes_on_alike (bus : M) (pc : Word) (config : Config)
    (history calls : List (Call M H O))
    (running : (performAll history (start bus pc config)).2.halted = none) :
    let original := (performAll history (start bus pc config)).2
    let copy := original.restored config
    (performAll calls original).1 = (performAll calls copy).1 ∧
      (performAll calls original).2 =
        (performAll calls copy).2.continuing original.log original.instructions ∧
      (stepStarts calls original).map accesses = (stepStarts calls copy).map accesses ∧
      handlerCalls calls original = handlerCalls calls copy ∧
      shown calls original = shown calls copy := by
  intro original copy
  have settled : original.stopPending = false :=
    Reachable.stop_not_pending ⟨bus, pc, config, history, rfl⟩
  have options : original.config = config := config_of_history (start bus pc config) history
  have continued : original = copy.continuing original.log original.instructions := by
    have saved := continuing_restored original running settled
    rw [options] at saved
    exact saved
  obtain ⟨replies, last⟩ := perform_all_agrees
    (step_continuing original.log original.instructions)
    (fun (call : Call M H O) (_ : call ∈ calls) idle =>
      idle_continuing original.log original.instructions idle)
    original copy continued
  have starts : stepStarts calls original =
      (stepStarts calls copy).map (continuing original.log original.instructions) := by
    rw [← step_starts_continuing, ← continued]
  refine ⟨replies, last, ?_, ?_, ?_⟩
  · rw [starts, List.map_map]
    apply List.map_congr_left
    intro start member
    exact accesses_continuing original.log original.instructions start
  · rw [handlerCalls, starts, List.filterMap_map]
    rfl
  · rw [shown_of_history, shown_of_history, starts, List.filterMap_map]
    rfl

/-- One INX has been executed when the session is saved. -/
theorem incrementing_session_goes_on_alike :
    let memory := FlatMemory.ofFn fun _ => 0xE8
    let fresh : Session FlatMemory Script (Array Snapshot) :=
      start memory 0x0200 { tracing := true }
    let original := (performAll [.attachObserver #[], .step] fresh).2
    let copy := original.restored { tracing := true }
    original.halted = none ∧ original.instructions = 1 ∧
      (performAll [.runFor 3, .setY 0x05, .run 9] original).2 =
        (performAll [.runFor 3, .setY 0x05, .run 9] copy).2.continuing original.log 1 := by
  have increment : (FlatMemory.ofFn fun _ => 0xE8).get 0x0200 = 0xE8 :=
    FlatMemory.get_of_fn (fun _ => 0xE8) 0x0200
  obtain ⟨running, counted⟩ := start_increments _ 0x0200 { tracing := true } increment
  obtain ⟨-, last, -⟩ := restored_session_goes_on_alike _ 0x0200 { tracing := true }
    [.attachObserver #[], .step] [.runFor 3, .setY 0x05, .run 9] running
  rw [counted] at last
  exact ⟨running, counted, last⟩

end Nmos6502.Session
