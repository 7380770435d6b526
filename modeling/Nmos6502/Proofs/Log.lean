import Nmos6502.Bus.Flat
import Nmos6502.Session.Script
import Nmos6502.Proofs.Extension

/-!
The log as an account of the session. What a step writes is read off where it starts and how it
ends; the log of a history is these records, step after step. So the records of executed
instructions are as many as the session has counted, and the record of a trap is the last one.
-/

namespace Nmos6502

namespace Session

variable {M H O : Type} [Bus M] [ExtensionHandler H] [TraceObserver O]

/-- What an extension instruction adds to the record of its execution. Its address is that of its
opcode. -/
def extensionRecords (session : Session M H O) : List LogRecord :=
  let operation := session.fetched.fetchedOperation
  if operation = 0xFF then [.traceSwitched (step session).2.tracing session.registers.pc]
  else
    match session.handler with
    | none => [.unanswered operation session.registers.pc]
    | some handler =>
        let answer := ExtensionHandler.call operation session.registers.a handler
        if ExtensionHandler.stopRequested answer.2 then [.stopRequested operation] else []

/-- What an executed instruction adds to the record of its execution. -/
def followingRecords (session : Session M H O) : List LogRecord :=
  if session.fetchedOpcode = 0xFF then session.extensionRecords else []

/-- What a step of the session writes to the log. -/
def stepRecords (session : Session M H O) : List LogRecord :=
  if session.halted.isSome then []
  else
    match (step session).1 with
    | .error trap => [.halting trap]
    | .ok _ => .executing session.registers.pc session.fetchedOpcode :: session.followingRecords

theorem extension_records_of_toggle (session : Session M H O)
    (toggle : session.fetched.fetchedOperation = traceToggle) : session.extensionRecords =
      [.traceSwitched (step session).2.tracing session.registers.pc] :=
  if_pos toggle

theorem extension_records_of_unanswered (session : Session M H O)
    (operation : session.fetched.fetchedOperation ≠ traceToggle)
    (detached : session.handler = none) :
    session.extensionRecords =
      [.unanswered session.fetched.fetchedOperation session.registers.pc] := by
  have passed : session.fetched.fetchedOperation ≠ 0xFF := operation
  rw [extensionRecords, if_neg passed, detached]

theorem extension_records_of_answered (session : Session M H O)
    (operation : session.fetched.fetchedOperation ≠ traceToggle) {handler : H}
    (attached : session.handler = some handler) :
    session.extensionRecords =
      if ExtensionHandler.stopRequested (ExtensionHandler.call session.fetched.fetchedOperation
        session.registers.a handler).2 then
        [.stopRequested session.fetched.fetchedOperation] else [] := by
  have passed : session.fetched.fetchedOperation ≠ 0xFF := operation
  rw [extensionRecords, if_neg passed, attached]

theorem step_records_of_halted (session : Session M H O) {trap : Trap}
    (halted : session.halted = some trap) : session.stepRecords = [] := by
  simp [stepRecords, halted]

theorem step_records_of_trapped (session : Session M H O) (running : session.halted = none)
    {trap : Trap} (trapped : (step session).1 = .error trap) :
    session.stepRecords = [.halting trap] := by
  simp [stepRecords, running, trapped]

theorem step_records_of_executed (session : Session M H O) (running : session.halted = none)
    {progress : Progress} (executed : (step session).1 = .ok progress) :
    session.stepRecords =
      .executing session.registers.pc session.fetchedOpcode :: session.followingRecords := by
  simp [stepRecords, running, executed]

theorem following_records_of_extension (session : Session M H O)
    (decoded : session.instruction = .extension) :
    session.followingRecords = session.extensionRecords :=
  if_pos ((extension_iff_opcode session).mp decoded)

theorem following_records_of_other (session : Session M H O)
    (other : session.instruction ≠ .extension) : session.followingRecords = [] := by
  rw [ne_eq, extension_iff_opcode] at other
  exact if_neg other

/-- At most one record follows that of an execution, and it is of another kind. -/
theorem following_records_short (session : Session M H O) :
    session.followingRecords.length ≤ 1 ∧
      ∀ entry ∈ session.followingRecords, entry.level = .debug ∨ entry.level = .warn := by
  unfold followingRecords extensionRecords
  dsimp only
  split
  · split
    · simp [LogRecord.level]
    · split
      · simp [LogRecord.level]
      · split <;> simp [LogRecord.level]
  · simp

omit [ExtensionHandler H] in
/-- Two back from behind its operation byte is the opcode, also where the address has wrapped. -/
theorem extension_address (session : Session M H O) :
    session.fetched.operationFetched.registers.pc - 2 = session.registers.pc := by
  have behind : session.fetched.operationFetched.registers.pc = session.registers.pc + 1 + 1 := rfl
  rw [behind, UInt16.add_assoc]
  exact UInt16.add_sub_cancel session.registers.pc 2

/-- A step writes its records behind what is in the log. -/
theorem log_of_step (session : Session M H O) :
    (step session).2.log.toList = session.log.toList ++ session.stepRecords := by
  have address := extension_address session
  cases step_kind session with
  | halted trap halted =>
      rw [step_records_of_halted session halted, step_of_halted session trap halted,
        List.append_nil]
  | illegal running decoded =>
      have trapped := step_of_illegal session running decoded
      rw [step_records_of_trapped session running (congrArg Prod.fst trapped), trapped]
      exact Array.toList_push
  | official running mnemonic mode decoded =>
      have executed := step_of_official session running decoded
      rw [step_records_of_executed session running (congrArg Prod.fst executed),
        following_records_of_other session (by simp [decoded]), executed]
      exact Array.toList_push
  | toggle running decoded toggle =>
      have executed := step_of_toggle session running decoded toggle
      rw [step_records_of_executed session running (congrArg Prod.fst executed),
        following_records_of_extension session decoded,
        extension_records_of_toggle session toggle, executed, address]
      simp
  | unanswered running decoded operation detached =>
      have executed := step_of_unanswered session running decoded operation detached
      rw [step_records_of_executed session running (congrArg Prod.fst executed),
        following_records_of_extension session decoded,
        extension_records_of_unanswered session operation detached, executed, address]
      simp
  | answered running decoded operation handler attached =>
      have executed := step_of_answered session running decoded operation attached
      rw [step_records_of_executed session running (congrArg Prod.fst executed),
        following_records_of_extension session decoded,
        extension_records_of_answered session operation attached, executed]
      dsimp only
      split <;> simp

theorem log_of_idle {call : Call M H O} (idle : call.stepLimit = none) (session : Session M H O) :
    (perform call session).2.log.toList = session.log.toList := by
  obtain ⟨_, _, _, _, changes⟩ := perform_idle idle session
  rw [changes]

theorem log_of_history (calls : List (Call M H O)) (session : Session M H O) :
    (performAll calls session).2.log.toList =
      session.log.toList ++ (stepStarts calls session).flatMap stepRecords := by
  let written (session : Session M H O) : List LogRecord := session.log.toList
  have stepped : ∀ session, written (step session).2 = written session ++ session.stepRecords :=
    log_of_step
  exact perform_all_accumulates stepped calls (fun _ _ => log_of_idle) session

omit [Bus M] [ExtensionHandler H] [TraceObserver O] in
/-- How many of the records are of executed instructions. -/
def executions (session : Session M H O) : Nat :=
  session.log.toList.countP fun entry => entry.level = .trace

/-- What the log says about the state that the session is in. -/
structure LogTells (session : Session M H O) : Prop where
  counted : session.instructions = UInt64.ofNat session.executions
  running : session.halted = none → ∀ entry ∈ session.log.toList, entry.level ≠ .error
  ended : ∀ trap, session.halted = some trap → ∃ earlier,
    session.log.toList = earlier ++ [.halting trap] ∧ ∀ entry ∈ earlier, entry.level ≠ .error

theorem log_tells_step (session : Session M H O) (tells : LogTells session) :
    LogTells (step session).2 := by
  have logged := log_of_step session
  cases halted : session.halted with
  | some trap =>
      rw [step_of_halted session trap halted]
      exact tells
  | none =>
      -- A session that is still running has no error on record, so a trap puts the first one there.
      have clean := tells.running halted
      have count := step_counts session
      cases result : (step session).1 with
      | error trap =>
          have ended := halted_of_step_error session result
          rw [step_records_of_trapped session halted result] at logged
          rw [result] at count
          constructor
          · rw [count, tells.counted, executions, executions, logged, List.countP_append]
            rfl
          · intro running
            rw [ended] at running
            cases running
          · intro other same
            rw [ended] at same
            cases same
            exact ⟨session.log.toList, logged, clean⟩
      | ok progress =>
          have legal := (step_ok_iff_legal session halted).mp ⟨progress, result⟩
          obtain ⟨-, -, running, -⟩ := step_of_legal session halted legal
          rw [step_records_of_executed session halted result] at logged
          rw [result] at count
          have quiet := (following_records_short session).2
          constructor
          · have untraced :
                session.followingRecords.countP (fun entry => entry.level = .trace) = 0 := by
              rw [List.countP_eq_zero]
              intro entry member
              rcases quiet entry member with level | level <;> simp [level]
            rw [count, tells.counted, executions, executions, logged, List.countP_append,
              List.countP_cons_of_pos (by rfl), untraced, UInt64.ofNat_add]
            rfl
          · intro _ entry member
            rw [logged] at member
            rcases List.mem_append.mp member with before | added
            · exact clean entry before
            · rcases List.mem_cons.mp added with rfl | more
              · simp [LogRecord.level]
              · rcases quiet entry more with level | level <;> simp [level]
          · intro trap ended
            rw [running] at ended
            cases ended

theorem log_tells_of_reachable {session : Session M H O} (reachable : session.Reachable) :
    LogTells session := by
  obtain ⟨bus, pc, config, calls, rfl⟩ := reachable
  apply perform_all_preserves LogTells log_tells_step
  · intro session processor tracing observer handler tells
    exact ⟨tells.counted, tells.running, tells.ended⟩
  · constructor
    · rfl
    · intro _ entry member
      cases member
    · intro trap ended
      cases ended

/-- What the record behind that of an execution says, and when it is there. -/
inductive Followed (session : Session M H O) : LogRecord → String → Prop where
  | toggled (operation : session.fetched.fetchedOperation = 0xFF) :
      Followed session (.traceSwitched (step session).2.tracing session.registers.pc)
        ("DEBUG " ++ ("trace " ++ (if (step session).2.tracing then "on" else "off") ++ " at " ++
          Hex.word session.registers.pc))
  | stopped (operation : session.fetched.fetchedOperation ≠ 0xFF) (handler : H)
      (attached : session.handler = some handler)
      (asked : ExtensionHandler.stopRequested (ExtensionHandler.call
        session.fetched.fetchedOperation session.registers.a handler).2 = true) :
      Followed session (.stopRequested session.fetched.fetchedOperation)
        ("DEBUG " ++ ("host requested stop after extension op " ++
          Hex.byte session.fetched.fetchedOperation))
  | unanswered (operation : session.fetched.fetchedOperation ≠ 0xFF)
      (detached : session.handler = none) :
      Followed session (.unanswered session.fetched.fetchedOperation session.registers.pc)
        ("WARN " ++ ("extension op " ++ Hex.byte session.fetched.fetchedOperation ++ " at " ++
          Hex.word session.registers.pc ++ " with no handler attached"))

theorem followed_of_member (session : Session M H O) {entry : LogRecord}
    (member : entry ∈ session.followingRecords) :
    session.fetchedOpcode = 0xFF ∧ Followed session entry entry.line := by
  unfold followingRecords extensionRecords at member
  dsimp only at member
  split at member
  case isFalse => cases member
  case isTrue opcode =>
    refine ⟨opcode, ?_⟩
    split at member
    case isTrue operation =>
      rw [List.mem_singleton.mp member]
      exact .toggled operation
    case isFalse operation =>
      cases attached : session.handler with
      | none =>
          rw [attached] at member
          rw [List.mem_singleton.mp member]
          exact .unanswered operation attached
      | some handler =>
          rw [attached] at member
          dsimp only at member
          split at member
          case isTrue asked =>
            rw [List.mem_singleton.mp member]
            exact .stopped operation handler attached asked
          case isFalse => cases member

/-- The lines that the records of a step are written as. -/
structure LinesRead (session : Session M H O) : Prop where
  executed : ∀ entry ∈ session.stepRecords, entry.level = .trace →
    entry.line = "TRACE " ++ (Hex.word session.registers.pc ++ "  " ++
      Hex.byte session.fetchedOpcode ++ "  " ++ session.instruction.spelling)
  trapped : ∀ entry ∈ session.stepRecords, entry.level = .error →
    ∃ trap, (step session).1 = .error trap ∧ entry.line = "ERROR " ++ (trap.message ++ ", halting")
  followed : ∀ entry ∈ session.followingRecords,
    session.fetchedOpcode = 0xFF ∧ Followed session entry entry.line

theorem lines_read (session : Session M H O) : LinesRead session := by
  have followed := fun entry (member : entry ∈ session.followingRecords) =>
    followed_of_member session member
  cases halted : session.halted with
  | some trap =>
      have none := step_records_of_halted session halted
      refine ⟨?_, ?_, followed⟩ <;> simp [none]
  | none =>
      cases result : (step session).1 with
      | error trap =>
          have only := step_records_of_trapped session halted result
          refine ⟨?_, ?_, followed⟩ <;> rw [only]
          · simp [LogRecord.level]
          · intro entry member _
            rw [List.mem_singleton.mp member]
            exact ⟨trap, result, rfl⟩
      | ok progress =>
          have records := step_records_of_executed session halted result
          have quiet := (following_records_short session).2
          refine ⟨?_, ?_, followed⟩ <;> rw [records] <;> intro entry member level
          · rcases List.mem_cons.mp member with rfl | more
            · rfl
            · rcases quiet entry more with other | other <;> simp [other] at level
          · rcases List.mem_cons.mp member with rfl | more
            · cases level
            · rcases quiet entry more with other | other <;> simp [other] at level

/-- The log gives a faithful account of the session. It is what the steps have written, one after
the other. Each executed instruction has left one record with its address, its opcode and its
mnemonic, and at most one more if it was an extension; a trap has left one record with what the step
returned, and an ended session none. So the records of executions are as many as the instructions
counted, in the width of the counter, and a trap is on record exactly if the session has ended,
once, and last. -/
theorem log_accounts_for_session (bus : M) (pc : Word) (config : Config)
    (calls : List (Call M H O)) :
    let fresh : Session M H O := start bus pc config
    let session := (performAll calls fresh).2
    session.log.toList = (stepStarts calls fresh).flatMap stepRecords ∧
    (∀ start ∈ stepStarts calls fresh,
      start.followingRecords.length ≤ 1 ∧ LinesRead start) ∧
    session.instructions.toNat = session.executions % UInt64.size ∧
    (session.halted = none → ∀ entry ∈ session.log.toList, entry.level ≠ .error) ∧
    ∀ trap, session.halted = some trap → ∃ earlier,
      session.log.toList = earlier ++ [.halting trap] ∧
        ∀ entry ∈ earlier, entry.level ≠ .error := by
  intro fresh session
  have tells : LogTells session := log_tells_of_reachable ⟨bus, pc, config, calls, rfl⟩
  refine ⟨log_of_history calls fresh, ?_, ?_, tells.running, tells.ended⟩
  · intro start member
    exact ⟨(following_records_short start).1, lines_read start⟩
  · rw [tells.counted]
    exact UInt64.toNat_ofNat'

/-- Tracing is switched on at the top of memory, and the session ends behind the operation byte. -/
theorem toggle_and_trap_are_logged :
    let memory := FlatMemory.ofFn fun address => if address = 0x0001 then 0x02 else 0xFF
    let fresh : Session FlatMemory Script (Array Snapshot) := start memory 0xFFFF {}
    (performAll [.step, .step] fresh).2.log.toList =
        [.executing 0xFFFF 0xFF, .traceSwitched true 0xFFFF,
          .halting (.illegalOpcode 0x02 0x0001)] ∧
      (performAll [.step, .step] fresh).2.halted = some (.illegalOpcode 0x02 0x0001) ∧
      ∃ earlier, (performAll [.step, .step] fresh).2.log.toList =
          earlier ++ [.halting (.illegalOpcode 0x02 0x0001)] ∧
        ∀ entry ∈ earlier, entry.level ≠ .error := by
  intro memory fresh
  have cell : ∀ address, memory.get address = if address = 0x0001 then 0x02 else 0xFF :=
    FlatMemory.get_of_fn _
  have opcode : fresh.fetchedOpcode = 0xFF := cell 0xFFFF
  have top : (0xFFFF : Word) + 1 = 0x0000 := by decide
  have operation : memory.get (0xFFFF + 1) = 0xFF := by
    rw [top]
    exact cell 0x0000
  have toggle : fresh.fetched.fetchedOperation = traceToggle := operation
  have decoded := (extension_iff_opcode fresh).mpr opcode
  have switched := step_of_toggle fresh rfl decoded toggle
  have behind : (0xFFFF : Word) + 1 + 1 = 0x0001 := by decide
  have pc : (step fresh).2.registers.pc = 0x0001 :=
    (congrArg (fun result => result.2.registers.pc) switched).trans behind
  have bus : (step fresh).2.bus = memory := congrArg (fun result => result.2.bus) switched
  have running : (step fresh).2.halted = none := congrArg (fun result => result.2.halted) switched
  have illegal : (step fresh).2.fetchedOpcode = 0x02 := by
    rw [fetchedOpcode, bus_at_fetch_of_quiet FlatMemory.reads_quietly, pc, bus]
    exact cell 0x0001
  have undefined : (step fresh).2.instruction = .illegal := by
    rw [instruction, illegal, Instruction.decode_illegal_iff]
    decide +kernel
  have trapped := congrArg Prod.fst (step_of_illegal (step fresh).2 running undefined)
  rw [illegal, pc] at trapped
  have taken (first : Session FlatMemory Script (Array Snapshot)) :
      (performAll [.step, .step] first).2 = (step (step first).2).2 := rfl
  have halted : (performAll [.step, .step] fresh).2.halted = some (.illegalOpcode 0x02 0x0001) := by
    rw [taken]
    exact halted_of_step_error (step fresh).2 trapped
  obtain ⟨logged, -, -, -, ended⟩ := log_accounts_for_session (H := Script) (O := Array Snapshot)
    memory 0xFFFF {} [.step, .step]
  have started : fresh = start memory 0xFFFF {} := rfl
  rw [← started] at logged ended
  refine ⟨?_, halted, ended (.illegalOpcode 0x02 0x0001) halted⟩
  have first : fresh.stepRecords = [.executing 0xFFFF 0xFF, .traceSwitched true 0xFFFF] := by
    rw [step_records_of_executed fresh rfl (congrArg Prod.fst switched),
      following_records_of_extension fresh decoded, extension_records_of_toggle fresh toggle,
      opcode, switched]
    rfl
  have second := step_records_of_trapped (step fresh).2 running trapped
  rw [logged, step_starts_step, step_starts_step, stepStarts, List.flatMap_cons, List.flatMap_cons,
    first, second]
  rfl

end Session

end Nmos6502
