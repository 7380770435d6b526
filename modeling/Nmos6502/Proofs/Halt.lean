import Nmos6502.Bus.Flat
import Nmos6502.Session.Script
import Nmos6502.Proofs.History

/-!
A session after its trap. Steps and runs find the trap before they do anything else, so they
change nothing and ask nobody. Other calls can still change what the session would work on, but
neither the trap nor the count of instructions.
-/

namespace Nmos6502.Session

variable {M H O : Type}

/-- The call has one outcome, whatever the bus, the handler and the observer would do. So it
makes no access to the bus and calls neither hook. -/
def AsksNobody (call : Call M H O) (session : Session M H O) : Prop :=
  ∃ outcome, ∀ (bus : Bus M) (handler : ExtensionHandler H) (observer : TraceObserver O),
    @perform M H O bus handler observer call session = outcome

/-- What a call that takes steps returns after the trap. -/
def replyAfterTrap (trap : Trap) : Call M H O → Reply
  | .step => .progress (.error trap)
  | .run 0 => .unfinished
  | .run (_ + 1) => .count (.error trap)
  | .runFor limit => .count (if limit = 0 then .ok 0 else .error trap)
  | _ => .done

variable [Bus M] [ExtensionHandler H] [TraceObserver O]

theorem perform_of_halted {call : Call M H O} (stepping : call.stepLimit.isSome)
    (session : Session M H O) {trap : Trap} (halted : session.halted = some trap) :
    perform call session = (replyAfterTrap trap call, session) := by
  cases call with
  | step =>
      rw [perform, bind_run, step_of_halted session trap halted]
      rfl
  | run fuel =>
      cases fuel with
      | zero => rfl
      | succ fuel =>
          rw [perform, bind_run, run_of_halted session fuel halted]
          rfl
  | runFor limit =>
      rw [perform, bind_run, run_for_of_halted session limit halted]
      rfl
  | _ => cases stepping

/-- No call brings an ended session back or makes it count. -/
theorem ended_of_history (session : Session M H O) {trap : Trap}
    (halted : session.halted = some trap) (calls : List (Call M H O)) :
    (performAll calls session).2.halted = some trap ∧
      (performAll calls session).2.instructions = session.instructions := by
  apply perform_all_preserves fun later =>
    later.halted = some trap ∧ later.instructions = session.instructions
  · intro later ended
    rw [step_of_halted later trap ended.1]
    exact ended
  · intro later processor tracing observer handler ended
    exact ended
  · exact ⟨halted, rfl⟩

/-- Once a step has trapped, whatever the host does, every further step or run leaves the whole
session as it finds it, with the memory, the hooks and the log, asks nobody, and comes to an end;
the trap and the count of instructions stay. -/
theorem calls_after_trap_change_nothing (session : Session M H O) {trap : Trap}
    (trapped : (step session).1 = .error trap) (earlier : List (Call M H O)) :
    let ended := (performAll earlier (step session).2).2
    ended.halted = some trap ∧ ended.instructions = (step session).2.instructions ∧
      (∀ call, call.stepLimit.isSome → (perform call ended).2 = ended ∧ AsksNobody call ended) ∧
      ∀ fuel, run (fuel + 1) ended = (some (.error trap), ended) := by
  intro ended
  obtain ⟨halted, counted⟩ :=
    ended_of_history (step session).2 (halted_of_step_error session trapped) earlier
  refine ⟨halted, counted, ?_, fun fuel => run_of_halted ended fuel halted⟩
  intro call stepping
  refine ⟨congrArg Prod.snd (perform_of_halted stepping ended halted), ?_⟩
  exact ⟨_, fun bus handler observer => perform_of_halted stepping ended halted⟩

theorem start_traps (memory : FlatMemory) (pc : Word) (barren : memory.get pc = 0x02) :
    (step (start memory pc {} : Session FlatMemory Script (Array Snapshot))).1 =
      .error (.illegalOpcode 0x02 pc) := by
  have opcode : (start memory pc {} : Session FlatMemory Script (Array Snapshot)).fetchedOpcode =
      0x02 := barren
  have decoded : (start memory pc {} : Session FlatMemory Script (Array Snapshot)).instruction =
      .illegal := by
    rw [instruction, opcode, Instruction.decode_illegal_iff]
    decide +kernel
  rw [step_of_illegal _ rfl decoded, opcode]
  rfl

/-- The patched opcode, the switched trace and the new hooks go unnoticed. -/
theorem patched_session_stays_ended :
    let fresh : Session FlatMemory Script (Array Snapshot) :=
      start (FlatMemory.ofFn fun _ => 0x02) 0x8000 {}
    let patches : List (Call FlatMemory Script (Array Snapshot)) :=
      [.write 0x8000 0xEA, .setTracing true, .attachObserver #[],
        .attachHandler { respond := fun _ accumulator => accumulator }]
    (step fresh).1 = .error (.illegalOpcode 0x02 0x8000) ∧
      (performAll patches (step fresh).2).2.halted = some (.illegalOpcode 0x02 0x8000) ∧
      (perform (.runFor 10) (performAll patches (step fresh).2).2).2 =
        (performAll patches (step fresh).2).2 := by
  intro fresh patches
  have trapped := start_traps _ 0x8000 (FlatMemory.get_of_fn (fun _ => 0x02) 0x8000)
  obtain ⟨halted, -, unchanged, -⟩ := calls_after_trap_change_nothing fresh trapped patches
  exact ⟨trapped, halted, (unchanged (.runFor 10) rfl).1⟩

/-- Once a step has trapped, whatever the host does, every further step or run returns the same
trap, but for a run limited to no steps. -/
theorem calls_after_trap_return_it (session : Session M H O) {trap : Trap}
    (trapped : (step session).1 = .error trap) (earlier : List (Call M H O)) :
    let ended := (performAll earlier (step session).2).2
    (step ended).1 = .error trap ∧ (∀ fuel, (run (fuel + 1) ended).1 = some (.error trap)) ∧
      (∀ limit, limit ≠ 0 → (runFor limit ended).1 = .error trap) ∧
      (runFor 0 ended).1 = .ok 0 := by
  intro ended
  obtain ⟨halted, -⟩ :=
    ended_of_history (step session).2 (halted_of_step_error session trapped) earlier
  refine ⟨?_, ?_, ?_, ?_⟩
  · rw [step_of_halted ended trap halted]
  · intro fuel
    rw [run_of_halted ended fuel halted]
  · intro limit taken
    rw [run_for_of_halted ended limit halted, if_neg taken]
  · rw [run_for_of_halted ended 0 halted, if_pos rfl]

theorem patched_session_returns_trap :
    let fresh : Session FlatMemory Script (Array Snapshot) :=
      start (FlatMemory.ofFn fun _ => 0x02) 0x8000 {}
    let patches : List (Call FlatMemory Script (Array Snapshot)) :=
      [.write 0x8000 0xEA, .runFor 0, .setPC 0]
    (step fresh).1 = .error (.illegalOpcode 0x02 0x8000) ∧
      (step (performAll patches (step fresh).2).2).1 = .error (.illegalOpcode 0x02 0x8000) ∧
      (runFor 10 (performAll patches (step fresh).2).2).1 =
        .error (.illegalOpcode 0x02 0x8000) := by
  intro fresh patches
  have trapped := start_traps _ 0x8000 (FlatMemory.get_of_fn (fun _ => 0x02) 0x8000)
  obtain ⟨stepped, -, limited, -⟩ := calls_after_trap_return_it fresh trapped patches
  exact ⟨trapped, stepped, limited 10 (by decide)⟩

/-- Right after the trap a run limited to no steps reports success. -/
theorem empty_run_hides_trap :
    let fresh : Session FlatMemory Script (Array Snapshot) :=
      start (FlatMemory.ofFn fun _ => 0x02) 0x8000 {}
    (step fresh).1 = .error (.illegalOpcode 0x02 0x8000) ∧ (runFor 0 (step fresh).2).1 = .ok 0 := by
  intro fresh
  have trapped := start_traps _ 0x8000 (FlatMemory.get_of_fn (fun _ => 0x02) 0x8000)
  refine ⟨trapped, ?_⟩
  rw [run_for_of_halted (step fresh).2 0 (halted_of_step_error fresh trapped), if_pos rfl]

end Nmos6502.Session
