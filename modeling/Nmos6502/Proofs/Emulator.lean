import Nmos6502.Emulator
import Nmos6502.Session.Script
import Nmos6502.Proofs.Simulation

/-!
The emulator as a front for a session without hooks. Whatever is requested of it, it does what the
calls to the session do, and says what they return: counts without loss, traps by their messages,
which tell them apart. A restart keeps the memory and nothing else.
-/

namespace Nmos6502

namespace Emulator

inductive Request where
  | load (address : Word) (bytes : List Byte)
  | restart (pc : Word)
  | step
  | runFor (limit : UInt32)
  | readMemory (address : Word)
  | writeMemory (address : Word) (value : Byte)

inductive Answer where
  | done
  | stopped (result : Except Failure Bool)
  | count (result : Except Failure UInt32)
  | byte (value : Byte)

def serve : Request → EmulatorM Answer
  | .load address bytes => do
      load address bytes
      return .done
  | .restart pc => do
      restart pc
      return .done
  | .step => return .stopped (← step)
  | .runFor limit => return .count (← runFor limit)
  | .readMemory address => return .byte (← readMemory address)
  | .writeMemory address value => do
      writeMemory address value
      return .done

/-- What the emulator makes of a reply of the session. -/
inductive Reports : Reply → Answer → Prop where
  | done : Reports .done .done
  | stopped {progress : Progress} {stopped : Bool}
      (exactly : stopped = true ↔ progress = .stopped) :
      Reports (.progress (.ok progress)) (.stopped (.ok stopped))
  | trapped (trap : Trap) :
      Reports (.progress (.error trap)) (.stopped (.error ⟨trap.message⟩))
  | counted {count : UInt64} {narrow : UInt32} (lossless : narrow.toNat = count.toNat) :
      Reports (.count (.ok count)) (.count (.ok narrow))
  | runTrapped (trap : Trap) : Reports (.count (.error trap)) (.count (.error ⟨trap.message⟩))
  | byte (value : Byte) : Reports (.byte value) (.byte value)

end Emulator

namespace Session

open Emulator (Request Reports)

variable {H O : Type} [ExtensionHandler H] [TraceObserver O]

/-- The request as calls to a session. A restart is a new session on the memory of the old one. -/
def serve : Request → SessionM FlatMemory H O Reply
  | .load address bytes => perform (.patch fun memory => memory.load address bytes)
  | .restart pc => fun session => (.done, start session.bus pc {})
  | .step => perform .step
  | .runFor limit => perform (.runFor limit.toUInt64)
  | .readMemory address => perform (.readByte address)
  | .writeMemory address value => perform (.write address value)

/-- The session seen as one that could have hooks. -/
def hookless (session : Session FlatMemory Empty Empty) : Session FlatMemory H O :=
  session.mapHooks Empty.elim Empty.elim

theorem step_hookless :
    Agree (fun (front : Session FlatMemory Empty Empty) (core : Session FlatMemory H O) =>
      front.hookless = core) step step :=
  step_map_hooks ⟨fun _ _ handler => handler.elim, fun handler => handler.elim,
    fun _ observer => observer.elim⟩

end Session

namespace Emulator

open Session (hookless)

variable {H O : Type} [ExtensionHandler H] [TraceObserver O]

/-- A count below a limit of 32 bits has no more bits itself. -/
theorem narrow_lossless {count : UInt64} {limit : UInt32} (bounded : count ≤ limit.toUInt64) :
    count.toUInt32.toNat = count.toNat := by
  have bound := limit.toNat_lt
  rw [UInt64.le_iff_toNat_le, UInt32.toNat_toUInt64] at bounded
  rw [UInt64.toNat_toUInt32, Nat.mod_eq_of_lt (by omega)]

theorem step_reports (front : Emulator) (core : Session FlatMemory H O)
    (same : front.session.hookless = core) :
    Reports (Session.serve .step core).1 (serve .step front).1 ∧
      (serve .step front).2.session.hookless = (Session.serve .step core).2 := by
  obtain ⟨session⟩ := front
  obtain ⟨result, next⟩ := Session.step_hookless session core same
  have answered : serve .step ⟨session⟩ = match Session.step session with
      | (.ok progress, after) => (.stopped (.ok (progress == .stopped)), ⟨after⟩)
      | (.error trap, after) => (.stopped (.error ⟨trap.message⟩), ⟨after⟩) := by
    rw [serve, bind_run, step, bind_run, onSession]
    rcases Session.step session with ⟨trap | progress, after⟩ <;> rfl
  have replied : Session.serve .step core =
      (.progress (Session.step core).1, (Session.step core).2) := rfl
  rw [answered, replied, ← result, ← next]
  rcases Session.step session with ⟨trap | progress, after⟩
  · exact ⟨.trapped trap, rfl⟩
  · exact ⟨.stopped beq_iff_eq, rfl⟩

theorem run_for_reports (limit : UInt32) (front : Emulator) (core : Session FlatMemory H O)
    (same : front.session.hookless = core) :
    Reports (Session.serve (.runFor limit) core).1 (serve (.runFor limit) front).1 ∧
      (serve (.runFor limit) front).2.session.hookless =
        (Session.serve (.runFor limit) core).2 := by
  obtain ⟨session⟩ := front
  have alike := Session.runs_alike Session.step_hookless limit.toUInt64.toNat session core same
  obtain ⟨result, next⟩ := Session.run_for_alike alike
  have answered : serve (.runFor limit) ⟨session⟩ =
      match Session.runFor limit.toUInt64 session with
      | (.ok count, after) => (.count (.ok count.toUInt32), ⟨after⟩)
      | (.error trap, after) => (.count (.error ⟨trap.message⟩), ⟨after⟩) := by
    rw [serve, bind_run, runFor, bind_run, onSession]
    rcases Session.runFor limit.toUInt64 session with ⟨trap | count, after⟩ <;> rfl
  have replied : Session.serve (.runFor limit) core =
      (.count (Session.runFor limit.toUInt64 core).1, (Session.runFor limit.toUInt64 core).2) := rfl
  rw [answered, replied, ← result, ← next]
  rcases ran : Session.runFor limit.toUInt64 session with ⟨trap | count, after⟩
  · exact ⟨.runTrapped trap, rfl⟩
  · have bounded : count ≤ limit.toUInt64 :=
      Session.run_for_count_le session limit.toUInt64 (congrArg Prod.fst ran)
    exact ⟨.counted (narrow_lossless bounded), rfl⟩

/-- Each request is answered as the session replies. -/
theorem serve_reports (request : Request) (front : Emulator) (core : Session FlatMemory H O)
    (same : front.session.hookless = core) :
    Reports (Session.serve request core).1 (serve request front).1 ∧
      (serve request front).2.session.hookless = (Session.serve request core).2 := by
  cases request with
  | step => exact step_reports front core same
  | runFor limit => exact run_for_reports limit front core same
  | load _ _ | writeMemory _ _ | restart _ =>
      subst same
      exact ⟨.done, rfl⟩
  | readMemory address =>
      subst same
      exact ⟨.byte _, rfl⟩

theorem requests_report (requests : List Request) (front : Emulator)
    (core : Session FlatMemory H O) (same : front.session.hookless = core) :
    List.Forall₂ Reports (requests.mapM Session.serve core).1 (requests.mapM serve front).1 ∧
      (requests.mapM serve front).2.session.hookless = (requests.mapM Session.serve core).2 := by
  induction requests generalizing front core with
  | nil => exact ⟨.nil, same⟩
  | cons request rest induction =>
      obtain ⟨first, next⟩ := serve_reports request front core same
      obtain ⟨later, last⟩ := induction _ _ next
      rw [List.mapM_cons, List.mapM_cons]
      exact ⟨.cons first later, last⟩

/-- The session is a fresh one at the address, over every byte of the memory as it was. -/
structure Restarted (pc : Word) (before after : Emulator) : Prop where
  fresh : after.session = Session.start before.session.bus pc {}
  memory : ∀ address, after.session.bus.get address = before.session.bus.get address
  registers : after.session.registers = Registers.start pc
  status : after.session.registers.status = 0x3C
  instructions : after.session.instructions = 0
  halted : after.session.halted = none
  tracing : after.session.tracing = false

theorem restart_restarts (pc : Word) (before : Emulator) :
    Restarted pc before (restart pc before).2 := by
  constructor
  case memory => exact fun _ => rfl
  case status =>
    have flags : (Registers.start pc).status = (Registers.start 0).status := rfl
    exact flags.trans (by decide)
  all_goals rfl

/-- The emulator is a faithful front for a session over plain memory that nothing is attached to.
After any requests it holds the session that the same calls lead to, and each answer reports the
reply of the session: a step says whether it was stopped, a count of 32 bits is the count of the
session, and a trap is reported by its message, as it is by the text of an ended session. No two
traps have the same message. A restart, whenever it comes, keeps every byte of the memory and begins
all else anew. -/
theorem front_is_faithful (pc : Word) (requests : List Request) :
    let front := requests.mapM serve (Emulator.start pc)
    let core := requests.mapM Session.serve
      (Session.start FlatMemory.blank pc {} : Session FlatMemory H O)
    List.Forall₂ Reports core.1 front.1 ∧
      front.2.session.hookless = core.2 ∧
      front.2.haltedText = core.2.halted.map Trap.message ∧
      (∀ left right : Trap, left.message = right.message → left = right) ∧
      ∀ next, Restarted next front.2 (restart next front.2).2 := by
  intro front core
  obtain ⟨answers, last⟩ := requests_report requests (Emulator.start pc)
    (Session.start FlatMemory.blank pc {} : Session FlatMemory H O) rfl
  refine ⟨answers, last, ?_, fun _ _ => Trap.message_injective, fun next =>
    restart_restarts next front.2⟩
  rw [← last]
  rfl

/-- The text of the ended session says at which byte it ended. -/
theorem halted_text_tells_trap :
    let fresh : Session FlatMemory Script (Array Snapshot) :=
      Session.start FlatMemory.blank 0x0200 {}
    let requests : List Request := [.load 0x0200 [0x02], .step]
    (requests.mapM serve (Emulator.start 0x0200)).2.haltedText =
        some "illegal opcode 0x02 at 0x0200" ∧
      ∀ trap, (requests.mapM Session.serve fresh).2.halted = some trap →
        trap = .illegalOpcode 0x02 0x0200 := by
  intro fresh requests
  obtain ⟨-, -, text, injective, -⟩ :=
    front_is_faithful (H := Script) (O := Array Snapshot) 0x0200 requests
  have started : fresh = Session.start FlatMemory.blank 0x0200 {} := rfl
  rw [← started] at text
  let loaded : Session FlatMemory Script (Array Snapshot) :=
    Session.start (FlatMemory.blank.load 0x0200 [0x02]) 0x0200 {}
  have opcode : loaded.fetchedOpcode = 0x02 := FlatMemory.get_set_same FlatMemory.blank 0x0200 0x02
  have illegal : loaded.instruction = .illegal := by
    rw [Session.instruction, opcode, Instruction.decode_illegal_iff]
    decide +kernel
  have trapped := Session.step_of_illegal loaded rfl illegal
  have first : (Session.serve (.load 0x0200 [0x02]) fresh).2 = loaded := rfl
  have served (earlier later : Request) (session : Session FlatMemory Script (Array Snapshot)) :
      ([earlier, later].mapM Session.serve session).2 =
        (Session.serve later (Session.serve earlier session).2).2 := by
    rw [List.mapM_cons, List.mapM_cons, List.mapM_nil]
    rfl
  have second (session : Session FlatMemory Script (Array Snapshot)) :
      (Session.serve .step session).2 = (Session.step session).2 := rfl
  have halted : (requests.mapM Session.serve fresh).2.halted =
      some (.illegalOpcode 0x02 0x0200) := by
    rw [served, first, second, trapped, opcode]
    rfl
  have message : (Trap.illegalOpcode 0x02 0x0200).message = "illegal opcode 0x02 at 0x0200" := by
    decide +kernel
  constructor
  · rw [text, halted, ← message]
    rfl
  · intro trap same
    apply injective
    rw [halted] at same
    exact congrArg Trap.message (Option.some.inj same).symm

end Emulator

end Nmos6502
