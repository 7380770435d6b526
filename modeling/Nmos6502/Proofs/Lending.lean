import Nmos6502.Bus.Lent
import Nmos6502.Session.Script
import Nmos6502.Proofs.Monitor

/-!
Sessions on a lent bus. Such a session reads byte by byte, so it goes as a session does on the bus
with its accesses recorded. On a bus without two-byte reads of its own the session that owns the
bus goes that way too. A bus that does more in a two-byte read than in two byte reads shows the
difference.
-/

namespace Nmos6502

variable {M : Type} [Bus M]

theorem Recorded.bytewise : Bus.Bytewise (Recorded M) := ⟨fun _ => rfl, fun _ => rfl⟩

namespace Lent

theorem simulates_recorded :
    Bus.Simulates fun (lent : Lent M) (bus : Recorded M) => lent.lender = bus.recorded := by
  constructor
  · rintro address ⟨_⟩ bus rfl
    exact ⟨rfl, rfl⟩
  · rintro address value ⟨_⟩ bus rfl
    rfl
  · rintro address ⟨_⟩ bus rfl
    exact ⟨rfl, rfl⟩
  · rintro address ⟨_⟩ bus rfl
    exact ⟨rfl, rfl⟩

theorem simulates_lender (bytewise : Bus.Bytewise M) :
    Bus.Simulates fun (lent : Lent M) lender => lent.lender = lender := by
  constructor
  · rintro address lent _ rfl
    exact ⟨rfl, rfl⟩
  · rintro address value lent _ rfl
    rfl
  · rintro address lent _ rfl
    rw [bytewise.word]
    exact ⟨rfl, rfl⟩
  · rintro address lent _ rfl
    rw [bytewise.zeroPageWord]
    exact ⟨rfl, rfl⟩

end Lent

namespace Session

variable {H O : Type}

/-- The session on the same bus, which the host keeps and lends to it. -/
def lent (session : Session M H O) : Session (Lent M) H O := session.withBus ⟨session.bus⟩

omit [Bus M] in
theorem same_but_lender {left : Session (Lent M) H O} {right : Session M H O}
    (same : SameBut (fun lent lender => lent.lender = lender) left right) : left = right.lent := by
  obtain ⟨_, rfl, rfl⟩ := same
  rfl

variable [ExtensionHandler H] [TraceObserver O]

/-- The byte accesses that a step makes on the bus it was lent. -/
def lenderAccesses (session : Session (Lent M) H O) : List Access :=
  let recording : Session (Lent (Recorded M)) H O :=
    session.withBus ⟨{ recorded := session.bus.lender }⟩
  (step recording).2.bus.lender.accesses.toList

theorem step_lent (bytewise : Bus.Bytewise M) (session : Session M H O) :
    step session.lent = ((step session).1, (step session).2.lent) := by
  obtain ⟨same, next⟩ :=
    step_simulated (Lent.simulates_lender bytewise) session.lent session ⟨session.bus, rfl, rfl⟩
  exact Prod.ext same (same_but_lender next)

/-- What is asked of the lender are the accesses of the session, each two-byte read as two. -/
theorem lender_accesses_lent (session : Session M H O) :
    session.lent.lenderAccesses = session.accesses := by
  have same := step_lent Recorded.bytewise session.recording
  exact congrArg (fun result => result.2.bus.lender.accesses.toList) same

/-- To lend a bus without two-byte reads of its own changes nothing in any run: not what the steps
and the loops return, nor the registers, nor the lender, nor the accesses made to it. Whatever the
bus, the run on the lent one goes as the run on the bus with its accesses recorded, where each
two-byte read is two byte reads. -/
theorem lent_bus_is_read_bytewise (session : Session M H O) :
    (∀ index, session.lent.outcome index = session.recording.outcome index ∧
      ∃ bus, session.recording.after index = (session.lent.after index).withBus bus ∧
        (session.lent.after index).bus.lender = bus.recorded) ∧
    (Bus.Bytewise M →
      (∀ index, session.lent.outcome index = session.outcome index ∧
        session.lent.after index = (session.after index).lent ∧
        (session.lent.after index).lenderAccesses = (session.after index).accesses) ∧
      (∀ limit, runFor limit session.lent =
        ((runFor limit session).1, (runFor limit session).2.lent)) ∧
      ∀ fuel, run fuel session.lent = ((run fuel session).1, (run fuel session).2.lent)) := by
  constructor
  · intro index
    have start : SameBut (fun (lent : Lent M) (bus : Recorded M) => lent.lender = bus.recorded)
        session.lent session.recording := ⟨{ recorded := session.bus }, rfl, rfl⟩
    obtain ⟨outcomes, states⟩ := after_agrees (step_simulated Lent.simulates_recorded) start
    exact ⟨outcomes index, states index⟩
  intro bytewise
  have steps : Agree (fun (left : Session (Lent M) H O) (right : Session M H O) =>
      left = right.lent) step step := by
    rintro _ right rfl
    rw [step_lent bytewise]
    exact ⟨rfl, rfl⟩
  have alike (limit : Nat) := runs_alike steps limit session.lent session rfl
  refine ⟨?_, ?_, ?_⟩
  · intro index
    obtain ⟨outcomes, states⟩ := after_agrees steps (rfl : session.lent = session.lent)
    refine ⟨outcomes index, states index, ?_⟩
    rw [states index]
    exact lender_accesses_lent (session.after index)
  · intro limit
    obtain ⟨result, next⟩ := run_for_alike (alike limit.toNat)
    exact Prod.ext result next
  · intro fuel
    obtain ⟨result, next⟩ := run_alike (alike fuel)
    exact Prod.ext result next

/-- BRK on blank memory, over and over. -/
theorem blank_memory_is_lent_unchanged :
    let session : Session FlatMemory Script (Array Snapshot) := start FlatMemory.blank 0x0200 {}
    Bus.Bytewise FlatMemory ∧
      runFor 5 session.lent = ((runFor 5 session).1, (runFor 5 session).2.lent) := by
  intro session
  obtain ⟨-, unchanged⟩ := lent_bus_is_read_bytewise session
  obtain ⟨-, limited, -⟩ := unchanged FlatMemory.bytewise
  exact ⟨FlatMemory.bytewise, limited 5⟩

end Session

/-- A timer in place of the interrupt vector, on a bus that is blank otherwise. Each read of the
timer lets it go on; a two-byte read takes both of its bytes at one time. -/
structure Timer where
  time : Word
  deriving DecidableEq, Repr

namespace Timer

def ticked (timer : Timer) : Timer := ⟨timer.time + 1⟩

def readByte (address : Word) : StateM Timer Byte := fun timer =>
  if address = Word.interruptVector then (Word.lowByte timer.time, timer.ticked)
  else if address = Word.interruptVector + 1 then (Word.highByte timer.time, timer.ticked)
  else (0, timer)

instance : Bus Timer where
  read := readByte
  write _ _ := return ()
  readWord address :=
    if address = Word.interruptVector then fun timer => (timer.time, timer.ticked)
    else do
      let low ← readByte address
      let high ← readByte (address + 1)
      return Word.ofBytes low high

end Timer

namespace Session

/-- BRK goes to the time if the session owns the timer. On the lent one it reads the high byte
after the low byte has gone over. -/
theorem lent_timer_is_torn :
    let session : Session Timer Script (Array Snapshot) := start ⟨0x00FF⟩ 0x0200 {}
    (step session).1 = (step session.lent).1 ∧
      (step session).2.registers.pc = 0x00FF ∧ (step session).2.bus = ⟨0x0100⟩ ∧
      (step session.lent).2.registers.pc = 0x01FF ∧
      (step session.lent).2.bus.lender = ⟨0x0101⟩ := by
  intro session
  have decoded : Instruction.decode 0x00 = .official .brk .implicit :=
    (Instruction.decode_eq_of_code 0x00).trans (by decide +kernel)
  have owned := step_of_official session rfl decoded
  have lent := step_of_official session.lent rfl decoded
  rw [owned, lent]
  exact ⟨rfl, rfl, rfl, by decide +kernel, by decide +kernel⟩

end Session

end Nmos6502
