import Nmos6502.Proofs.Replay
import Nmos6502.Proofs.Simulation

/-!
One bus in place of another. Sessions on two buses that answer all accesses alike take the same
steps. So nothing changes when a bus is monitored: every access made to it is kept, with its
answer, and a two-byte read is kept as the one access that it is. On a bus without two-byte reads
of its own it stands for the reads of its two bytes.
-/

namespace Nmos6502

variable {M N : Type} [Bus M] [Bus N]

/-- Each access gets the same answer on two buses in the relation and leaves them in it. -/
structure Bus.Simulates (Same : M → N → Prop) : Prop where
  read (address : Word) {left : M} {right : N} (same : Same left right) :
    (Bus.read address left).1 = (Bus.read address right).1 ∧
      Same (Bus.read address left).2 (Bus.read address right).2
  write (address : Word) (value : Byte) {left : M} {right : N} (same : Same left right) :
    Same (Bus.write address value left).2 (Bus.write address value right).2
  readWord (address : Word) {left : M} {right : N} (same : Same left right) :
    (Bus.readWord address left).1 = (Bus.readWord address right).1 ∧
      Same (Bus.readWord address left).2 (Bus.readWord address right).2
  readZeroPageWord (address : Byte) {left : M} {right : N} (same : Same left right) :
    (Bus.readZeroPageWord address left).1 = (Bus.readZeroPageWord address right).1 ∧
      Same (Bus.readZeroPageWord address left).2 (Bus.readZeroPageWord address right).2

namespace Processor

/-- The actions return the same and leave the same registers on buses in the relation, and leave
the buses in it. -/
def ActAlike (Same : M → N → Prop) {Value : Type} (first : ProcessorM M Value)
    (second : ProcessorM N Value) : Prop :=
  ∀ (registers : Registers) (left : M) (right : N), Same left right →
    (first ⟨registers, left⟩).1 = (second ⟨registers, right⟩).1 ∧
      (first ⟨registers, left⟩).2.registers = (second ⟨registers, right⟩).2.registers ∧
      Same (first ⟨registers, left⟩).2.bus (second ⟨registers, right⟩).2.bus

theorem act_alike_congruence {Same : M → N → Prop} (simulates : Bus.Simulates Same) :
    Congruence (@ActAlike M N Same) where
  value value := fun registers left right same => ⟨rfl, rfl, same⟩
  sequence {First Value first second firstNext secondNext} := by
    intro alike next registers left right same
    obtain ⟨value, kept, after⟩ := alike registers left right same
    have later := next (first ⟨registers, left⟩).1 (first ⟨registers, left⟩).2.registers _ _ after
    have middle : second ⟨registers, right⟩ = ((first ⟨registers, left⟩).1,
        ⟨(first ⟨registers, left⟩).2.registers, (second ⟨registers, right⟩).2.bus⟩) := by
      rw [value, kept]
      rfl
    rw [bind_run, bind_run, middle]
    exact later
  registersNow := fun registers left right same => ⟨rfl, rfl, same⟩
  update effect := fun registers left right same => ⟨rfl, rfl, same⟩
  read address := fun registers left right same =>
    ⟨(simulates.read address same).1, rfl, (simulates.read address same).2⟩
  write address value := fun registers left right same =>
    ⟨rfl, rfl, simulates.write address value same⟩
  readWord address := fun registers left right same =>
    ⟨(simulates.readWord address same).1, rfl, (simulates.readWord address same).2⟩
  readZeroPageWord address := fun registers left right same =>
    ⟨(simulates.readZeroPageWord address same).1, rfl, (simulates.readZeroPageWord address same).2⟩

end Processor

namespace Session

variable {H O : Type} {Same : M → N → Prop}

/-- The sessions are the same but for their buses, which are in the relation. -/
def SameBut (Same : M → N → Prop) (left : Session M H O) (right : Session N H O) : Prop :=
  ∃ bus, right = left.withBus bus ∧ Same left.bus bus

section

variable (simulates : Bus.Simulates Same) {left : Session M H O} {right : Session N H O}

include simulates

theorem fetched_simulated [TraceObserver O] (same : SameBut Same left right) :
    left.fetchedOpcode = right.fetchedOpcode ∧ SameBut Same left.fetched right.fetched := by
  obtain ⟨bus, rfl, same⟩ := same
  have snapshot := simulates.read left.registers.pc same
  cases traced : left.tracing with
  | false =>
      have untraced : (left.withBus bus).tracing = false := traced
      have opcode := simulates.read left.registers.pc same
      simp only [SameBut, fetched, fetchedOpcode, busAtFetch, observerAtFetch, traced, untraced]
      exact ⟨opcode.1, _, rfl, opcode.2⟩
  | true =>
      have tracing : (left.withBus bus).tracing = true := traced
      have opcode := simulates.read left.registers.pc snapshot.2
      simp only [SameBut, fetched, fetchedOpcode, busAtFetch, observerAtFetch, traced, tracing]
      refine ⟨opcode.1, _, ?_, opcode.2⟩
      have shown := snapshot.1
      rw [withBus, shown]
      rfl

theorem operation_simulated (same : SameBut Same left right) :
    left.fetchedOperation = right.fetchedOperation ∧
      SameBut Same left.operationFetched right.operationFetched := by
  obtain ⟨bus, rfl, same⟩ := same
  obtain ⟨operation, -, after⟩ := (Processor.act_alike_congruence simulates).fetch_alike
    left.registers left.bus bus same
  exact ⟨operation, _, rfl, after⟩

end

variable [ExtensionHandler H] [TraceObserver O]

theorem step_simulated (simulates : Bus.Simulates Same) :
    Agree (SameBut Same : Session M H O → Session N H O → Prop) step step := by
  intro left right same
  obtain ⟨opcode, fetching⟩ := fetched_simulated simulates same
  obtain ⟨operation, operand⟩ := operation_simulated simulates fetching
  have alike : left.instruction = right.instruction := congrArg Instruction.decode opcode
  obtain ⟨bus, rfl, start⟩ := same
  obtain ⟨fetchedBus, fetched, same⟩ := fetching
  obtain ⟨operandBus, operandFetched, sameNext⟩ := operand
  cases step_kind left with
  | halted trap halted =>
      rw [step_of_halted left trap halted, step_of_halted (left.withBus bus) trap halted]
      exact ⟨rfl, bus, rfl, start⟩
  | illegal running decoded =>
      rw [step_of_illegal left running decoded,
        step_of_illegal (left.withBus bus) running (alike ▸ decoded), fetched, ← opcode]
      exact ⟨rfl, fetchedBus, rfl, same⟩
  | official running mnemonic mode decoded =>
      obtain ⟨-, registers, after⟩ := (Processor.act_alike_congruence simulates).perform_alike
        left.config.pointerWraps mode mnemonic.operation left.fetched.registers left.fetched.bus
        fetchedBus same
      have executed : (Processor.execute (left.withBus bus).config.pointerWraps mnemonic mode
          (left.fetched.withBus fetchedBus).processor).2 = ⟨_, _⟩ :=
        congrArg (Processor.mk · _) registers.symm
      rw [step_of_official left running decoded,
        step_of_official (left.withBus bus) running (alike ▸ decoded), fetched, ← opcode, executed]
      exact ⟨rfl, _, rfl, after⟩
  | toggle running decoded toggle =>
      rw [step_of_toggle left running decoded toggle,
        step_of_toggle (left.withBus bus) running (alike ▸ decoded) (operation ▸ toggle),
        operandFetched, ← opcode]
      exact ⟨rfl, operandBus, rfl, sameNext⟩
  | unanswered running decoded other detached =>
      rw [step_of_unanswered left running decoded other detached,
        step_of_unanswered (left.withBus bus) running (alike ▸ decoded) (operation ▸ other)
          detached, operandFetched, ← opcode, ← operation]
      exact ⟨rfl, operandBus, rfl, sameNext⟩
  | answered running decoded other handler attached =>
      rw [step_of_answered left running decoded other attached,
        step_of_answered (left.withBus bus) running (alike ▸ decoded) (operation ▸ other)
          attached, ← operation, operandFetched, fetched, ← opcode]
      exact ⟨rfl, operandBus, rfl, sameNext⟩

end Session

inductive BusCall where
  | read (address : Word) (value : Byte)
  | write (address : Word) (value : Byte)
  | readWord (address : Word) (value : Word)
  | readZeroPageWord (address : Byte) (value : Word)
  deriving DecidableEq, Repr

/-- The byte accesses that a call stands for, where a two-byte read reads the low byte first. -/
def BusCall.accesses : BusCall → List Access
  | .read address value => [.read address value]
  | .write address value => [.write address value]
  | .readWord address value =>
      [.read address (Word.lowByte value), .read (address + 1) (Word.highByte value)]
  | .readZeroPageWord address value =>
      [.read (Word.zeroPage address) (Word.lowByte value),
        .read (Word.zeroPage (address + 1)) (Word.highByte value)]

/-- The calls, made in this order on the bus `before`, get the listed answers and end in the bus
`after`. -/
def CallsAnswered : List BusCall → M → M → Prop
  | [], before, after => after = before
  | .read address value :: rest, before, after =>
      (Bus.read address before).1 = value ∧ CallsAnswered rest (Bus.read address before).2 after
  | .write address value :: rest, before, after =>
      CallsAnswered rest (Bus.write address value before).2 after
  | .readWord address value :: rest, before, after =>
      (Bus.readWord address before).1 = value ∧
        CallsAnswered rest (Bus.readWord address before).2 after
  | .readZeroPageWord address value :: rest, before, after =>
      (Bus.readZeroPageWord address before).1 = value ∧
        CallsAnswered rest (Bus.readZeroPageWord address before).2 after

theorem calls_answered_append {first second : List BusCall} {before middle after : M}
    (left : CallsAnswered first before middle) (right : CallsAnswered second middle after) :
    CallsAnswered (first ++ second) before after := by
  induction first generalizing before with
  | nil =>
      have same : middle = before := left
      rw [← same]
      exact right
  | cons call rest induction =>
      cases call with
      | write address value => exact induction left
      | read address value | readWord address value | readZeroPageWord address value =>
          exact ⟨left.1, induction left.2⟩

/-- A bus with the list of all that it has been asked, in order. -/
structure Monitored (M : Type) where
  calls : List BusCall := []
  monitored : M

namespace Monitored

instance : Bus (Monitored M) where
  read address
    | ⟨calls, monitored⟩ =>
        let (value, monitored) := Bus.read address monitored
        (value, ⟨calls ++ [.read address value], monitored⟩)
  write address value
    | ⟨calls, monitored⟩ =>
        let (_, monitored) := Bus.write address value monitored
        ((), ⟨calls ++ [.write address value], monitored⟩)
  readWord address
    | ⟨calls, monitored⟩ =>
        let (value, monitored) := Bus.readWord address monitored
        (value, ⟨calls ++ [.readWord address value], monitored⟩)
  readZeroPageWord address
    | ⟨calls, monitored⟩ =>
        let (value, monitored) := Bus.readZeroPageWord address monitored
        (value, ⟨calls ++ [.readZeroPageWord address value], monitored⟩)

theorem simulates :
    Bus.Simulates fun (bus : Monitored M) monitored => bus.monitored = monitored := by
  constructor
  · rintro address bus _ rfl
    exact ⟨rfl, rfl⟩
  · rintro address value bus _ rfl
    rfl
  · rintro address bus _ rfl
    exact ⟨rfl, rfl⟩
  · rintro address bus _ rfl
    exact ⟨rfl, rfl⟩

/-- The list grows by exactly these calls, and they are what the monitored bus went through. -/
structure Extends (before : Monitored M) (calls : List BusCall) (after : Monitored M) : Prop where
  record : after.calls = before.calls ++ calls
  answered : CallsAnswered calls before.monitored after.monitored

namespace Extends

theorem refl (bus : Monitored M) : Extends bus [] bus := ⟨(List.append_nil _).symm, rfl⟩

theorem append {before middle after : Monitored M} {first second : List BusCall}
    (left : Extends before first middle) (right : Extends middle second after) :
    Extends before (first ++ second) after := by
  refine ⟨?_, calls_answered_append left.answered right.answered⟩
  rw [right.record, left.record, List.append_assoc]

end Extends

variable (bus : Monitored M)

theorem read_extends (address : Word) :
    Extends bus [.read address (Bus.read address bus).1] (Bus.read address bus).2 :=
  ⟨rfl, rfl, rfl⟩

theorem write_extends (address : Word) (value : Byte) :
    Extends bus [.write address value] (Bus.write address value bus).2 :=
  ⟨rfl, rfl⟩

theorem read_word_extends (address : Word) :
    Extends bus [.readWord address (Bus.readWord address bus).1] (Bus.readWord address bus).2 :=
  ⟨rfl, rfl, rfl⟩

theorem read_zero_page_word_extends (address : Byte) :
    Extends bus [.readZeroPageWord address (Bus.readZeroPageWord address bus).1]
      (Bus.readZeroPageWord address bus).2 :=
  ⟨rfl, rfl, rfl⟩

/-- Where two-byte reads are byte reads, a record of accesses goes along with the list of calls. -/
theorem simulates_recorded (bytewise : Bus.Bytewise M) :
    Bus.Simulates fun (bus : Monitored M) (recorded : Recorded M) =>
      bus.monitored = recorded.recorded ∧
        recorded.accesses.toList = bus.calls.flatMap BusCall.accesses := by
  have extended {accesses : List Access} {calls : List BusCall}
      (record : accesses = calls.flatMap BusCall.accesses) (call : BusCall) :
      accesses ++ call.accesses = (calls ++ [call]).flatMap BusCall.accesses := by
    rw [List.flatMap_append, List.flatMap_singleton, record]
  have pushed (accesses : Array Access) (first second : Access) :
      ((accesses.push first).push second).toList = accesses.toList ++ [first, second] := by
    rw [Array.toList_push, Array.toList_push, List.append_assoc, List.singleton_append]
  constructor
  · rintro address ⟨calls, bus⟩ ⟨accesses, _⟩ ⟨rfl, record⟩
    refine ⟨rfl, rfl, ?_⟩
    exact Array.toList_push.trans (extended record (.read address _))
  · rintro address value ⟨calls, bus⟩ ⟨accesses, _⟩ ⟨rfl, record⟩
    refine ⟨rfl, ?_⟩
    exact Array.toList_push.trans (extended record (.write address value))
  · rintro address ⟨calls, bus⟩ ⟨accesses, _⟩ ⟨rfl, record⟩
    have pair := congrFun (bytewise.word address) bus
    have low : Word.lowByte (Bus.readWord address bus).1 = (Bus.read address bus).1 := by
      rw [pair]
      exact Word.low_byte_of_bytes _ _
    have high : Word.highByte (Bus.readWord address bus).1 =
        (Bus.read (address + 1) (Bus.read address bus).2).1 := by
      rw [pair]
      exact Word.high_byte_of_bytes _ _
    have read := extended record (.readWord address (Bus.readWord address bus).1)
    rw [BusCall.accesses, low, high, ← pushed] at read
    exact ⟨congrArg Prod.fst pair, congrArg Prod.snd pair, read⟩
  · rintro address ⟨calls, bus⟩ ⟨accesses, _⟩ ⟨rfl, record⟩
    have pair := congrFun (bytewise.zeroPageWord address) bus
    have low : Word.lowByte (Bus.readZeroPageWord address bus).1 =
        (Bus.read (Word.zeroPage address) bus).1 := by
      rw [pair]
      exact Word.low_byte_of_bytes _ _
    have high : Word.highByte (Bus.readZeroPageWord address bus).1 =
        (Bus.read (Word.zeroPage (address + 1)) (Bus.read (Word.zeroPage address) bus).2).1 := by
      rw [pair]
      exact Word.high_byte_of_bytes _ _
    have read := extended record (.readZeroPageWord address (Bus.readZeroPageWord address bus).1)
    rw [BusCall.accesses, low, high, ← pushed] at read
    exact ⟨congrArg Prod.fst pair, congrArg Prod.snd pair, read⟩

end Monitored

namespace Session

variable {H O : Type}

/-- The session on a bus that is monitored from now on. -/
def monitoring (session : Session M H O) : Session (Monitored M) H O :=
  session.withBus { monitored := session.bus }

variable [ExtensionHandler H] [TraceObserver O]

/-- What a step of the session asks of its bus. -/
def busCalls (session : Session M H O) : List BusCall := (step session.monitoring).2.bus.calls

/-- To be monitored makes no difference to any bus. -/
theorem step_monitoring (session : Session M H O) :
    step session = ((step session.monitoring).1,
      (step session.monitoring).2.withBus (step session.monitoring).2.bus.monitored) := by
  obtain ⟨same, bus, next, kept⟩ :=
    step_simulated Monitored.simulates session.monitoring session ⟨session.bus, rfl, rfl⟩
  rw [kept, same, ← next]
  rfl

theorem accesses_eq_calls (bytewise : Bus.Bytewise M) (session : Session M H O) :
    session.accesses = session.busCalls.flatMap BusCall.accesses := by
  obtain ⟨-, recorded, next, -, record⟩ := step_simulated (Monitored.simulates_recorded bytewise)
    session.monitoring session.recording ⟨{ recorded := session.bus }, rfl, rfl, rfl⟩
  rw [accesses, next]
  exact record

end Session

end Nmos6502
