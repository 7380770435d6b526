import Nmos6502.Bus.Flat
import Nmos6502.Proofs.Access
import Nmos6502.Proofs.Congruence
import Nmos6502.Proofs.Run

/-!
What a step asks of its memory, and that nothing else of the memory matters to it. The accesses of
a step are read off a bus that records them. Another memory that gives the same answers to them
takes the step to the same session, and is left as these accesses leave it.
-/

namespace Nmos6502

variable {M N : Type} [Bus M] [Bus N]

/-- The bus does not supply two-byte reads of its own. -/
structure Bus.Bytewise (M : Type) [Bus M] : Prop where
  word (address : Word) : (Bus.readWord address : StateM M Word) = do
    let low ← Bus.read address
    let high ← Bus.read (address + 1)
    return Word.ofBytes low high
  zeroPageWord (address : Byte) : (Bus.readZeroPageWord address : StateM M Word) = do
    let low ← Bus.read (Word.zeroPage address)
    let high ← Bus.read (Word.zeroPage (address + 1))
    return Word.ofBytes low high

theorem FlatMemory.bytewise : Bus.Bytewise FlatMemory := ⟨fun _ => rfl, fun _ => rfl⟩

theorem answered_split {first second : List Access} {before after : M}
    (answered : Answered (first ++ second) before after) :
    ∃ middle, Answered first before middle ∧ Answered second middle after := by
  induction first generalizing before with
  | nil => exact ⟨before, rfl, answered⟩
  | cons access rest induction =>
      cases access with
      | read address value =>
          obtain ⟨same, later⟩ := answered
          obtain ⟨middle, left, right⟩ := induction later
          exact ⟨middle, ⟨same, left⟩, right⟩
      | write address value => exact induction answered

namespace Processor

/-- What the first action does on a recorded bus the second one does on every bus that gives the
recorded answers. -/
def Replays {Value : Type} (recorded : ProcessorM (Recorded M) Value)
    (replayed : ProcessorM N Value) : Prop :=
  ∀ (registers : Registers) (bus : Recorded M), ∃ accesses,
    Recorded.Extends bus accesses (recorded ⟨registers, bus⟩).2.bus ∧
    ∀ before after : N, Answered accesses before after →
      replayed ⟨registers, before⟩ =
        ((recorded ⟨registers, bus⟩).1, ⟨(recorded ⟨registers, bus⟩).2.registers, after⟩)

namespace Replays

variable {First Value : Type}

theorem pure (value : Value) :
    Replays (pure value : ProcessorM (Recorded M) Value) (pure value : ProcessorM N Value) := by
  intro registers bus
  refine ⟨[], Recorded.Extends.refl bus, ?_⟩
  rintro before after rfl
  rfl

/-- The second part is replayed on the bus that the answers to the first part lead to. -/
theorem bind {recorded : ProcessorM (Recorded M) First} {replayed : ProcessorM N First}
    {recordedNext : First → ProcessorM (Recorded M) Value}
    {replayedNext : First → ProcessorM N Value} (first : Replays recorded replayed)
    (next : ∀ value, Replays (recordedNext value) (replayedNext value)) :
    Replays (recorded >>= recordedNext) (replayed >>= replayedNext) := by
  intro registers bus
  obtain ⟨earlier, extended, same⟩ := first registers bus
  obtain ⟨later, extendedNext, sameNext⟩ := next (recorded ⟨registers, bus⟩).1
    (recorded ⟨registers, bus⟩).2.registers (recorded ⟨registers, bus⟩).2.bus
  refine ⟨earlier ++ later, extended.append extendedNext, ?_⟩
  intro before after answered
  obtain ⟨middle, left, right⟩ := answered_split answered
  rw [bind_run, same before middle left]
  exact sameNext middle after right

end Replays

theorem registers_now_replays :
    Replays (registersNow : ProcessorM (Recorded M) Registers)
      (registersNow : ProcessorM N Registers) := by
  intro registers bus
  refine ⟨[], Recorded.Extends.refl bus, ?_⟩
  rintro before after rfl
  rfl

theorem update_replays (effect : Registers → Registers) :
    Replays (update effect : ProcessorM (Recorded M) Unit) (update effect : ProcessorM N Unit) := by
  intro registers bus
  refine ⟨[], Recorded.Extends.refl bus, ?_⟩
  rintro before after rfl
  rfl

theorem read_replays (address : Word) :
    Replays (onBus (Bus.read address) : ProcessorM (Recorded M) Byte)
      (onBus (Bus.read address) : ProcessorM N Byte) := by
  intro registers bus
  refine ⟨_, Recorded.read_extends bus address, ?_⟩
  rintro before after ⟨same, rfl⟩
  exact congrArg (·, _) same

theorem write_replays (address : Word) (value : Byte) :
    Replays (onBus (Bus.write address value) : ProcessorM (Recorded M) Unit)
      (onBus (Bus.write address value) : ProcessorM N Unit) := by
  intro registers bus
  refine ⟨_, Recorded.write_extends bus address value, ?_⟩
  rintro before after rfl
  rfl

/-- Two byte reads in one action on the bus are two actions of the processor. -/
theorem read_pair_replays (first second : Word) :
    Replays
      (onBus (do
        let low ← Bus.read first
        let high ← Bus.read second
        return Word.ofBytes low high) : ProcessorM (Recorded M) Word)
      (onBus (do
        let low ← Bus.read first
        let high ← Bus.read second
        return Word.ofBytes low high) : ProcessorM N Word) :=
  (read_replays first).bind fun low => (read_replays second).bind fun high =>
    .pure (Word.ofBytes low high)

/-- A bus that is replayed on must leave two-byte reads to the byte reads, as they are recorded. -/
theorem replays_congruence (bytewise : Bus.Bytewise N) : Congruence (@Replays M N _ _) where
  value := Replays.pure
  sequence := Replays.bind
  registersNow := registers_now_replays
  update := update_replays
  read := read_replays
  write := write_replays
  readWord address := by
    rw [bytewise.word address]
    exact read_pair_replays address (address + 1)
  readZeroPageWord address := by
    rw [bytewise.zeroPageWord address]
    exact read_pair_replays (Word.zeroPage address) (Word.zeroPage (address + 1))

end Processor

namespace Session

open Recorded (Extends)

variable {H O : Type}

/-- The session on another bus. -/
def withBus (session : Session M H O) (bus : N) : Session N H O :=
  { session with processor := ⟨session.registers, bus⟩ }

omit [Bus M] in
theorem with_bus_own (session : Session M H O) : session.withBus session.bus = session := rfl

theorem observed_replays [TraceObserver O] (session : Session (Recorded M) H O) :
    ∃ accesses, Extends session.bus accesses session.busAtFetch ∧
      ∀ before after : N, Answered accesses before after →
        (session.withBus before).busAtFetch = after ∧
          (session.withBus before).observerAtFetch = session.observerAtFetch := by
  cases traced : session.tracing with
  | false =>
      refine ⟨[], ?_, ?_⟩
      · rw [busAtFetch, traced]
        exact Extends.refl session.bus
      · rintro before after rfl
        have untraced : (session.withBus after).tracing = false := traced
        rw [busAtFetch, observerAtFetch, observerAtFetch, untraced, traced]
        exact ⟨rfl, rfl⟩
  | true =>
      refine ⟨[.read session.registers.pc (Bus.read session.registers.pc session.bus).1], ?_, ?_⟩
      · rw [busAtFetch, traced]
        exact Recorded.read_extends session.bus session.registers.pc
      · rintro before after ⟨same, rfl⟩
        have tracing : (session.withBus before).tracing = true := traced
        rw [busAtFetch, observerAtFetch, observerAtFetch, tracing, traced, ← same]
        exact ⟨rfl, rfl⟩

theorem fetched_replays [TraceObserver O] (session : Session (Recorded M) H O) :
    ∃ accesses, Extends session.bus accesses session.fetched.bus ∧
      ∀ before after : N, Answered accesses before after →
        (session.withBus before).fetchedOpcode = session.fetchedOpcode ∧
          (session.withBus before).fetched = session.fetched.withBus after := by
  obtain ⟨accesses, observed, replayed⟩ := observed_replays (N := N) session
  refine ⟨_, observed.append (Recorded.read_extends session.busAtFetch session.registers.pc), ?_⟩
  intro before after answered
  obtain ⟨middle, snapshot, opcode, rfl⟩ := answered_split answered
  obtain ⟨bus, observer⟩ := replayed before middle snapshot
  rw [fetchedOpcode, fetched, bus, observer]
  exact ⟨opcode, rfl⟩

variable [ExtensionHandler H]

theorem extension_replays (bytewise : Bus.Bytewise N) (session : Session (Recorded M) H O) :
    ∃ accesses, Extends session.bus accesses (extension session).2.bus ∧
      ∀ before after : N, Answered accesses before after →
        extension (session.withBus before) = ((), (extension session).2.withBus after) := by
  obtain ⟨accesses, fetching, replayed⟩ := (Processor.replays_congruence bytewise).fetch_alike
    session.registers session.bus
  obtain ⟨_, _, _, _, _, changed⟩ := extension_changes session
  refine ⟨accesses, ?_, ?_⟩
  · rw [changed]
    exact fetching
  intro before after answered
  have fetched := replayed before after answered
  have operation : (session.withBus before).fetchedOperation = session.fetchedOperation :=
    congrArg Prod.fst fetched
  have next : (session.withBus before).operationFetched = session.operationFetched.withBus after :=
    congrArg (fun result => { session.withBus before with processor := result.2 }) fetched
  by_cases toggle : session.fetchedOperation = traceToggle
  · rw [extension_of_toggle session toggle,
      extension_of_toggle (session.withBus before) (operation.trans toggle), next]
    rfl
  · cases attached : session.handler with
    | none =>
        rw [extension_of_unanswered session toggle attached,
          extension_of_unanswered (session.withBus before) (operation ▸ toggle) attached, next,
          operation]
        rfl
    | some handler =>
        rw [extension_of_answered session toggle attached,
          extension_of_answered (session.withBus before) (operation ▸ toggle) attached, next,
          operation]
        rfl

variable [TraceObserver O]

/-- The accesses of a step on a recorded bus determine the step on every bus that gives the same
answers. -/
theorem step_replays (bytewise : Bus.Bytewise N) (session : Session (Recorded M) H O) :
    ∃ accesses, Extends session.bus accesses (step session).2.bus ∧
      ∀ before after : N, Answered accesses before after →
        step (session.withBus before) = ((step session).1, (step session).2.withBus after) := by
  obtain ⟨accesses, fetching, replayed⟩ := fetched_replays (N := N) session
  have alike {before middle : N} (answered : Answered accesses before middle)
      {instruction : Instruction} (decoded : session.instruction = instruction) :
      (session.withBus before).instruction = instruction := by
    rw [Session.instruction, (replayed before middle answered).1]
    exact decoded
  cases halted : session.halted with
  | some trap =>
      rw [step_of_halted session trap halted]
      refine ⟨[], Extends.refl session.bus, ?_⟩
      rintro before after rfl
      exact step_of_halted (session.withBus after) trap halted
  | none =>
      cases decoded : session.instruction with
      | illegal =>
          rw [step_of_illegal session halted decoded]
          refine ⟨accesses, fetching, ?_⟩
          intro before after answered
          obtain ⟨opcode, fetched⟩ := replayed before after answered
          rw [step_of_illegal (session.withBus before) halted (alike answered decoded), fetched,
            opcode]
          rfl
      | official mnemonic mode =>
          obtain ⟨later, executing, executed⟩ :=
            (Processor.replays_congruence bytewise).perform_alike session.config.pointerWraps mode
              mnemonic.operation session.fetched.registers session.fetched.bus
          rw [step_of_official session halted decoded]
          refine ⟨accesses ++ later, fetching.append executing, ?_⟩
          intro before after answered
          obtain ⟨middle, first, second⟩ := answered_split answered
          obtain ⟨opcode, fetched⟩ := replayed before middle first
          have ran : Processor.execute (session.withBus before).config.pointerWraps mnemonic mode
              (session.fetched.withBus middle).processor = _ := executed middle after second
          rw [step_of_official (session.withBus before) halted (alike first decoded), fetched,
            opcode, ran]
          rfl
      | extension =>
          obtain ⟨later, executing, executed⟩ := extension_replays bytewise { session.fetched with
            log := session.log.push (.executing session.registers.pc session.fetchedOpcode) }
          rw [step_of_extension session halted decoded]
          refine ⟨accesses ++ later, fetching.append executing, ?_⟩
          intro before after answered
          obtain ⟨middle, first, second⟩ := answered_split answered
          obtain ⟨opcode, fetched⟩ := replayed before middle first
          rw [step_of_extension (session.withBus before) halted (alike first decoded), fetched,
            opcode]
          exact congrArg (fun extended => finish extended.2) (executed middle after second)

/-- The session on a bus that records its accesses, of which there are none so far. -/
def recording (session : Session M H O) : Session (Recorded M) H O :=
  session.withBus { recorded := session.bus }

omit [ExtensionHandler H] [TraceObserver O] in
theorem opcode_recording (session : Session M H O) :
    session.recording.fetchedOpcode = session.fetchedOpcode := by
  rcases session with ⟨_, _, tracing, _, _, _, _, _, _⟩
  cases tracing <;> rfl

/-- The accesses that a step of the session makes. -/
def accesses (session : Session M H O) : List Access :=
  (step session.recording).2.bus.accesses.toList

theorem accesses_answered (session : Session M H O) :
    Answered session.accesses session.bus (step session.recording).2.bus.recorded := by
  obtain ⟨made, extended, -⟩ := step_replays (N := FlatMemory) FlatMemory.bytewise session.recording
  have recorded : session.accesses = made := extended.record
  rw [recorded]
  exact extended.answered

theorem step_of_answers (bytewise : Bus.Bytewise N) (session : Session M H O) {before after : N}
    (answered : Answered session.accesses before after) :
    step (session.withBus before) =
      ((step session.recording).1, (step session.recording).2.withBus after) := by
  obtain ⟨made, extended, replayed⟩ := step_replays bytewise session.recording
  have recorded : session.accesses = made := extended.record
  exact replayed before after (recorded ▸ answered)

/-- To keep the record changes nothing. -/
theorem step_recording (bytewise : Bus.Bytewise M) (session : Session M H O) :
    step session = ((step session.recording).1,
      (step session.recording).2.withBus (step session.recording).2.bus.recorded) :=
  step_of_answers bytewise session session.accesses_answered

end Session

end Nmos6502
