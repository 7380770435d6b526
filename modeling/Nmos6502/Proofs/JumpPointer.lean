import Nmos6502.Proofs.Monitor
import Nmos6502.Proofs.Restore

/-!
The option for jump pointers. Only an indirect jump looks at it, and only if its pointer lies at the
end of a page; there it decides where the high byte of the target is read. Sessions that differ in
the option are alike through every history without such a jump.
-/

namespace Nmos6502

variable {M : Type} [Bus M]

namespace Processor

/-- The low byte is read first. -/
def readPair (lowCell highCell : Word) : StateM M Word := do
  let low ← Bus.read lowCell
  let high ← Bus.read highCell
  return Word.ofBytes low high

theorem read_jump_pointer_within_page (wraps : Bool) {pointer : Word}
    (within : Word.lowByte pointer ≠ 0xFF) :
    (readJumpPointer wraps pointer : StateM M Word) = Bus.readWord pointer :=
  if_neg fun turns => within turns.2

theorem read_jump_pointer_at_page_end {pointer : Word} (pageEnd : Word.lowByte pointer = 0xFF) :
    (readJumpPointer true pointer : StateM M Word) =
      readPair pointer (Word.ofBytes 0 (Word.highByte pointer)) :=
  if_pos ⟨rfl, pageEnd⟩

theorem resolve_within_page (left right : Bool) (mode : Mode) (processor : Processor M)
    (within : mode = .indirect → Word.lowByte (fetchWord processor).1 ≠ 0xFF) :
    resolve left mode processor = resolve right mode processor := by
  cases mode with
  | indirect =>
      have pointer := within rfl
      simp only [resolve, bind_run, read_jump_pointer_within_page _ pointer]
  | _ => rfl

/-- An instruction depends on the option through its operand alone. -/
theorem perform_of_resolved (left right : Bool) (mode : Mode) (operation : Operation)
    (processor : Processor M) (same : resolve left mode processor = resolve right mode processor) :
    perform left mode operation processor = perform right mode operation processor := by
  cases operation with
  | load effect => rw [perform_load, perform_load, same]
  | store value => rw [perform_store, perform_store, same]
  | modify effect => rw [perform_modify, perform_modify, same]
  | branch taken => rw [perform_branch, perform_branch, same]
  | jump => rw [perform_jump, perform_jump, same]
  | internal _ | push _ | pull _ | callSubroutine | returnFromSubroutine | softwareInterrupt
  | returnFromInterrupt => rfl

end Processor

theorem Instruction.indirect_is_jump {opcode : Byte} {mnemonic : Mnemonic}
    (decoded : decode opcode = .official mnemonic .indirect) : mnemonic = .jmp := by
  have listed : ∀ official ∈ officialOpcodes, official.mode = .indirect →
      official.mnemonic = .jmp := by decide +kernel
  exact listed _ ((decode_official_iff opcode mnemonic .indirect).mp decoded) rfl

namespace Session

open Processor (readPair)

variable {H O : Type}

/-- The same session with the option on or off. -/
def withPointerWraps (wraps : Bool) (session : Session M H O) : Session M H O :=
  { session with config := { session.config with pointerWraps := wraps } }

variable [TraceObserver O]

/-- The two bytes after the opcode. -/
def jumpPointer (session : Session M H O) : Word :=
  (Processor.fetchWord session.fetched.processor).1

/-- The bus once they have been fetched. -/
def pointerFetched (session : Session M H O) : M :=
  (Processor.fetchWord session.fetched.processor).2.bus

/-- The step is an indirect jump through a pointer of which the low byte ends a page. -/
structure JumpsAtPageEnd (session : Session M H O) : Prop where
  running : session.halted = none
  jump : session.instruction = .official .jmp .indirect
  pageEnd : Word.lowByte session.jumpPointer = 0xFF

theorem jumps_simulated {N : Type} [Bus N] {Same : M → N → Prop} (simulates : Bus.Simulates Same)
    {left : Session M H O} {right : Session N H O} (same : SameBut Same left right)
    (jumps : left.JumpsAtPageEnd) : right.JumpsAtPageEnd := by
  obtain ⟨opcode, bus, fetched, after⟩ := fetched_simulated simulates same
  obtain ⟨pointer, -⟩ := (Processor.act_alike_congruence simulates).fetch_word_alike
    left.fetched.registers left.fetched.bus bus after
  have samePointer : left.jumpPointer = right.jumpPointer := by
    rw [jumpPointer, jumpPointer, fetched]
    exact pointer
  obtain ⟨_, rfl, -⟩ := same
  constructor
  · exact jumps.running
  · rw [instruction, ← opcode]
    exact jumps.jump
  · rw [← samePointer]
    exact jumps.pageEnd

variable [ExtensionHandler H]

/-- The jump is executed, and of the registers changes the program counter alone, which becomes
what the access to the bus finds. -/
structure JumpsTo (session : Session M H O) (target : StateM M Word) : Prop where
  succeeds : ∃ progress, (step session).1 = .ok progress
  registers : (step session).2.registers =
    { session.registers with pc := (target session.pointerFetched).1 }
  bus : (step session).2.bus = (target session.pointerFetched).2

theorem jumps_through_pointer (session : Session M H O) (running : session.halted = none)
    (jump : session.instruction = .official .jmp .indirect) :
    session.JumpsTo
      (Processor.readJumpPointer session.config.pointerWraps session.jumpPointer) := by
  constructor
  all_goals rw [step_of_official session running jump]
  · exact ⟨_, rfl⟩
  · rfl
  · rfl

theorem jumps_at_page_end (session : Session M H O) (jumps : session.JumpsAtPageEnd) :
    (session.withPointerWraps true).JumpsTo
        (readPair session.jumpPointer (Word.ofBytes 0 (Word.highByte session.jumpPointer))) ∧
      (session.withPointerWraps false).JumpsTo (Bus.readWord session.jumpPointer) := by
  have through (wraps : Bool) : (session.withPointerWraps wraps).JumpsTo
      (Processor.readJumpPointer wraps session.jumpPointer) :=
    jumps_through_pointer (session.withPointerWraps wraps) jumps.running jumps.jump
  constructor
  · have wrapped := through true
    rw [Processor.read_jump_pointer_at_page_end jumps.pageEnd] at wrapped
    exact wrapped
  · exact through false

/-- No other step looks at the option. -/
theorem step_with_pointer_wraps (wraps : Bool) (session : Session M H O)
    (elsewhere : ¬session.JumpsAtPageEnd) :
    step (session.withPointerWraps wraps) =
      ((step session).1, (step session).2.withPointerWraps wraps) := by
  cases step_kind session with
  | halted trap halted =>
      rw [step_of_halted session trap halted,
        step_of_halted (session.withPointerWraps wraps) trap halted]
  | illegal running decoded =>
      rw [step_of_illegal session running decoded,
        step_of_illegal (session.withPointerWraps wraps) running decoded]
      rfl
  | official running mnemonic mode decoded =>
      have executed : Processor.execute wraps mnemonic mode session.fetched.processor =
          Processor.execute session.config.pointerWraps mnemonic mode
            session.fetched.processor := by
        apply Processor.perform_of_resolved
        apply Processor.resolve_within_page
        rintro rfl pageEnd
        -- Only the jump has a pointer of its own, and this one is not at the end of a page.
        have jump := Instruction.indirect_is_jump decoded
        subst jump
        exact elsewhere ⟨running, decoded, pageEnd⟩
      have option : (session.withPointerWraps wraps).config.pointerWraps = wraps := rfl
      have fetched : (session.withPointerWraps wraps).fetched.processor =
          session.fetched.processor := rfl
      rw [step_of_official session running decoded,
        step_of_official (session.withPointerWraps wraps) running decoded, option, fetched,
        executed]
      rfl
  | toggle running decoded toggle =>
      rw [step_of_toggle session running decoded toggle,
        step_of_toggle (session.withPointerWraps wraps) running decoded toggle]
      rfl
  | unanswered running decoded operation detached =>
      rw [step_of_unanswered session running decoded operation detached,
        step_of_unanswered (session.withPointerWraps wraps) running decoded operation detached]
      rfl
  | answered running decoded operation handler attached =>
      rw [step_of_answered session running decoded operation attached,
        step_of_answered (session.withPointerWraps wraps) running decoded operation attached]
      rfl

theorem bus_calls_with_pointer_wraps (wraps : Bool) (session : Session M H O)
    (elsewhere : ¬session.JumpsAtPageEnd) :
    (session.withPointerWraps wraps).busCalls = session.busCalls := by
  have monitored : ¬session.monitoring.JumpsAtPageEnd := fun jumps =>
    elsewhere (jumps_simulated Monitored.simulates ⟨session.bus, rfl, rfl⟩ jumps)
  have same := step_with_pointer_wraps wraps session.monitoring monitored
  exact congrArg (fun result => result.2.bus.calls) same

theorem idle_with_pointer_wraps (wraps : Bool) {call : Call M H O} (idle : call.stepLimit = none) :
    Agree (fun session twin => session.withPointerWraps wraps = twin)
      (perform call) (perform call) := by
  rintro session twin rfl
  cases call with
  | step | run _ | runFor _ => cases idle
  | _ => exact ⟨rfl, rfl⟩

/-- The option changes nothing in a history without an indirect jump through a pointer at the end
of a page: not what the calls return, nor the accesses to the bus, the calls to the handler, what
the observer is shown, the log or anything else in the session. Such a jump reads the low byte of
its target at the pointer in either case; the option takes the high byte from the start of the
page, and without it the high byte is the next one, as a two-byte read has it. -/
theorem pointer_option_shows_at_page_ends_only (session : Session M H O) (wraps : Bool) :
    let twin := session.withPointerWraps wraps
    let pointer := session.jumpPointer
    (∀ calls : List (Call M H O),
      (∀ start ∈ stepStarts calls session, ¬start.JumpsAtPageEnd) →
        (performAll calls twin).1 = (performAll calls session).1 ∧
          (performAll calls twin).2 = (performAll calls session).2.withPointerWraps wraps ∧
          (stepStarts calls twin).map busCalls = (stepStarts calls session).map busCalls ∧
          handlerCalls calls twin = handlerCalls calls session ∧
          shown calls twin = shown calls session) ∧
    (session.JumpsAtPageEnd →
      (session.withPointerWraps true).JumpsTo
          (readPair pointer (Word.ofBytes 0 (Word.highByte pointer))) ∧
        (session.withPointerWraps false).JumpsTo (Bus.readWord pointer) ∧
        (Bus.Bytewise M →
          (session.withPointerWraps false).JumpsTo (readPair pointer (pointer + 1)))) := by
  intro twin pointer
  constructor
  · intro calls elsewhere
    have steps (left right : Session M H O) (same : left.withPointerWraps wraps = right)
        (elsewhere : ¬left.JumpsAtPageEnd) : (step left).1 = (step right).1 ∧
          (step left).2.withPointerWraps wraps = (step right).2 := by
      rw [← same, step_with_pointer_wraps wraps left elsewhere]
      exact ⟨rfl, rfl⟩
    obtain ⟨replies, last, related⟩ := histories_alike_while steps
      (fun (call : Call M H O) (_ : call ∈ calls) idle => idle_with_pointer_wraps wraps idle)
      session twin rfl elsewhere
    have starts : stepStarts calls twin =
        (stepStarts calls session).map (withPointerWraps wraps) := by
      rw [← List.forall₂_map_left_iff, List.forall₂_eq_eq_eq] at related
      exact related.symm
    refine ⟨replies.symm, last.symm, ?_, ?_, ?_⟩
    · rw [starts, List.map_map]
      apply List.map_congr_left
      intro start member
      exact bus_calls_with_pointer_wraps wraps start (elsewhere start member)
    · rw [handlerCalls, starts, List.filterMap_map]
      rfl
    · rw [shown_of_history, shown_of_history, starts, List.filterMap_map]
      rfl
  · intro jumps
    obtain ⟨wrapped, plain⟩ := jumps_at_page_end session jumps
    refine ⟨wrapped, plain, ?_⟩
    intro bytewise
    rw [bytewise.word] at plain
    exact plain

theorem lands_on_flat_memory (session : Session FlatMemory H O) {low high : Word}
    (jumps : session.JumpsTo (readPair low high)) :
    (step session).2.registers = { session.registers with
      pc := Word.ofBytes (session.bus.get low) (session.bus.get high) } := by
  have still : session.pointerFetched = session.bus :=
    fetched_bus_of_quiet FlatMemory.reads_quietly session
  rw [jumps.registers, still]
  rfl

omit [ExtensionHandler H] in
theorem start_jumps_at_page_end (memory : FlatMemory) (pc : Word) (config : Config) {page : Byte}
    (opcode : memory.get pc = 0x6C) (low : memory.get (pc + 1) = 0xFF)
    (high : memory.get (pc + 1 + 1) = page) :
    let fresh : Session FlatMemory H O := start memory pc config
    fresh.JumpsAtPageEnd ∧ fresh.jumpPointer = Word.ofBytes 0xFF page := by
  intro fresh
  have quiet : fresh.fetched.bus = memory := fetched_bus_of_quiet FlatMemory.reads_quietly fresh
  have pointer : fresh.jumpPointer =
      Word.ofBytes (fresh.fetched.bus.get (pc + 1)) (fresh.fetched.bus.get (pc + 1 + 1)) := rfl
  have fetched : fresh.fetchedOpcode = 0x6C := by
    rw [fetchedOpcode, bus_at_fetch_of_quiet FlatMemory.reads_quietly]
    exact opcode
  have jump : fresh.instruction = .official .jmp .indirect := by
    rw [instruction, fetched, Instruction.decode_official_iff]
    decide +kernel
  rw [quiet, low, high] at pointer
  refine ⟨⟨rfl, jump, ?_⟩, pointer⟩
  rw [pointer, Word.low_byte_of_bytes]

/-- The NOP at `$01FF` goes alike. The jump behind it, through `$02FF`, takes the high byte of its
target from its own opcode at `$0200` or from `$0300`. -/
theorem jump_through_page_end_lands_apart :
    let contents : Word → Byte := fun address =>
      if address = 0x01FF then 0xEA else if address = 0x0200 then 0x6C
      else if address = 0x0201 then 0xFF else if address = 0x0202 then 0x02
      else if address = 0x02FF then 0x34 else 0x12
    let memory := FlatMemory.ofFn contents
    let idle : Session FlatMemory Script (Array Snapshot) := start memory 0x01FF {}
    let jumping : Session FlatMemory Script (Array Snapshot) := start memory 0x0200 {}
    (performAll [.step] (idle.withPointerWraps true)).2 =
        (performAll [.step] idle).2.withPointerWraps true ∧
      (step (jumping.withPointerWraps true)).2.registers =
        { jumping.registers with pc := 0x6C34 } ∧
      (step (jumping.withPointerWraps false)).2.registers =
        { jumping.registers with pc := 0x1234 } := by
  intro contents memory idle jumping
  have cell : ∀ address, memory.get address = contents address := FlatMemory.get_of_fn contents
  obtain ⟨alike, -⟩ := pointer_option_shows_at_page_ends_only idle true
  have nop : idle.instruction = .official .nop .implicit := by
    have opcode : idle.fetchedOpcode = 0xEA := cell 0x01FF
    rw [instruction, opcode, Instruction.decode_official_iff]
    decide +kernel
  have elsewhere : ∀ start ∈ stepStarts [.step] idle, ¬start.JumpsAtPageEnd := by
    rw [step_starts_step, stepStarts]
    intro start member jumps
    have same : start = idle := List.mem_singleton.mp member
    have jump := jumps.jump
    rw [same, nop] at jump
    cases jump
  obtain ⟨-, last, -⟩ := alike [.step] elsewhere
  have operand : memory.get 0x0202 = 0x02 := cell 0x0202
  have low : memory.get 0x02FF = 0x34 := cell 0x02FF
  have wrappedHigh : memory.get 0x0200 = 0x6C := cell 0x0200
  have plainHigh : memory.get 0x0300 = 0x12 := cell 0x0300
  obtain ⟨pageEnd, pointer⟩ := start_jumps_at_page_end (H := Script) (O := Array Snapshot) memory
    0x0200 {} wrappedHigh (cell 0x0201) operand
  have pointer : jumping.jumpPointer = 0x02FF := pointer.trans (by decide)
  obtain ⟨-, jumps⟩ := pointer_option_shows_at_page_ends_only jumping true
  rw [pointer] at jumps
  obtain ⟨wrapped, -, plain⟩ := jumps pageEnd
  have wrappedTo := lands_on_flat_memory _ wrapped
  have plainTo := lands_on_flat_memory _ (plain FlatMemory.bytewise)
  have bus (wraps : Bool) : (jumping.withPointerWraps wraps).bus = memory := rfl
  have start : Word.ofBytes 0 (Word.highByte 0x02FF) = 0x0200 := by decide
  have next : (0x02FF : Word) + 1 = 0x0300 := by decide
  have wrappedTarget : Word.ofBytes 0x34 0x6C = 0x6C34 := by decide
  have plainTarget : Word.ofBytes 0x34 0x12 = 0x1234 := by decide
  rw [bus, low, start, wrappedHigh, wrappedTarget] at wrappedTo
  rw [bus, low, next, plainHigh, plainTarget] at plainTo
  exact ⟨last, wrappedTo, plainTo⟩

end Session

end Nmos6502
