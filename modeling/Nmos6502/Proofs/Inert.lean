import Nmos6502.Bus.Mapped
import Nmos6502.Proofs.Extension
import Nmos6502.Proofs.Replay
import Nmos6502.Proofs.Stack

/-!
The flags D and I do nothing. They can be set, cleared, pushed and pulled, but no instruction looks
at them: sessions that differ in these flags go on alike until one of them is seen in a status byte
on the stack.
-/

namespace Nmos6502

/-- The two flags that no instruction looks at. -/
structure InertFlags where
  decimal : Bool
  interruptDisable : Bool

def Flags.withInert (flags : Flags) (inert : InertFlags) : Flags :=
  { flags with decimal := inert.decimal, interruptDisable := inert.interruptDisable }

def Registers.withInert (registers : Registers) (inert : InertFlags) : Registers :=
  { registers with flags := registers.flags.withInert inert }

/-- Only two bits of the status byte tell D and I. -/
theorem Flags.to_byte_with_inert (flags : Flags) (inert : InertFlags) :
    (flags.withInert inert).toByte &&& 0xF3 = flags.toByte &&& 0xF3 := by
  rcases flags with ⟨negative, overflow, decimal, interruptDisable, zero, carry⟩
  rcases inert with ⟨givenDecimal, givenInterruptDisable⟩
  revert negative overflow decimal interruptDisable zero carry givenDecimal givenInterruptDisable
  decide +kernel

/-- Whatever the operation does to D and I, all else that it does is independent of them. -/
def Operation.Blind : Operation → Prop
  | .load effect | .pull effect => ∀ value registers inert, ∃ next,
      effect value (Registers.withInert registers inert) = (effect value registers).withInert next
  | .store value | .push value => ∀ registers inert,
      value (Registers.withInert registers inert) = value registers
  | .modify effect => ∀ value flags inert, effect value (Flags.withInert flags inert) =
      ((effect value flags).1, (effect value flags).2.withInert inert)
  | .branch taken => ∀ flags inert, taken (Flags.withInert flags inert) = taken flags
  | .internal effect => ∀ registers inert, ∃ next,
      effect (Registers.withInert registers inert) = (effect registers).withInert next
  | .softwareInterrupt => False
  | .jump | .callSubroutine | .returnFromSubroutine | .returnFromInterrupt => True

theorem Mnemonic.operation_blind {mnemonic : Mnemonic} (notPhp : mnemonic ≠ .php)
    (notBrk : mnemonic ≠ .brk) : mnemonic.operation.Blind := by
  cases mnemonic with
  | php => exact absurd rfl notPhp
  | brk => exact absurd rfl notBrk
  | adc | sbc | and | ora | eor | bit | cmp | cpx | cpy | lda | ldx | ldy | pla =>
      exact fun value registers inert => ⟨inert, rfl⟩
  | sta | stx | sty | pha => exact fun registers inert => rfl
  | asl | lsr | rol | ror | inc | dec => exact fun value flags inert => rfl
  | bcc | bcs | bne | beq | bpl | bmi | bvc | bvs => exact fun flags inert => rfl
  | inx | iny | dex | dey | tax | tay | txa | tya | tsx | txs | clc | sec | clv | nop =>
      exact fun registers inert => ⟨inert, rfl⟩
  | cld => exact fun registers inert => ⟨{ inert with decimal := false }, rfl⟩
  | sed => exact fun registers inert => ⟨{ inert with decimal := true }, rfl⟩
  | cli => exact fun registers inert => ⟨{ inert with interruptDisable := false }, rfl⟩
  | sei => exact fun registers inert => ⟨{ inert with interruptDisable := true }, rfl⟩
  | plp =>
      intro value registers inert
      exact ⟨⟨(Flags.ofByte value).decimal, (Flags.ofByte value).interruptDisable⟩, rfl⟩
  | jmp | jsr | rts | rti => exact True.intro

namespace Processor

variable {M : Type}

def withInert (processor : Processor M) (inert : InertFlags) : Processor M :=
  ⟨processor.registers.withInert inert, processor.bus⟩

variable [Bus M]

theorem resolve_with_inert (wraps : Bool) (mode : Mode) (processor : Processor M)
    (inert : InertFlags) :
    resolve wraps mode (processor.withInert inert) =
      ((resolve wraps mode processor).1, (resolve wraps mode processor).2.withInert inert) := by
  cases mode <;> rfl

theorem read_operand_with_inert (operand : Operand) (processor : Processor M) (inert : InertFlags) :
    readOperand operand (processor.withInert inert) =
      ((readOperand operand processor).1, (readOperand operand processor).2.withInert inert) := by
  cases operand <;> rfl

theorem write_operand_with_inert (operand : Operand) (value : Byte) (processor : Processor M)
    (inert : InertFlags) :
    writeOperand operand value (processor.withInert inert) =
      ((), (writeOperand operand value processor).2.withInert inert) := by
  cases operand <;> rfl

theorem perform_with_inert (wraps : Bool) (mode : Mode) {operation : Operation}
    (blind : operation.Blind) (processor : Processor M) (inert : InertFlags) :
    ∃ next, perform wraps mode operation (processor.withInert inert) =
      ((), (perform wraps mode operation processor).2.withInert next) := by
  cases operation with
  | load effect =>
      rw [perform_load, perform_load]
      dsimp only
      rw [resolve_with_inert, read_operand_with_inert]
      rcases readOperand (resolve wraps mode processor).1 (resolve wraps mode processor).2 with
        ⟨value, read⟩
      obtain ⟨next, same⟩ := blind value read.registers inert
      exact ⟨next, congrArg (fun registers => ((), Processor.mk registers read.bus)) same⟩
  | store value =>
      have same : value (processor.withInert inert).registers = value processor.registers :=
        blind processor.registers inert
      refine ⟨inert, ?_⟩
      rw [perform_store, perform_store]
      dsimp only
      rw [resolve_with_inert, same]
      exact write_operand_with_inert _ _ _ inert
  | modify effect =>
      refine ⟨inert, ?_⟩
      rw [perform_modify, perform_modify]
      dsimp only
      rw [resolve_with_inert, read_operand_with_inert]
      rcases readOperand (resolve wraps mode processor).1 (resolve wraps mode processor).2 with
        ⟨value, read⟩
      have flags : (read.withInert inert).registers.flags = read.registers.flags.withInert inert :=
        rfl
      dsimp only
      rw [flags, blind value read.registers.flags inert]
      exact write_operand_with_inert (resolve wraps mode processor).1.modified
        (effect value read.registers.flags).1
        ⟨{ read.registers with flags := (effect value read.registers.flags).2 }, read.bus⟩ inert
  | branch taken =>
      refine ⟨inert, ?_⟩
      rw [perform_branch, perform_branch]
      dsimp only
      rw [resolve_with_inert]
      rcases resolve wraps mode processor with ⟨operand, resolved⟩
      have same : taken (resolved.withInert inert).registers.flags =
          taken resolved.registers.flags := blind resolved.registers.flags inert
      cases operand with
      | displacement offset =>
          dsimp only
          rw [same]
          split <;> rfl
      | implied | accumulator | constant _ | cell _ => rfl
  | internal effect =>
      obtain ⟨next, same⟩ := blind processor.registers inert
      exact ⟨next, congrArg (fun registers => ((), Processor.mk registers processor.bus)) same⟩
  | push value =>
      refine ⟨inert, ?_⟩
      change push (value (processor.registers.withInert inert)) (processor.withInert inert) = _
      rw [blind processor.registers inert]
      rfl
  | pull effect =>
      obtain ⟨next, same⟩ := blind (pull processor).1 (pull processor).2.registers inert
      exact ⟨next,
        congrArg (fun registers => ((), Processor.mk registers (pull processor).2.bus)) same⟩
  | jump =>
      refine ⟨inert, ?_⟩
      rw [perform_jump, perform_jump]
      dsimp only
      rw [resolve_with_inert]
      rcases resolve wraps mode processor with ⟨operand, resolved⟩
      cases operand <;> rfl
  | callSubroutine | returnFromSubroutine => exact ⟨inert, rfl⟩
  | softwareInterrupt => exact blind.elim
  | returnFromInterrupt =>
      refine ⟨⟨(Flags.ofByte (pull processor).1).decimal,
        (Flags.ofByte (pull processor).1).interruptDisable⟩, rfl⟩

end Processor

/-- Nothing that is pushed changes the vector. -/
def Bus.VectorApart (M : Type) [Bus M] : Prop :=
  ∀ (sp value : Byte) (bus : M),
    (Bus.readWord Word.interruptVector (Bus.write (Word.stackCell sp) value bus).2).1 =
      (Bus.readWord Word.interruptVector bus).1

theorem FlatMemory.vector_apart : Bus.VectorApart FlatMemory := by
  intro sp value memory
  have low : (memory.set (Word.stackCell sp) value).get 0xFFFE = memory.get 0xFFFE :=
    get_set_other memory value (Word.above_stack sp (by decide))
  have high : (memory.set (Word.stackCell sp) value).get 0xFFFF = memory.get 0xFFFF :=
    get_set_other memory value (Word.above_stack sp (by decide))
  exact congrArg₂ Word.ofBytes low high

theorem Recorded.vector_apart {M : Type} [Bus M] (bytewise : Bus.Bytewise M)
    (apart : Bus.VectorApart M) : Bus.VectorApart (Recorded M) := by
  have behind (bus : Recorded M) : (Bus.readWord Word.interruptVector bus).1 =
      (Bus.readWord Word.interruptVector bus.recorded).1 := by
    rw [bytewise.word]
    rfl
  intro sp value bus
  rw [behind, behind]
  exact apart sp value bus.recorded

namespace Session

variable {M H O : Type}

/-- The session with D and I given, and with what an observer has made of the status bytes that it
was shown. -/
def withInert (session : Session M H O) (inert : InertFlags) (observer : Option O) :
    Session M H O :=
  { session with processor := session.processor.withInert inert, observer := observer }

/-- The sessions are alike in all but D and I and the observers. -/
def InertTwins (left right : Session M H O) : Prop :=
  ∃ inert observer, right = left.withInert inert observer

variable [Bus M]

/-- The step does not push the status. -/
def Silent (session : Session M H O) : Prop :=
  session.halted = none → ¬session.executes .php ∧ ¬session.executes .brk

theorem silent_recording (session : Session M H O) (silent : session.Silent) :
    session.recording.Silent := by
  have same (mnemonic : Mnemonic) :
      session.recording.executes mnemonic ↔ session.executes mnemonic := by
    rw [executes, executes, instruction, instruction, opcode_recording]
  intro running
  rw [same, same]
  exact silent running

variable [TraceObserver O]

theorem operation_with_inert (session : Session M H O) (inert : InertFlags)
    (observer : Option O) :
    (session.withInert inert observer).fetched.fetchedOperation =
      session.fetched.fetchedOperation := by
  rw [fetchedOperation, fetchedOperation, Processor.fetch_run, Processor.fetch_run]
  rfl

variable [ExtensionHandler H]

theorem step_with_inert (session : Session M H O) (silent : session.Silent) (inert : InertFlags)
    (observer : Option O) : ∃ next nextObserver,
      step (session.withInert inert observer) =
        ((step session).1, (step session).2.withInert next nextObserver) := by
  -- What decides for the kind of step does not depend on D and I.
  have alike := operation_with_inert session inert observer
  cases step_kind session with
  | halted trap halted =>
      rw [step_of_halted session trap halted,
        step_of_halted (session.withInert inert observer) trap halted]
      exact ⟨inert, observer, rfl⟩
  | illegal running decoded =>
      rw [step_of_illegal session running decoded,
        step_of_illegal (session.withInert inert observer) running decoded]
      exact ⟨inert, _, rfl⟩
  | official running mnemonic mode decoded =>
      obtain ⟨notPhp, notBrk⟩ := silent running
      have blind : mnemonic.operation.Blind := by
        apply Mnemonic.operation_blind
        · intro same
          exact notPhp ⟨mode, same ▸ decoded⟩
        · intro same
          exact notBrk ⟨mode, same ▸ decoded⟩
      obtain ⟨next, executed⟩ := Processor.perform_with_inert session.config.pointerWraps mode blind
        session.fetched.processor inert
      have ran : Processor.execute (session.withInert inert observer).config.pointerWraps mnemonic
          mode (session.withInert inert observer).fetched.processor = _ := executed
      rw [step_of_official session running decoded,
        step_of_official (session.withInert inert observer) running decoded, ran]
      exact ⟨next, _, rfl⟩
  | toggle running decoded toggle =>
      rw [step_of_toggle session running decoded toggle,
        step_of_toggle (session.withInert inert observer) running decoded (alike.trans toggle)]
      exact ⟨inert, _, rfl⟩
  | unanswered running decoded operation detached =>
      rw [step_of_unanswered session running decoded operation detached,
        step_of_unanswered (session.withInert inert observer) running decoded (alike ▸ operation)
          detached]
      exact ⟨inert, _, rfl⟩
  | answered running decoded operation handler attached =>
      rw [step_of_answered session running decoded operation attached,
        step_of_answered (session.withInert inert observer) running decoded (alike ▸ operation)
          attached]
      exact ⟨inert, _, rfl⟩

theorem step_inert (left right : Session M H O) (twins : InertTwins left right)
    (silent : left.Silent) :
    (step left).1 = (step right).1 ∧ InertTwins (step left).2 (step right).2 := by
  obtain ⟨inert, observer, rfl⟩ := twins
  obtain ⟨next, nextObserver, same⟩ := step_with_inert left silent inert observer
  rw [same]
  exact ⟨rfl, next, nextObserver, rfl⟩

theorem accesses_inert {left right : Session M H O} (twins : InertTwins left right)
    (silent : left.Silent) : left.accesses = right.accesses := by
  obtain ⟨inert, observer, rfl⟩ := twins
  obtain ⟨next, nextObserver, same⟩ :=
    step_with_inert left.recording (silent_recording left silent) inert observer
  exact (congrArg (fun result => result.2.bus.accesses.toList) same).symm

omit [ExtensionHandler H] in
theorem handler_call_inert {left right : Session M H O} (twins : InertTwins left right) :
    left.handlerCall? = right.handlerCall? := by
  obtain ⟨inert, observer, rfl⟩ := twins
  rfl

/-- The step writes the status to the stack of this bus. -/
def PushesStatus (session : Session M H O) (bus : M) : Prop :=
  (step session).2.bus =
    (Bus.write (Word.stackCell session.registers.sp) session.registers.status bus).2

/-- The step writes the status to the stack of this bus, below the return address, and goes where
the vector then says. -/
def BreaksTo (session : Session M H O) (bus : M) : Prop :=
  ((step session).2.registers.pc, (step session).2.bus) =
    Bus.readWord Word.interruptVector
      (Bus.write (Word.stackCell (session.registers.sp - 2)) session.registers.status bus).2

theorem pushes_status_of_php (session : Session M H O) (running : session.halted = none)
    (pushes : session.executes .php) : session.PushesStatus session.fetched.bus := by
  obtain ⟨mode, decoded⟩ := pushes
  rw [PushesStatus, step_of_official session running decoded]
  rfl

theorem breaks_to_of_brk (session : Session M H O) (running : session.halted = none)
    (breaks : session.executes .brk) :
    session.BreaksTo (Processor.pushWord (session.registers.pc + 1 + 1)
      (Processor.fetch session.fetched.processor).2).2.bus := by
  obtain ⟨mode, decoded⟩ := breaks
  have two : session.registers.sp - 1 - 1 = session.registers.sp - 2 := by grind
  rw [BreaksTo, step_of_official session running decoded, ← two]
  rfl

/-- PHP on both sides. Each pushes the status that it has, and all else is alike. -/
structure PushStep (left right : Session M H O) : Prop where
  outcome : (step left).1 = (step right).1
  pushed : ∃ bus, left.PushesStatus bus ∧ right.PushesStatus bus
  next : InertTwins (step left).2 ((step right).2.withBus (step left).2.bus)

/-- BRK on both sides. Each pushes the status that it has and reads the vector after that. All else
is alike. -/
structure BreakStep (left right : Session M H O) : Prop where
  outcome : (step left).1 = (step right).1
  pushed : ∃ bus, left.BreaksTo bus ∧ right.BreaksTo bus
  next : InertTwins (step left).2 { (step right).2 with
    processor := ⟨{ (step right).2.registers with pc := (step left).2.registers.pc },
      (step left).2.bus⟩ }

theorem push_step {left right : Session M H O} (twins : InertTwins left right)
    (running : left.halted = none) (pushes : left.executes .php) : PushStep left right := by
  obtain ⟨inert, observer, rfl⟩ := twins
  have pushed := pushes_status_of_php left running pushes
  have pushedToo := pushes_status_of_php (left.withInert inert observer) running pushes
  obtain ⟨mode, decoded⟩ := pushes
  have leftStep := step_of_official left running decoded
  have rightStep := step_of_official (left.withInert inert observer) running decoded
  refine ⟨?_, ⟨left.fetched.bus, pushed, pushedToo⟩, ?_⟩
  · rw [leftStep, rightStep]
    rfl
  · rw [leftStep, rightStep]
    exact ⟨inert, _, rfl⟩

theorem break_step {left right : Session M H O} (twins : InertTwins left right)
    (running : left.halted = none) (breaks : left.executes .brk) : BreakStep left right := by
  obtain ⟨inert, observer, rfl⟩ := twins
  have pushed := breaks_to_of_brk left running breaks
  have pushedToo := breaks_to_of_brk (left.withInert inert observer) running breaks
  obtain ⟨mode, decoded⟩ := breaks
  have leftStep := step_of_official left running decoded
  have rightStep := step_of_official (left.withInert inert observer) running decoded
  refine ⟨?_, ⟨_, pushed, pushedToo⟩, ?_⟩
  · rw [leftStep, rightStep]
    rfl
  · rw [leftStep, rightStep]
    exact ⟨{ inert with interruptDisable := true }, _, rfl⟩

/-- If the pushed byte does not change the vector, both go to the same address. -/
theorem break_step_of_vector_apart (apart : Bus.VectorApart M) {left right : Session M H O}
    (breaks : BreakStep left right) :
    InertTwins (step left).2 ((step right).2.withBus (step left).2.bus) := by
  obtain ⟨bus, leftBreaks, rightBreaks⟩ := breaks.pushed
  have pc : (step left).2.registers.pc = (step right).2.registers.pc := by
    have leftPC := (congrArg Prod.fst leftBreaks).trans (apart _ _ bus)
    have rightPC := (congrArg Prod.fst rightBreaks).trans (apart _ _ bus)
    exact leftPC.trans rightPC.symm
  have next := breaks.next
  rw [pc] at next
  exact next

theorem mirrored_vector (memory : FlatMemory) (status : Byte) :
    (Bus.readWord Word.interruptVector (Bus.write (Word.stackCell (0x00 - 2)) status
      ({ mask := 0x01FF, memory := memory } : MappedMemory)).2).1 =
        Word.ofBytes status (memory.get 0x01FF) := by
  have cell : Word.stackCell (0x00 - 2) &&& 0x01FF = 0x01FE := by decide
  have vector : Word.interruptVector &&& 0x01FF = 0x01FE := by decide
  have next : (Word.interruptVector + 1) &&& 0x01FF = 0x01FF := by decide
  change Word.ofBytes
    ((memory.set (Word.stackCell (0x00 - 2) &&& 0x01FF) status).get
      (Word.interruptVector &&& 0x01FF))
    ((memory.set (Word.stackCell (0x00 - 2) &&& 0x01FF) status).get
      ((Word.interruptVector + 1) &&& 0x01FF)) = _
  rw [cell, vector, next, FlatMemory.get_set_same,
    FlatMemory.get_set_other memory status (by decide)]

/-- Sessions that differ in D and I and are otherwise alike, up to what the observers have seen,
go on alike as long as neither PHP nor BRK is executed: steps return the same, make the same
accesses and the same calls to the handler, and leave sessions that differ in D and I at most. A
step that executes PHP pushes statuses of which only these two bits differ, and nothing else comes
to differ. The same holds of BRK on a bus on which nothing that is pushed changes the vector, as it
does not on plain memory. On any other bus the program counter too is as the vector says once the
status has been pushed. The bus may be one that keeps a record, which then says the same of the
accesses of PHP and BRK. No sum and no difference depends on D, nor any flag that they set. -/
theorem inert_flags_do_not_show (left right : Session M H O) (twins : InertTwins left right) :
    (∀ count, (∀ index < count, (left.after index).Silent) →
      (∀ index < count, left.outcome index = right.outcome index ∧
        (left.after index).accesses = (right.after index).accesses ∧
        (left.after index).handlerCall? = (right.after index).handlerCall?) ∧
      InertTwins (left.after count) (right.after count)) ∧
    left.registers.status &&& 0xF3 = right.registers.status &&& 0xF3 ∧
    (left.halted = none → left.executes .php → PushStep left right) ∧
    (left.halted = none → left.executes .brk → BreakStep left right ∧
      (Bus.VectorApart M → InertTwins (step left).2 ((step right).2.withBus (step left).2.bus))) ∧
    Bus.VectorApart FlatMemory ∧ Bus.VectorApart (Recorded FlatMemory) ∧
    ∀ operand registers on,
      Operation.addToA operand (registers.setFlag .decimal on) =
        (Operation.addToA operand registers).setFlag .decimal on ∧
      Operation.subtractFromA operand (registers.setFlag .decimal on) =
        (Operation.subtractFromA operand registers).setFlag .decimal on := by
  refine ⟨?_, ?_, push_step twins, ?_, FlatMemory.vector_apart,
    Recorded.vector_apart FlatMemory.bytewise FlatMemory.vector_apart, fun _ _ _ => ⟨rfl, rfl⟩⟩
  · intro count silent
    obtain ⟨outcomes, states⟩ := after_agrees_while step_inert twins count silent
    refine ⟨?_, states count (Nat.le_refl count)⟩
    intro index below
    have still := states index (Nat.le_of_lt below)
    exact ⟨outcomes index below, accesses_inert still (silent index below),
      handler_call_inert still⟩
  · obtain ⟨inert, observer, rfl⟩ := twins
    exact (Flags.to_byte_with_inert left.registers.flags inert).symm
  · intro running breaks
    have stepped := break_step twins running breaks
    exact ⟨stepped, fun apart => break_step_of_vector_apart apart stepped⟩

/-- The carry goes into a sum, D does not. -/
theorem sum_without_decimal_flag :
    let session : Session FlatMemory Script (Array Snapshot) :=
      start (FlatMemory.ofFn fun _ => 0x69) 0x0200 {}
    let binary := (performAll [.setFlag .decimal false] session).2
    InertTwins session binary ∧ session.Silent ∧ InertTwins (session.after 1) (binary.after 1) := by
  intro session binary
  have twins : InertTwins session binary := ⟨⟨false, true⟩, none, rfl⟩
  have opcode : session.fetchedOpcode = 0x69 := FlatMemory.get_of_fn (fun _ => 0x69) 0x0200
  have decoded : session.instruction = .official .adc .immediate := by
    rw [instruction, opcode, Instruction.decode_eq_of_code]
    decide +kernel
  have silent : session.Silent := by
    intro running
    simp [executes, decoded]
  obtain ⟨runs, -⟩ := inert_flags_do_not_show session binary twins
  have once : ∀ index < 1, (session.after index).Silent := by
    intro index below
    rw [Nat.lt_one_iff.mp below]
    exact silent
  exact ⟨twins, silent, (runs 1 once).2⟩

/-- Nine address lines and an empty stack make the status byte the low byte of the vector. -/
theorem mirrored_vector_shows_decimal_flag :
    let memory : MappedMemory := { mask := 0x01FF, memory := FlatMemory.blank }
    let left : Session MappedMemory Script (Array Snapshot) :=
      (performAll [.setSP 0x00] (start memory 0x0000 {})).2
    let right := (performAll [.setFlag .decimal false] left).2
    InertTwins left right ∧ left.halted = none ∧ left.executes .brk ∧
      (step left).2.registers.pc = 0x023C ∧ (step right).2.registers.pc = 0x0234 := by
  intro memory left right
  have twins : InertTwins left right := ⟨⟨false, true⟩, none, rfl⟩
  have masked : (0x0000 : Word) &&& 0x01FF = 0x0000 := by decide
  have opcode : left.fetchedOpcode = 0x00 := by
    change FlatMemory.blank.get (0x0000 &&& 0x01FF) = 0x00
    rw [masked]
    exact FlatMemory.get_blank 0x0000
  have breaks : left.executes .brk := by
    refine ⟨.implicit, ?_⟩
    rw [instruction, opcode, Instruction.decode_eq_of_code]
    decide +kernel
  have breaksToo : right.executes .brk := breaks
  -- The return address fills the two cells above that of the status.
  obtain ⟨cells, top, leftBus, rightBus⟩ : ∃ cells : FlatMemory, cells.get 0x01FF = 0x02 ∧
      (Processor.pushWord (left.registers.pc + 1 + 1)
        (Processor.fetch left.fetched.processor).2).2.bus = { mask := 0x01FF, memory := cells } ∧
      (Processor.pushWord (right.registers.pc + 1 + 1)
        (Processor.fetch right.fetched.processor).2).2.bus =
        { mask := 0x01FF, memory := cells } := by
    have last : Word.stackCell (0x00 - 1) &&& 0x01FF = 0x01FF := by decide
    have low : Word.lowByte (0x0000 + 1 + 1) = 0x02 := by decide
    refine ⟨(FlatMemory.blank.set (Word.stackCell 0x00 &&& 0x01FF)
      (Word.highByte (0x0000 + 1 + 1))).set (Word.stackCell (0x00 - 1) &&& 0x01FF)
        (Word.lowByte (0x0000 + 1 + 1)), ?_, rfl, rfl⟩
    rw [last, low, FlatMemory.get_set_same]
  have leftBreaks := breaks_to_of_brk left rfl breaks
  have rightBreaks := breaks_to_of_brk right rfl breaksToo
  rw [leftBus] at leftBreaks
  rw [rightBus] at rightBreaks
  have leftPC := congrArg Prod.fst leftBreaks
  have rightPC := congrArg Prod.fst rightBreaks
  dsimp only at leftPC rightPC
  have leftVector := mirrored_vector cells left.registers.status
  have rightVector := mirrored_vector cells right.registers.status
  rw [top] at leftVector rightVector
  have leftTarget : Word.ofBytes left.registers.status 0x02 = 0x023C := by decide
  have rightTarget : Word.ofBytes right.registers.status 0x02 = 0x0234 := by decide
  refine ⟨twins, rfl, breaks, ?_, ?_⟩
  · rw [leftPC, ← leftTarget]
    exact leftVector
  · rw [rightPC, ← rightTarget]
    exact rightVector

end Session

end Nmos6502
