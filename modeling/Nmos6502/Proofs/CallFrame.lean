import Nmos6502.Proofs.Run
import Nmos6502.Proofs.Stack

/-!
What a call leaves on the stack and why it is still there when the call returns. The bytes that
a call pushes are its frame. They stay as they are while the program pushes no more than there
is room for, pulls no more than it has pushed and stores to none of them, whatever else it does.
-/

namespace Nmos6502

/-- What pushes the frame: a subroutine call or BRK. -/
inductive Frame where
  | subroutine
  | interrupt
  deriving DecidableEq

namespace Frame

def call : Frame → Mnemonic
  | .subroutine => .jsr
  | .interrupt => .brk

/-- What pulls the frame and goes back to the caller. -/
def returns : Frame → Mnemonic
  | .subroutine => .rts
  | .interrupt => .rti

/-- How many bytes the frame has on the stack. -/
def size : Frame → Nat
  | .subroutine => 2
  | .interrupt => 3

/-- How far the caller's next instruction is from the call. -/
def codeSize : Frame → Word
  | .subroutine => 3
  | .interrupt => 2

/-- The bytes of the frame in the order in which they are pushed by a caller with these
registers, of which a subroutine call has the first two. -/
def byte (caller : Registers) : Nat → Byte
  | 0 => Word.highByte (caller.pc + 2)
  | 1 => Word.lowByte (caller.pc + 2)
  | _ => caller.status

/-- Where the bytes are. -/
def cell (caller : Registers) (offset : Nat) : Word :=
  Word.stackCell (caller.sp - UInt8.ofNat offset)

theorem cell_zero (caller : Registers) : cell caller 0 = Word.stackCell caller.sp :=
  congrArg Word.stackCell (UInt8.sub_zero caller.sp)

end Frame

namespace Processor

theorem call_subroutine_frame (caller : Registers) (processor : Processor FlatMemory)
    (sp : processor.registers.sp = caller.sp) (pc : processor.registers.pc = caller.pc + 1) :
    (callSubroutine processor).2.registers.sp = caller.sp - UInt8.ofNat 2 ∧
      ∀ offset < 2,
        (callSubroutine processor).2.bus.get (Frame.cell caller offset) =
          Frame.byte caller offset := by
  have last : processor.registers.pc + 1 + 1 - 1 = caller.pc + 2 := by grind
  obtain ⟨high, low⟩ := push_word_stores (fetchWord processor).2
    (processor.registers.pc + 1 + 1 - 1)
  refine ⟨?_, ?_⟩
  · change processor.registers.sp - 1 - 1 = caller.sp - 2
    grind
  · change (callSubroutine processor).2.bus.get (Word.stackCell processor.registers.sp) = _ at high
    change (callSubroutine processor).2.bus.get
      (Word.stackCell (processor.registers.sp - 1)) = _ at low
    rw [sp, last] at high low
    intro offset within
    obtain rfl | rfl : offset = 0 ∨ offset = 1 := by omega
    · rw [Frame.cell_zero]
      exact high
    · exact low

theorem software_interrupt_frame (caller : Registers) (processor : Processor FlatMemory)
    (sp : processor.registers.sp = caller.sp) (pc : processor.registers.pc = caller.pc + 1)
    (flags : processor.registers.flags = caller.flags) :
    (softwareInterrupt processor).2.registers.sp = caller.sp - UInt8.ofNat 3 ∧
      ∀ offset < 3,
        (softwareInterrupt processor).2.bus.get (Frame.cell caller offset) =
          Frame.byte caller offset := by
  have last : processor.registers.pc + 1 = caller.pc + 2 := by grind
  have third : caller.sp - UInt8.ofNat 2 = caller.sp - 1 - 1 := by grind
  let returned := (pushWord (processor.registers.pc + 1) (fetch processor).2).2
  obtain ⟨high, low⟩ := push_word_stores (fetch processor).2 (processor.registers.pc + 1)
  have status := push_stores returned processor.registers.status
  have bottom : Word.stackCell returned.registers.sp = Frame.cell caller 2 := by
    rw [Frame.cell, third, ← sp]
    rfl
  have above {offset : Nat} (within : offset < 2) :
      (softwareInterrupt processor).2.bus.get (Frame.cell caller offset) =
        returned.bus.get (Frame.cell caller offset) := by
    apply push_keeps returned processor.registers.status
    rw [bottom]
    apply Word.stack_cells_apart <;> omega
  change returned.bus.get (Word.stackCell processor.registers.sp) = _ at high
  change returned.bus.get (Word.stackCell (processor.registers.sp - 1)) = _ at low
  change (softwareInterrupt processor).2.bus.get (Word.stackCell returned.registers.sp) = _
    at status
  rw [sp, last] at high low
  rw [bottom, Registers.status, flags] at status
  refine ⟨?_, ?_⟩
  · change processor.registers.sp - 1 - 1 - 1 = caller.sp - 3
    grind
  · intro offset within
    obtain rfl | rfl | rfl : offset = 0 ∨ offset = 1 ∨ offset = 2 := by omega
    · rw [above (by decide), Frame.cell_zero]
      exact high
    · rw [above (by decide)]
      exact low
    · exact status

theorem return_from_subroutine_of_frame (caller : Registers) (processor : Processor FlatMemory)
    (sp : processor.registers.sp = caller.sp - UInt8.ofNat 2)
    (bytes : ∀ offset < 2,
      processor.bus.get (Frame.cell caller offset) = Frame.byte caller offset) :
    (returnFromSubroutine processor).2.registers =
      { processor.registers with pc := caller.pc + 3, sp := caller.sp } := by
  have second : processor.registers.sp + 1 = caller.sp - UInt8.ofNat 1 := by grind
  have first : processor.registers.sp + 1 + 1 = caller.sp := by grind
  have next : caller.pc + 2 + 1 = caller.pc + 3 := by grind
  have low := bytes 1 (by decide)
  have high := bytes 0 (by decide)
  rw [Frame.cell, ← second] at low
  rw [Frame.cell_zero, ← first] at high
  have address : (pullWord processor).1 = caller.pc + 2 := by
    change Word.ofBytes (processor.bus.get (Word.stackCell (processor.registers.sp + 1)))
      (processor.bus.get (Word.stackCell (processor.registers.sp + 1 + 1))) = _
    rw [low, high]
    exact Word.of_bytes_low_high (caller.pc + 2)
  have top : (pullWord processor).2.registers =
      { processor.registers with sp := caller.sp } := by
    change { processor.registers with sp := processor.registers.sp + 1 + 1 } = _
    rw [first]
  rw [return_from_subroutine_run]
  dsimp only
  rw [address, top, next]

theorem return_from_interrupt_of_frame (caller : Registers) (processor : Processor FlatMemory)
    (sp : processor.registers.sp = caller.sp - UInt8.ofNat 3)
    (bytes : ∀ offset < 3,
      processor.bus.get (Frame.cell caller offset) = Frame.byte caller offset) :
    (returnFromInterrupt processor).2.registers =
      { processor.registers with pc := caller.pc + 2, sp := caller.sp, flags := caller.flags } := by
  have third : processor.registers.sp + 1 = caller.sp - UInt8.ofNat 2 := by grind
  have second : processor.registers.sp + 1 + 1 = caller.sp - UInt8.ofNat 1 := by grind
  have first : processor.registers.sp + 1 + 1 + 1 = caller.sp := by grind
  have status := bytes 2 (by decide)
  have low := bytes 1 (by decide)
  have high := bytes 0 (by decide)
  rw [Frame.cell, ← third] at status
  rw [Frame.cell, ← second] at low
  rw [Frame.cell_zero, ← first] at high
  let restored : Processor FlatMemory :=
    ⟨Operation.loadFlags (pull processor).1 (pull processor).2.registers, processor.bus⟩
  have flags : Flags.ofByte (pull processor).1 = caller.flags := by
    change Flags.ofByte (processor.bus.get (Word.stackCell (processor.registers.sp + 1))) = _
    rw [status]
    exact Flags.of_byte_to_byte caller.flags
  have address : (pullWord restored).1 = caller.pc + 2 := by
    change Word.ofBytes (processor.bus.get (Word.stackCell (processor.registers.sp + 1 + 1)))
      (processor.bus.get (Word.stackCell (processor.registers.sp + 1 + 1 + 1))) = _
    rw [low, high]
    exact Word.of_bytes_low_high (caller.pc + 2)
  have top : (pullWord restored).2.registers =
      { processor.registers with sp := caller.sp, flags := caller.flags } := by
    change { processor.registers with
      sp := processor.registers.sp + 1 + 1 + 1, flags := Flags.ofByte (pull processor).1 } = _
    rw [first, flags]
  rw [return_from_interrupt_run]
  change { (pullWord restored).2.registers with pc := (pullWord restored).1 } = _
  rw [address, top]

end Processor

namespace Session

section

variable {M H O : Type} [Bus M] [ExtensionHandler H] [TraceObserver O]

/-- How many more bytes have been pushed than pulled after a number of steps. -/
def depth (session : Session M H O) : Nat → Int
  | 0 => 0
  | count + 1 =>
      depth session count + (session.after count).instruction.pushes -
        (session.after count).instruction.pulls

end

variable {H O : Type} [ExtensionHandler H] [TraceObserver O]

/-- The steps succeed, neither pull from the frame nor push around the stack onto it, load no
stack pointer and store to no byte of the frame. -/
structure Guards (frame : Frame) (caller : Registers) (session : Session FlatMemory H O)
    (length : Nat) : Prop where
  succeeds : ∀ index < length, ∃ progress, session.outcome index = .ok progress
  depth_bounds : ∀ index ≤ length,
    0 ≤ session.depth index ∧ session.depth index ≤ 256 - frame.size
  sp_not_loaded : ∀ index < length, ¬(session.after index).executes .txs
  frame_not_stored : ∀ index < length, ∀ offset < frame.size,
    (session.after index).storeTarget ≠ some (Frame.cell caller offset)

/-- The frame of the caller is intact below this many further bytes. -/
structure Keeps (frame : Frame) (caller : Registers) (depth : Nat)
    (session : Session FlatMemory H O) : Prop where
  running : session.halted = none
  sp : session.registers.sp = caller.sp - UInt8.ofNat (frame.size + depth)
  bytes : ∀ offset < frame.size,
    session.bus.get (Frame.cell caller offset) = Frame.byte caller offset

theorem keeps_of_step {frame : Frame} {caller : Registers} {depth deeper : Nat}
    {session : Session FlatMemory H O} {progress : Progress}
    (kept : Keeps frame caller depth session) (succeeded : (step session).1 = .ok progress)
    (other : ¬session.executes .txs)
    (stored : ∀ offset < frame.size, session.storeTarget ≠ some (Frame.cell caller offset))
    (moved : deeper + session.instruction.pulls = depth + session.instruction.pushes)
    (room : frame.size + (depth + session.instruction.pushes) ≤ 256) :
    Keeps frame caller deeper (step session).2 := by
  have legal := (step_ok_iff_legal session kept.running).mp ⟨progress, succeeded⟩
  obtain ⟨-, -, running, -, -⟩ := step_of_legal session kept.running legal
  refine ⟨running, ?_, ?_⟩
  · rw [step_sp session kept.running other, kept.sp]
    have total : UInt8.ofNat (frame.size + deeper) + UInt8.ofNat session.instruction.pulls =
        UInt8.ofNat (frame.size + depth) + UInt8.ofNat session.instruction.pushes := by
      rw [← UInt8.ofNat_add, ← UInt8.ofNat_add, Nat.add_assoc, moved, Nat.add_assoc]
    grind
  · intro offset within
    rw [step_keeps session kept.running (stored offset within), kept.bytes offset within]
    intro pushed below
    have lower : session.registers.sp - UInt8.ofNat pushed =
        caller.sp - UInt8.ofNat (frame.size + depth + pushed) := by
      rw [kept.sp, UInt8.ofNat_add (frame.size + depth)]
      grind
    rw [lower]
    apply Word.stack_cells_apart <;> omega

theorem keeps_of_guards {frame : Frame} {caller : Registers} {session : Session FlatMemory H O}
    {length : Nat} (kept : Keeps frame caller 0 session)
    (guards : Guards frame caller session length) {count : Nat} (within : count ≤ length) :
    Keeps frame caller (session.depth count).toNat (session.after count) := by
  induction count with
  | zero => exact kept
  | succ count induction =>
      obtain ⟨progress, succeeded⟩ := guards.succeeds count within
      have before := guards.depth_bounds count (Nat.le_of_succ_le within)
      have later := guards.depth_bounds (count + 1) within
      rw [depth] at later
      -- No instruction both pushes and pulls, so the depth after the step bounds the pushes.
      have oneWay : (session.after count).instruction.pushes = 0 ∨
          (session.after count).instruction.pulls = 0 :=
        Instruction.pushes_or_pulls _
      refine keeps_of_step (induction (Nat.le_of_succ_le within)) succeeded
        (guards.sp_not_loaded count within) (guards.frame_not_stored count within) ?_ ?_
      · rw [depth]
        omega
      · omega

/-- The call has pushed the frame and nothing else. -/
theorem keeps_of_call {frame : Frame} (session : Session FlatMemory H O)
    (running : session.halted = none) (called : session.executes frame.call) :
    Keeps frame session.registers 0 (step session).2 := by
  obtain ⟨mode, decoded⟩ := called
  rw [step_of_official session running decoded]
  cases frame with
  | subroutine =>
      have frame : _ ∧ _ := Processor.call_subroutine_frame session.registers
        session.fetched.processor rfl rfl
      exact ⟨running, frame.1, frame.2⟩
  | interrupt =>
      have frame : _ ∧ _ := Processor.software_interrupt_frame session.registers
        session.fetched.processor rfl rfl rfl
      exact ⟨running, frame.1, frame.2⟩

/-- A frame that is intact and on top of the stack brings the return back to its caller. -/
theorem returns_of_keeps {frame : Frame} {caller : Registers} {session : Session FlatMemory H O}
    (kept : Keeps frame caller 0 session) (returning : session.executes frame.returns) :
    (∃ progress, (step session).1 = .ok progress) ∧
      (step session).2.registers.pc = caller.pc + frame.codeSize ∧
      (step session).2.registers.sp = caller.sp ∧
      (frame = .interrupt → (step session).2.registers.flags = caller.flags) := by
  obtain ⟨mode, decoded⟩ := returning
  have executed := step_of_official session kept.running decoded
  have bytes := kept.bytes
  rw [← fetched_bus session] at bytes
  refine ⟨⟨_, congrArg Prod.fst executed⟩, ?_⟩
  cases frame with
  | subroutine =>
      have registers : (step session).2.registers =
          { session.fetched.registers with pc := caller.pc + 3, sp := caller.sp } := by
        rw [executed]
        exact Processor.return_from_subroutine_of_frame caller session.fetched.processor
          kept.sp bytes
      rw [registers]
      refine ⟨rfl, rfl, ?_⟩
      intro other
      cases other
  | interrupt =>
      have registers : (step session).2.registers =
          { session.fetched.registers with
            pc := caller.pc + 2, sp := caller.sp, flags := caller.flags } := by
        rw [executed]
        exact Processor.return_from_interrupt_of_frame caller session.fetched.processor
          kept.sp bytes
      rw [registers]
      exact ⟨rfl, rfl, fun _ => rfl⟩

theorem pc_of_call (session : Session FlatMemory H O) (running : session.halted = none)
    {mode : Mode} (calls : session.instruction = .official .jsr mode) :
    (step session).2.registers.pc =
      Word.ofBytes (session.bus.get (session.registers.pc + 1))
        (session.bus.get (session.registers.pc + 1 + 1)) := by
  rw [step_of_official session running calls, ← fetched_bus session]
  rfl

/-- A body that saves the accumulator and restores it. -/
theorem saving_body_guards (frame : Frame) (caller : Registers) {body : Session FlatMemory H O}
    (running : body.halted = none) (pc : body.registers.pc = 0x0200)
    (save : body.bus.get 0x0200 = 0x48) (restore : body.bus.get 0x0201 = 0x68) :
    Guards frame caller body 2 ∧ body.depth 2 = 0 ∧ (body.after 2).registers.pc = 0x0202 ∧
      ∀ address, 0x0200 ≤ address → (body.after 2).bus.get address = body.bus.get address := by
  have pha : Instruction.decode 0x48 = .official .pha .implicit :=
    (Instruction.decode_eq_of_code 0x48).trans (by decide +kernel)
  have pla : Instruction.decode 0x68 = .official .pla .implicit :=
    (Instruction.decode_eq_of_code 0x68).trans (by decide +kernel)
  have saves : (body.after 0).instruction = .official .pha .implicit := by
    rw [after, instruction_on_flat, pc, save, pha]
  obtain ⟨firstTarget, saved, stillRunning, kept⟩ := code_of_step (body.after 0) running saves rfl
  have restoresAt : (body.after 1).registers.pc = 0x0201 := by
    rw [after, step_of_official (body.after 0) running saves]
    change body.registers.pc + 1 = 0x0201
    rw [pc]
    rfl
  have restores : (body.after 1).instruction = .official .pla .implicit := by
    rw [instruction_on_flat, restoresAt, after, kept _ (by decide), after, restore, pla]
  rw [← after] at stillRunning kept
  obtain ⟨secondTarget, restored, -, keptAgain⟩ :=
    code_of_step (body.after 1) stillRunning restores rfl
  have first : body.depth 1 = 1 := by
    rw [depth, saves]
    rfl
  have second : body.depth 2 = 0 := by
    rw [depth, first, restores]
    rfl
  refine ⟨⟨?_, ?_, ?_, ?_⟩, second, ?_, ?_⟩
  · intro index below
    obtain rfl | rfl : index = 0 ∨ index = 1 := by omega
    · exact saved
    · exact restored
  · intro index within
    have room : (1 : Int) ≤ 256 - frame.size := by cases frame <;> decide
    obtain rfl | rfl | rfl : index = 0 ∨ index = 1 ∨ index = 2 := by omega
    · rw [depth]
      omega
    · rw [first]
      omega
    · rw [second]
      omega
  · intro index below
    obtain rfl | rfl : index = 0 ∨ index = 1 := by omega
    · rintro ⟨mode, loads⟩
      cases saves.symm.trans loads
    · rintro ⟨mode, loads⟩
      cases restores.symm.trans loads
  · intro index below offset within
    obtain rfl | rfl : index = 0 ∨ index = 1 := by omega
    · simp [firstTarget]
    · simp [secondTarget]
  · rw [after, step_of_official (body.after 1) stillRunning restores]
    change (body.after 1).registers.pc + 1 = 0x0202
    rw [restoresAt]
    rfl
  · intro address above
    rw [after, keptAgain address above, kept address above]
    rfl

/-- A call returns to where it was made from, with the stack as deep as it was, if its frame
was left alone and everything above it has been pulled again. An interrupt gives the flags
back too. -/
theorem call_returns_to_caller (frame : Frame) (session : Session FlatMemory H O) (length : Nat)
    (running : session.halted = none) (called : session.executes frame.call)
    (guards : Guards frame session.registers (step session).2 length)
    (balanced : (step session).2.depth length = 0)
    (returning : ((step session).2.after length).executes frame.returns) :
    let last := (step session).2.after length
    (∃ progress, (step last).1 = .ok progress) ∧
      (step last).2.registers.pc = session.registers.pc + frame.codeSize ∧
      (step last).2.registers.sp = session.registers.sp ∧
      (frame = .interrupt → (step last).2.registers.flags = session.registers.flags) := by
  have kept := keeps_of_guards (keeps_of_call session running called) guards (Nat.le_refl length)
  rw [balanced] at kept
  exact returns_of_keeps kept returning

/-- The call lies across the top of memory, and the frame across the ends of the stack. -/
theorem saving_call_returns :
    let contents : Word → Byte
      | 0xFFFE => 0x20
      | 0x0000 => 0x02
      | 0x0200 => 0x48
      | 0x0201 => 0x68
      | 0x0202 => 0x60
      | _ => 0x00
    let fresh : Session FlatMemory Empty Empty :=
      Session.start (FlatMemory.ofFn contents) 0xFFFE {}
    let session : Session FlatMemory Empty Empty :=
      { fresh with processor := ⟨{ Registers.start 0xFFFE with sp := 0x00 }, fresh.bus⟩ }
    session.halted = none ∧ session.executes .jsr ∧
      Guards .subroutine session.registers (step session).2 2 ∧ (step session).2.depth 2 = 0 ∧
      ((step session).2.after 2).executes .rts ∧
      (step ((step session).2.after 2)).2.registers.pc = 0x0001 ∧
      (step ((step session).2.after 2)).2.registers.sp = 0x00 := by
  intro contents fresh session
  have memory : session.bus = FlatMemory.ofFn contents := rfl
  have running : session.halted = none := rfl
  have jsr : Instruction.decode 0x20 = .official .jsr .absolute :=
    (Instruction.decode_eq_of_code 0x20).trans (by decide +kernel)
  have rts : Instruction.decode 0x60 = .official .rts .implicit :=
    (Instruction.decode_eq_of_code 0x60).trans (by decide +kernel)
  have calls : session.instruction = .official .jsr .absolute := by
    rw [instruction_on_flat, memory, FlatMemory.get_of_fn]
    exact jsr
  obtain ⟨-, -, bodyRunning, kept⟩ := code_of_step session running calls rfl
  have pc : (step session).2.registers.pc = 0x0200 := by
    have low : session.registers.pc + 1 = 0xFFFF := by decide
    have high : (0xFFFF : Word) + 1 = 0x0000 := by decide
    rw [pc_of_call session running calls, low, high, memory, FlatMemory.get_of_fn,
      FlatMemory.get_of_fn]
    change Word.ofBytes 0x00 0x02 = 0x0200
    rfl
  have cell (address : Word) (above : 0x0200 ≤ address) :
      (step session).2.bus.get address = contents address := by
    rw [kept address above, memory, FlatMemory.get_of_fn]
  obtain ⟨guards, balanced, returnsAt, still⟩ := saving_body_guards .subroutine session.registers
    bodyRunning pc (cell 0x0200 (by decide)) (cell 0x0201 (by decide))
  have returns : ((step session).2.after 2).instruction = .official .rts .implicit := by
    rw [instruction_on_flat, returnsAt, still _ (by decide), cell _ (by decide)]
    exact rts
  obtain ⟨-, address, top, -⟩ := call_returns_to_caller .subroutine session 2 running
    ⟨_, calls⟩ guards balanced ⟨_, returns⟩
  have next : (0xFFFE : Word) + 3 = 0x0001 := by decide
  exact ⟨running, ⟨_, calls⟩, guards, balanced, ⟨_, returns⟩, address.trans next, top⟩

end Session

end Nmos6502
