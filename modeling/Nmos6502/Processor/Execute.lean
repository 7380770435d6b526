import Nmos6502.Operation
import Nmos6502.Processor.Operand

/-!
Executing a documented instruction whose opcode has been fetched.
-/

namespace Nmos6502.Processor

variable {M : Type} [Bus M]

/-- The return address on the stack is that of the last byte of the call. -/
def callSubroutine : ProcessorM M Unit := do
  let target ← fetchWord
  pushWord ((← registersNow).pc - 1)
  setPC target

def returnFromSubroutine : ProcessorM M Unit := do
  setPC ((← pullWord) + 1)

/-- The byte after the opcode is skipped, and the return address is that of the byte after
it. The status byte on the stack still has the old I. -/
def softwareInterrupt : ProcessorM M Unit := do
  let _ ← fetch
  pushWord (← registersNow).pc
  push (← registersNow).status
  update fun registers => registers.setFlag .interruptDisable true
  setPC (← onBus (Bus.readWord Word.interruptVector))

def returnFromInterrupt : ProcessorM M Unit := do
  let status ← pull
  update (Operation.loadFlags status)
  setPC (← pullWord)

def perform (pointerWraps : Bool) (mode : Mode) : Operation → ProcessorM M Unit
  | .load effect => do
      let value ← readOperand (← resolve pointerWraps mode)
      update (effect value)
  | .store value => do
      let result := value (← registersNow)
      writeOperand (← resolve pointerWraps mode) result
  | .modify effect => do
      let operand ← resolve pointerWraps mode
      let value ← readOperand operand
      let (result, flags) := effect value (← registersNow).flags
      update fun registers => { registers with flags := flags }
      writeOperand operand.modified result
  | .branch taken => do
      match ← resolve pointerWraps mode with
      | .displacement offset =>
          if taken (← registersNow).flags then
            update fun registers => { registers with pc := Word.displace registers.pc offset }
      | _ => return ()
  | .internal effect => update effect
  | .push value => do push (value (← registersNow))
  | .pull effect => do
      let value ← pull
      update (effect value)
  | .jump => do
      match ← resolve pointerWraps mode with
      | .cell target => setPC target
      | _ => return ()
  | .callSubroutine => callSubroutine
  | .returnFromSubroutine => returnFromSubroutine
  | .softwareInterrupt => softwareInterrupt
  | .returnFromInterrupt => returnFromInterrupt

def execute (pointerWraps : Bool) (mnemonic : Mnemonic) (mode : Mode) : ProcessorM M Unit :=
  perform pointerWraps mode mnemonic.operation

end Nmos6502.Processor
