import Nmos6502.Processor
import Nmos6502.Session.Hooks
import Nmos6502.Session.Log

/-!
A session: a processor on its bus together with the options it was started with, what the
host has attached, and what has happened so far. It ends with the first trap, which it
keeps. Memory of type `M`, handlers of type `H` and observers of type `O` are the host's.
-/

namespace Nmos6502

structure Config where
  /-- Whether tracing is on at the start. -/
  tracing : Bool := false
  /-- Whether the pointer of an indirect jump wraps within its page. -/
  pointerWraps : Bool := false
  deriving DecidableEq, Repr

structure Session (M H O : Type) where
  processor : Processor M
  config : Config
  tracing : Bool
  /-- Set while an instruction executes whose handler asks for a stop. -/
  stopPending : Bool
  halted : Option Trap
  /-- How many instructions have been executed. -/
  instructions : UInt64
  observer : Option O
  handler : Option H
  log : Array LogRecord

namespace Session

variable {M H O : Type}

def start (bus : M) (pc : Word) (config : Config) : Session M H O where
  processor := ⟨Registers.start pc, bus⟩
  config := config
  tracing := config.tracing
  stopPending := false
  halted := none
  instructions := 0
  observer := none
  handler := none
  log := #[]

def registers (session : Session M H O) : Registers := session.processor.registers

def bus (session : Session M H O) : M := session.processor.bus

end Session

end Nmos6502
