import Nmos6502.Bus.Flat
import Nmos6502.Session.Call

/-!
A session over plain memory with nothing attached, for hosts that want counts of 32 bits
and failures as text. The session can be replaced by a fresh one over the same memory.
-/

namespace Nmos6502

structure Failure where
  message : String
  deriving DecidableEq, Repr

def Failure.ofTrap (trap : Trap) : Failure := ⟨trap.message⟩

structure Emulator where
  session : Session FlatMemory Empty Empty

abbrev EmulatorM := StateM Emulator

namespace Emulator

def start (pc : Word) : Emulator := ⟨Session.start FlatMemory.blank pc {}⟩

def onSession {Value : Type} (action : SessionM FlatMemory Empty Empty Value) : EmulatorM Value
  | ⟨session⟩ =>
      let (value, session) := action session
      (value, ⟨session⟩)

/-- Says whether the step was stopped. -/
def step : EmulatorM (Except Failure Bool) := do
  match ← onSession Session.step with
  | .ok progress => return .ok (progress == .stopped)
  | .error trap => return .error (Failure.ofTrap trap)

def runFor (limit : UInt32) : EmulatorM (Except Failure UInt32) := do
  match ← onSession (Session.runFor limit.toUInt64) with
  | .ok count => return .ok count.toUInt32
  | .error trap => return .error (Failure.ofTrap trap)

def load (address : Word) (bytes : List Byte) : EmulatorM Unit :=
  onSession (Session.onBus fun memory => ((), memory.load address bytes))

def readMemory (address : Word) : EmulatorM Byte := onSession (Session.onBus (Bus.read address))

def writeMemory (address : Word) (value : Byte) : EmulatorM Unit :=
  onSession (Session.onBus (Bus.write address value))

/-- Only the memory outlives the session. -/
def restart (pc : Word) : EmulatorM Unit
  | ⟨session⟩ => ((), ⟨Session.start session.bus pc {}⟩)

def haltedText (emulator : Emulator) : Option String := emulator.session.halted.map Trap.message

end Emulator

end Nmos6502
