import Nmos6502.Processor.Execute
import Nmos6502.Session

/-!
One step of a session: the observer is told, the opcode is fetched and looked up, and the
instruction is executed. An opcode without an instruction halts the session with the
program counter still at it, and a halted session does nothing but report its trap again.
-/

namespace Nmos6502

inductive Progress where
  | running
  | stopped
  deriving DecidableEq, Repr

abbrev SessionM (M H O : Type) := StateM (Session M H O)

namespace Session

variable {M H O : Type}

/-- The session is taken apart before the action runs, so that the memory has one owner and
is changed in place. -/
def onProcessor {Value : Type} (action : ProcessorM M Value) : SessionM M H O Value
  | ⟨processor, config, tracing, stopPending, halted, instructions, observer, handler, log⟩ =>
      let (value, processor) := action processor
      (value,
        ⟨processor, config, tracing, stopPending, halted, instructions, observer, handler, log⟩)

theorem on_processor_run {Value : Type} (action : ProcessorM M Value)
    (session : Session M H O) :
    onProcessor action session =
      ((action session.processor).1,
        { session with processor := (action session.processor).2 }) := rfl

def record (entry : LogRecord) : SessionM M H O Unit :=
  modify fun session => { session with log := session.log.push entry }

/-- The snapshot is taken whenever tracing is on, and its opcode is read through the bus,
whether or not an observer is there to see it. -/
def observe [Bus M] [TraceObserver O] : SessionM M H O Unit := do
  if (← get).tracing then
    let registers ← onProcessor Processor.registersNow
    let opcode ← onProcessor (Processor.onBus (Bus.read registers.pc))
    let snapshot := Snapshot.ofRegisters registers opcode
    modify fun session =>
      { session with observer := session.observer.map (TraceObserver.observe snapshot) }

/-- The operation byte that switches tracing and is never passed to a handler. -/
def traceToggle : Byte := 0xFF

/-- Both bytes of the extension instruction have been fetched when its address is needed. -/
def extensionAddress : SessionM M H O Word := do
  return (← onProcessor Processor.registersNow).pc - 2

def switchTracing : SessionM M H O Unit := do
  modify fun session => { session with tracing := !session.tracing }
  record (.traceSwitched (← get).tracing (← extensionAddress))

/-- The new accumulator and whether a stop is asked for, if a handler is attached. -/
def consult [ExtensionHandler H] (operation accumulator : Byte) :
    SessionM M H O (Option (Byte × Bool))
  | ⟨processor, config, tracing, stopPending, halted, instructions, observer, handler, log⟩ =>
      match handler with
      | none =>
          (none,
            ⟨processor, config, tracing, stopPending, halted, instructions, observer, none, log⟩)
      | some handler =>
          let (result, handler) := ExtensionHandler.call operation accumulator handler
          (some (result, ExtensionHandler.stopRequested handler),
            ⟨processor, config, tracing, stopPending, halted, instructions, observer,
              some handler, log⟩)

/-- The handler's answer goes to the accumulator and no flag depends on it. -/
def extension [Bus M] [ExtensionHandler H] : SessionM M H O Unit := do
  let operation ← onProcessor Processor.fetch
  if operation = traceToggle then switchTracing
  else
    match ← consult operation (← onProcessor Processor.registersNow).a with
    | none => record (.unanswered operation (← extensionAddress))
    | some (result, stop) => do
        onProcessor (Processor.update fun registers => { registers with a := result })
        if stop then
          record (.stopRequested operation)
          modify fun session => { session with stopPending := true }

/-- The program counter goes back to the opcode that halted the session. -/
def halt (opcode : Byte) (address : Word) : SessionM M H O (Except Trap Progress) := do
  onProcessor (Processor.setPC address)
  let trap := Trap.illegalOpcode opcode address
  record (.halting trap)
  modify fun session => { session with halted := some trap }
  return .error trap

/-- An executed instruction is counted, and a pending stop is taken. -/
def finish : SessionM M H O (Except Trap Progress) := do
  let stopping := (← get).stopPending
  modify fun session =>
    { session with instructions := session.instructions + 1, stopPending := false }
  return .ok (if stopping then .stopped else .running)

variable [Bus M] [ExtensionHandler H] [TraceObserver O]

def fetchAndExecute : SessionM M H O (Except Trap Progress) := do
  observe
  let address := (← onProcessor Processor.registersNow).pc
  let opcode ← onProcessor Processor.fetch
  match Instruction.decode opcode with
  | .illegal => halt opcode address
  | .extension => do
      record (.executing address opcode)
      extension
      finish
  | .official mnemonic mode => do
      record (.executing address opcode)
      let pointerWraps := (← get).config.pointerWraps
      onProcessor (Processor.execute pointerWraps mnemonic mode)
      finish

def step : SessionM M H O (Except Trap Progress) := do
  match (← get).halted with
  | some trap => return .error trap
  | none => fetchAndExecute

theorem step_of_halted (session : Session M H O) (trap : Trap)
    (halted : session.halted = some trap) : step session = (.error trap, session) := by
  simp only [step, bind, StateT.bind, get, getThe, MonadStateOf.get, StateT.get, pure, halted]
  rfl

theorem step_of_running (session : Session M H O) (running : session.halted = none) :
    step session = fetchAndExecute session := by
  simp only [step, bind, StateT.bind, get, getThe, MonadStateOf.get, StateT.get, pure, running]

end Session

end Nmos6502
