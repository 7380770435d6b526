import Nmos6502.Session.Run

/-!
What a host can do with a session, as data, so that a history of a session is a list of
calls. The calls that only look at a session are not among them.
-/

namespace Nmos6502

inductive Call (M H O : Type) where
  | step
  | run (fuel : Nat)
  | runFor (limit : UInt64)
  | setA (value : Byte)
  | setX (value : Byte)
  | setY (value : Byte)
  | setSP (value : Byte)
  | setPC (address : Word)
  | setStatus (status : Byte)
  | setFlags (flags : Flags)
  | setFlag (flag : Flag) (value : Bool)
  | setTracing (on : Bool)
  | attachObserver (observer : O)
  | detachObserver
  | attachHandler (handler : H)
  | detachHandler
  | readByte (address : Word)
  | readWord (address : Word)
  | readZeroPageWord (address : Byte)
  | write (address : Word) (value : Byte)
  /-- Changes the memory behind the bus without an access to the bus. -/
  | patch (change : M → M)

inductive Reply where
  | done
  | progress (result : Except Trap Progress)
  | count (result : Except Trap UInt64)
  /-- The run is still going on. -/
  | unfinished
  | byte (value : Byte)
  | word (value : Word)

namespace Session

variable {M H O : Type} [Bus M] [ExtensionHandler H] [TraceObserver O]

def onBus {Value : Type} (action : StateM M Value) : SessionM M H O Value :=
  onProcessor (Processor.onBus action)

def setRegisters (effect : Registers → Registers) : SessionM M H O Reply := do
  onProcessor (Processor.update effect)
  return .done

def change (effect : Session M H O → Session M H O) : SessionM M H O Reply := do
  modify effect
  return .done

def perform : Call M H O → SessionM M H O Reply
  | .step => return .progress (← step)
  | .run fuel => do
      match ← run fuel with
      | none => return .unfinished
      | some result => return .count result
  | .runFor limit => return .count (← runFor limit)
  | .setA value => setRegisters fun registers => { registers with a := value }
  | .setX value => setRegisters fun registers => { registers with x := value }
  | .setY value => setRegisters fun registers => { registers with y := value }
  | .setSP value => setRegisters fun registers => { registers with sp := value }
  | .setPC address => setRegisters fun registers => { registers with pc := address }
  | .setStatus status => setRegisters (Operation.loadFlags status)
  | .setFlags flags => setRegisters fun registers => { registers with flags := flags }
  | .setFlag flag value => setRegisters fun registers => registers.setFlag flag value
  | .setTracing on => change fun session => { session with tracing := on }
  | .attachObserver observer => change fun session => { session with observer := some observer }
  | .detachObserver => change fun session => { session with observer := none }
  | .attachHandler handler => change fun session => { session with handler := some handler }
  | .detachHandler => change fun session => { session with handler := none }
  | .readByte address => return .byte (← onBus (Bus.read address))
  | .readWord address => return .word (← onBus (Bus.readWord address))
  | .readZeroPageWord address => return .word (← onBus (Bus.readZeroPageWord address))
  | .write address value => do
      onBus (Bus.write address value)
      return .done
  | .patch change => do
      onBus (fun bus => ((), change bus))
      return .done

/-- The calls are made one after the other. -/
def performAll : List (Call M H O) → SessionM M H O (List Reply)
  | [] => return []
  | call :: rest => do
      let reply ← perform call
      return reply :: (← performAll rest)

theorem perform_all_cons (call : Call M H O) (rest : List (Call M H O))
    (session : Session M H O) :
    performAll (call :: rest) session =
      ((perform call session).1 :: (performAll rest (perform call session).2).1,
        (performAll rest (perform call session).2).2) := rfl

theorem perform_all_append (first second : List (Call M H O)) (session : Session M H O) :
    performAll (first ++ second) session =
      ((performAll first session).1 ++ (performAll second (performAll first session).2).1,
        (performAll second (performAll first session).2).2) := by
  induction first generalizing session with
  | nil => rfl
  | cons call rest induction =>
      rw [List.cons_append, perform_all_cons, perform_all_cons, induction]
      rfl

end Session

end Nmos6502
