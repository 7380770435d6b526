import Nmos6502.Hex
import Nmos6502.Opcode
import Nmos6502.Trap

/-!
The records that a session writes about what it does. Every legal instruction leaves one
record before it is executed and the extension opcode may leave a second one; a trap leaves
one in place of both.
-/

namespace Nmos6502

inductive LogLevel where
  | error
  | warn
  | debug
  | trace
  deriving DecidableEq, Repr

def LogLevel.name : LogLevel → String
  | .error => "ERROR"
  | .warn => "WARN"
  | .debug => "DEBUG"
  | .trace => "TRACE"

inductive LogRecord where
  /-- An instruction fetched from `address` is about to be executed. -/
  | executing (address : Word) (opcode : Byte)
  | halting (trap : Trap)
  /-- The extension instruction at `address` switched tracing. -/
  | traceSwitched (on : Bool) (address : Word)
  | stopRequested (operation : Byte)
  /-- No handler was attached to answer the extension instruction at `address`. -/
  | unanswered (operation : Byte) (address : Word)
  deriving DecidableEq, Repr

namespace LogRecord

def level : LogRecord → LogLevel
  | .executing _ _ => .trace
  | .halting _ => .error
  | .traceSwitched _ _ => .debug
  | .stopRequested _ => .debug
  | .unanswered _ _ => .warn

def text : LogRecord → String
  | .executing address opcode =>
      Hex.word address ++ "  " ++ Hex.byte opcode ++ "  " ++ (Instruction.decode opcode).spelling
  | .halting trap => trap.message ++ ", halting"
  | .traceSwitched on address =>
      "trace " ++ (if on then "on" else "off") ++ " at " ++ Hex.word address
  | .stopRequested operation => "host requested stop after extension op " ++ Hex.byte operation
  | .unanswered operation address =>
      "extension op " ++ Hex.byte operation ++ " at " ++ Hex.word address ++
        " with no handler attached"

def line (entry : LogRecord) : String := entry.level.name ++ " " ++ entry.text

end LogRecord

end Nmos6502
