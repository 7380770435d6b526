import Nmos6502.Word
import Nmos6502.Hex
import Nmos6502.Flags
import Nmos6502.Bus.Flat
import Nmos6502.Bus.Lent
import Nmos6502.Bus.Recorded
import Nmos6502.Bus.Mapped
import Nmos6502.Opcode
import Nmos6502.Trap
import Nmos6502.Alu
import Nmos6502.Processor.Execute
import Nmos6502.Session.Script
import Nmos6502.Session.Run
import Nmos6502.Session.Call
import Nmos6502.Emulator
import Nmos6502.Binary64
import Nmos6502.Proofs.Execution
import Nmos6502.Proofs.Step
import Nmos6502.Proofs.Trap
import Nmos6502.Proofs.Run
import Nmos6502.Proofs.Address
import Nmos6502.Proofs.Access
import Nmos6502.Proofs.Calls
import Nmos6502.Proofs.Protocol
import Nmos6502.Proofs.CallFrame
import Nmos6502.Proofs.History
import Nmos6502.Proofs.Simulation
import Nmos6502.Proofs.Extension
import Nmos6502.Proofs.Halt
import Nmos6502.Proofs.Tracing
import Nmos6502.Proofs.Congruence
import Nmos6502.Proofs.Monitor
import Nmos6502.Proofs.Replay
import Nmos6502.Proofs.Unread
import Nmos6502.Proofs.Observer
import Nmos6502.Proofs.Restore
import Nmos6502.Proofs.Inert
import Nmos6502.Proofs.JumpPointer
import Nmos6502.Proofs.Log
import Nmos6502.Proofs.Emulator
import Nmos6502.Proofs.Lending
import Nmos6502.Proofs.Columns
import Nmos6502.Proofs.OperandByte
import Nmos6502.Proofs.Arithmetic
import Nmos6502.Proofs.Comparison
import Nmos6502.Proofs.Shifts
import Nmos6502.Proofs.ControlFlow
import Nmos6502.Proofs.Writes
import Nmos6502.Proofs.Loading
import Nmos6502.Proofs.EffectiveAddress
import Nmos6502.Proofs.Footprint
import Nmos6502.Proofs.FlagLaw
import Nmos6502.Proofs.Truncation
import Nmos6502.Proofs.StackRing
