import Nmos6502.Session.Hooks

/-!
A handler given by a rule for the accumulator and a rule for stopping, which keeps a list
of its calls.
-/

namespace Nmos6502

structure Script where
  respond : Byte → Byte → Byte
  /-- A call with one of these operation bytes asks for a stop. -/
  stopOn : List Byte := []
  /-- From this many calls on, every call asks for a stop. -/
  stopAt : Option Nat := none
  calls : Array (Byte × Byte) := #[]

def Script.wantsStop (script : Script) : Bool :=
  let listed := match script.calls.back? with
    | some (operation, _) => script.stopOn.contains operation
    | none => false
  let reached := match script.stopAt with
    | some count => script.calls.size ≥ count
    | none => false
  listed || reached

instance : ExtensionHandler Script where
  call operation accumulator := fun script =>
    (script.respond operation accumulator,
      { script with calls := script.calls.push (operation, accumulator) })
  stopRequested := Script.wantsStop

end Nmos6502
