import Nmos6502.Bus.Recorded

/-!
Accesses to a bus that records them. The recorded bus is arbitrary, so what is said here about
the record holds whatever reads and writes do behind it.
-/

namespace Nmos6502

variable {M : Type} [Bus M]

/-- The accesses, made in this order on the bus `before`, get the listed answers and end in the
bus `after`. -/
def Answered : List Access → M → M → Prop
  | [], before, after => after = before
  | .read address value :: rest, before, after =>
      (Bus.read address before).1 = value ∧ Answered rest (Bus.read address before).2 after
  | .write address value :: rest, before, after =>
      Answered rest (Bus.write address value before).2 after

theorem answered_append {first second : List Access} {before middle after : M}
    (left : Answered first before middle) (right : Answered second middle after) :
    Answered (first ++ second) before after := by
  induction first generalizing before with
  | nil =>
      have same : middle = before := left
      rw [← same]
      exact right
  | cons access rest induction =>
      cases access with
      | read address value => exact ⟨left.1, induction left.2⟩
      | write address value => exact induction left

namespace Recorded

/-- The record grows by exactly these accesses, and they are what the recorded bus went
through. -/
structure Extends (before : Recorded M) (accesses : List Access) (after : Recorded M) : Prop where
  record : after.accesses.toList = before.accesses.toList ++ accesses
  answered : Answered accesses before.recorded after.recorded

namespace Extends

theorem refl (bus : Recorded M) : Extends bus [] bus :=
  ⟨(List.append_nil _).symm, rfl⟩

theorem append {before middle after : Recorded M} {first second : List Access}
    (left : Extends before first middle) (right : Extends middle second after) :
    Extends before (first ++ second) after := by
  refine ⟨?_, answered_append left.answered right.answered⟩
  rw [right.record, left.record, List.append_assoc]

end Extends

theorem read_extends (bus : Recorded M) (address : Word) :
    Extends bus [.read address (Bus.read address bus).1] (Bus.read address bus).2 :=
  ⟨Array.toList_push, rfl, rfl⟩

theorem write_extends (bus : Recorded M) (address : Word) (value : Byte) :
    Extends bus [.write address value] (Bus.write address value bus).2 :=
  ⟨Array.toList_push, rfl⟩

end Recorded

end Nmos6502
