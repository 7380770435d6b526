import Nmos6502.Hex

/-!
Why a session comes to an end. The message of a trap determines the trap.
-/

namespace Nmos6502

inductive Trap where
  /-- No instruction is defined for the byte that was fetched from `address`. -/
  | illegalOpcode (opcode : Byte) (address : Word)
  deriving DecidableEq, Repr

namespace Trap

def message : Trap → String
  | .illegalOpcode opcode address =>
      "illegal opcode 0x" ++ Hex.byte opcode ++ " at 0x" ++ Hex.word address

theorem message_to_list (opcode : Byte) (address : Word) :
    (message (.illegalOpcode opcode address)).toList =
      "illegal opcode 0x".toList ++ Hex.byteDigits opcode ++ " at 0x".toList ++
        Hex.wordDigits address := by
  unfold message
  rw [String.toList_append, String.toList_append, String.toList_append, Hex.byte_to_list,
    Hex.word_to_list]

theorem message_injective {left right : Trap} (same : left.message = right.message) :
    left = right := by
  obtain ⟨leftOpcode, leftAddress⟩ := left
  obtain ⟨rightOpcode, rightAddress⟩ := right
  have digits := congrArg String.toList same
  rw [message_to_list, message_to_list] at digits
  have outer := List.append_inj' digits rfl
  have inner := List.append_inj' (List.append_cancel_right outer.1) rfl
  rw [Hex.byte_digits_injective inner.2, Hex.word_digits_injective outer.2]

end Trap

end Nmos6502
