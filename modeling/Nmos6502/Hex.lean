import Nmos6502.Word

/-!
Upper-case hexadecimal text of fixed width: two digits for a byte, four for a word.
Fixed width makes the text of a value determine the value.
-/

namespace Nmos6502.Hex

/-- Digits above nine continue at `A`, seven places after `9` in the character code. -/
def digit (value : Nat) : Char :=
  if value < 10 then Char.ofNat (48 + value) else Char.ofNat (55 + value)

def byteDigits (byte : Byte) : List Char := [digit (byte.toNat / 16), digit (byte.toNat % 16)]

def wordDigits (word : Word) : List Char :=
  byteDigits (Word.highByte word) ++ byteDigits (Word.lowByte word)

def byte (value : Byte) : String := String.ofList (byteDigits value)

def word (value : Word) : String := String.ofList (wordDigits value)

theorem byte_to_list (value : Byte) : (byte value).toList = byteDigits value := by
  unfold byte
  exact String.toList_ofList

theorem word_to_list (value : Word) : (word value).toList = wordDigits value := by
  unfold word
  exact String.toList_ofList

theorem digit_injective {left right : Nat} (leftBound : left < 16) (rightBound : right < 16)
    (same : digit left = digit right) : left = right := by
  have separated : ∀ first < 16, ∀ second < 16, digit first = digit second → first = second := by
    decide
  exact separated left leftBound right rightBound same

theorem byte_digits_injective {left right : Byte} (same : byteDigits left = byteDigits right) :
    left = right := by
  have leftBound := left.toNat_lt
  have rightBound := right.toNat_lt
  simp only [byteDigits, List.cons.injEq, and_true] at same
  have high := digit_injective (by omega) (by omega) same.1
  have low := digit_injective (by omega) (by omega) same.2
  exact UInt8.toNat_inj.mp (by omega)

theorem word_digits_injective {left right : Word} (same : wordDigits left = wordDigits right) :
    left = right := by
  have halves := List.append_inj same rfl
  have high := byte_digits_injective halves.1
  have low := byte_digits_injective halves.2
  rw [← Word.of_bytes_low_high left, ← Word.of_bytes_low_high right, high, low]

end Nmos6502.Hex
