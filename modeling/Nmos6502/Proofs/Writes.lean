import Mathlib.Data.List.Induction
import Mathlib.Order.Bounds.Basic
import Nmos6502.Bus.Flat

/-!
Bytes written to memory one after the other. Where several of them go to one cell, the last one
stays, and a cell that none goes to keeps its byte.
-/

namespace Nmos6502.FlatMemory

/-- The byte with this index goes to `cells index`. -/
def setAll (memory : FlatMemory) (cells : Nat → Word) : List Byte → FlatMemory
  | [] => memory
  | byte :: rest => (memory.set (cells 0) byte).setAll (fun index => cells (index + 1)) rest

theorem set_all_snoc (memory : FlatMemory) (cells : Nat → Word) (bytes : List Byte)
    (last : Byte) :
    memory.setAll cells (bytes ++ [last]) =
      (memory.setAll cells bytes).set (cells bytes.length) last := by
  induction bytes generalizing memory cells with
  | nil => rfl
  | cons byte rest induction =>
      rw [List.cons_append, setAll, setAll, List.length_cons]
      exact induction (memory.set (cells 0) byte) (fun index => cells (index + 1))

/-- The indices below `length` of the bytes that go to the address. -/
def indicesAt (cells : Nat → Word) (length : Nat) (address : Word) : Set Nat :=
  {index | index < length ∧ cells index = address}

theorem indices_at_succ_of_here {cells : Nat → Word} {length : Nat} {address : Word}
    (here : cells length = address) :
    indicesAt cells (length + 1) address = insert length (indicesAt cells length address) := by
  ext index
  simp only [indicesAt, Set.mem_ofPred_eq, Set.mem_insert_iff]
  constructor
  · rintro ⟨below, there⟩
    by_cases last : index = length
    · exact Or.inl last
    · exact Or.inr ⟨by omega, there⟩
  · rintro (rfl | ⟨below, there⟩)
    · exact ⟨Nat.lt_succ_self index, here⟩
    · exact ⟨Nat.lt_succ_of_lt below, there⟩

theorem indices_at_succ_of_elsewhere {cells : Nat → Word} {length : Nat} {address : Word}
    (elsewhere : cells length ≠ address) :
    indicesAt cells (length + 1) address = indicesAt cells length address := by
  ext index
  simp only [indicesAt, Set.mem_ofPred_eq]
  constructor
  · rintro ⟨below, there⟩
    have notLast : index ≠ length := by
      rintro rfl
      exact elsewhere there
    exact ⟨by omega, there⟩
  · rintro ⟨below, there⟩
    exact ⟨Nat.lt_succ_of_lt below, there⟩

/-- The byte with the largest index among those that go to the address is the one that is there in
the end. The induction takes bytes off the end of the list, since the last byte is written over all
others. -/
theorem get_set_all (memory : FlatMemory) (cells : Nat → Word) (bytes : List Byte)
    (address : Word) :
    (∃ index, IsGreatest (indicesAt cells bytes.length address) index ∧
      bytes[index]? = some ((memory.setAll cells bytes).get address)) ∨
    (indicesAt cells bytes.length address = ∅ ∧
      (memory.setAll cells bytes).get address = memory.get address) := by
  induction bytes using List.reverseRecOn with
  | nil =>
      right
      constructor
      · ext index
        simp [indicesAt]
      · rfl
  | append_singleton bytes last induction =>
      have length : (bytes ++ [last]).length = bytes.length + 1 := List.length_append
      rw [length, set_all_snoc]
      by_cases here : cells bytes.length = address
      · left
        refine ⟨bytes.length, ?_, ?_⟩
        · rw [indices_at_succ_of_here here]
          refine ⟨Set.mem_insert _ _, ?_⟩
          rintro index (rfl | ⟨below, -⟩)
          · exact Nat.le_refl _
          · exact Nat.le_of_lt below
        · rw [here, get_set_same, List.getElem?_concat_length]
      · rw [indices_at_succ_of_elsewhere here, get_set_other _ _ here]
        rcases induction with ⟨index, greatest, written⟩ | kept
        · left
          refine ⟨index, greatest, ?_⟩
          rw [List.getElem?_append_left greatest.1.1, written]
        · right
          exact kept

end Nmos6502.FlatMemory
