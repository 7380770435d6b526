import Nmos6502.Proofs.Writes

/-!
Images loaded into memory. An image may be longer than memory: its bytes go around the 65536 cells
as often as it takes, and of the bytes that go to one cell the last one stays. To load an image is
to load its parts one after the other.
-/

namespace Nmos6502

/-- The address of the byte with this index in an image that is loaded from `start` on. -/
def Word.advance (start : Word) (index : Nat) : Word := UInt16.ofNat (start.toNat + index)

namespace Word

theorem advance_eq_add (start : Word) (index : Nat) :
    start.advance index = start + UInt16.ofNat index := by
  rw [advance, UInt16.ofNat_add, UInt16.ofNat_toNat]

theorem advance_zero (start : Word) : start.advance 0 = start := by
  rw [advance, Nat.add_zero, UInt16.ofNat_toNat]

theorem advance_succ (start : Word) (index : Nat) :
    start.advance (index + 1) = (start + 1).advance index := by
  rw [advance_eq_add, advance_eq_add, Nat.add_comm, UInt16.ofNat_add, UInt16.add_assoc]
  rfl

theorem advance_eq_iff (start : Word) (index : Nat) (address : Word) :
    start.advance index = address ↔ (start.toNat + index) % memorySize = address.toNat := by
  rw [advance, ← UInt16.toNat_inj, UInt16.toNat_ofNat']
  rfl

end Word

namespace FlatMemory

/-- The indices below `length` of the bytes that go to the address. -/
def landing (start : Word) (length : Nat) (address : Word) : Set Nat :=
  {index | index < length ∧ (start.toNat + index) % memorySize = address.toNat}

theorem landing_eq_indices (start : Word) (length : Nat) (address : Word) :
    landing start length address = indicesAt start.advance length address := by
  ext index
  simp only [landing, indicesAt, Set.mem_ofPred_eq, Word.advance_eq_iff]

/-- A load writes its bytes one after the other, each to the next address. -/
theorem load_eq_set_all (memory : FlatMemory) (start : Word) (bytes : List Byte) :
    memory.load start bytes = memory.setAll start.advance bytes := by
  induction bytes generalizing memory start with
  | nil => rfl
  | cons byte rest induction =>
      have onward : (fun index => start.advance (index + 1)) = (start + 1).advance := by
        funext index
        exact Word.advance_succ start index
      rw [load, setAll, induction, Word.advance_zero, onward]

theorem load_append (memory : FlatMemory) (start : Word) (first second : List Byte) :
    memory.load start (first ++ second) =
      (memory.load start first).load (start.advance first.length) second := by
  induction first generalizing memory start with
  | nil => rw [List.nil_append, load, List.length_nil, Word.advance_zero]
  | cons byte rest induction =>
      rw [List.cons_append, load, load, List.length_cons, Word.advance_succ]
      exact induction (memory.set start byte) (start + 1)

/-- The byte with the largest index among those that go to the address is the one that is there
after the load. -/
theorem get_load (memory : FlatMemory) (start : Word) (bytes : List Byte) (address : Word) :
    (∃ index, IsGreatest (landing start bytes.length address) index ∧
      bytes[index]? = some ((memory.load start bytes).get address)) ∨
    (landing start bytes.length address = ∅ ∧
      (memory.load start bytes).get address = memory.get address) := by
  rw [load_eq_set_all, landing_eq_indices]
  exact get_set_all memory start.advance bytes address

/-- After an image of any length has been loaded from `start` on, each cell holds the byte with the
largest index among those that go there modulo the size of memory, and the byte that it held before
if none goes there. An image in two parts is loaded part by part, the second from where the first
ends. -/
theorem image_goes_around_memory (memory : FlatMemory) (start : Word) (bytes : List Byte) :
    (∀ address : Word,
      (∃ index,
        IsGreatest
          {index | index < bytes.length ∧ (start.toNat + index) % 65536 = address.toNat} index ∧
        bytes[index]? = some ((memory.load start bytes).get address)) ∨
      ((∀ index < bytes.length, (start.toNat + index) % 65536 ≠ address.toNat) ∧
        (memory.load start bytes).get address = memory.get address)) ∧
    ∀ first second : List Byte, memory.load start (first ++ second) =
      (memory.load start first).load (UInt16.ofNat (start.toNat + first.length)) second := by
  refine ⟨?_, load_append memory start⟩
  intro address
  rcases get_load memory start bytes address with loaded | ⟨untouched, kept⟩
  · left
    exact loaded
  · right
    refine ⟨?_, kept⟩
    intro index below there
    have member : index ∈ landing start bytes.length address := ⟨below, there⟩
    rw [untouched] at member
    exact member

end FlatMemory

end Nmos6502
