import Nmos6502.Bus

/-!
Plain memory: 65536 cells without side effects. A memory is determined by what `get`
says at every address, and each operation is described by one equation on `get`.
-/

namespace Nmos6502

def memorySize : Nat := 65536

theorem Word.within_memory (address : Word) : address.toNat < memorySize := address.toNat_lt

structure FlatMemory where
  cells : Vector Byte memorySize
  deriving DecidableEq

namespace FlatMemory

def blank : FlatMemory := ⟨Vector.replicate memorySize 0⟩

instance : Inhabited FlatMemory := ⟨blank⟩

def ofFn (contents : Word → Byte) : FlatMemory :=
  ⟨Vector.ofFn fun index => contents (UInt16.ofNat index.val)⟩

def get (memory : FlatMemory) (address : Word) : Byte :=
  have within := address.within_memory
  memory.cells[address.toNat]

def set (memory : FlatMemory) (address : Word) (value : Byte) : FlatMemory :=
  ⟨memory.cells.set address.toNat value address.within_memory⟩

/-- Bytes beyond `$FFFF` continue at `$0000`. -/
def load (memory : FlatMemory) (start : Word) : List Byte → FlatMemory
  | [] => memory
  | byte :: rest => (memory.set start byte).load (start + 1) rest

instance : Bus FlatMemory where
  read address := fun memory => (memory.get address, memory)
  write address value := fun memory => ((), memory.set address value)

theorem reads_quietly : Bus.Quiet FlatMemory := fun _ _ => rfl

theorem get_blank (address : Word) : blank.get address = 0 := by
  simp [blank, get]

theorem get_of_fn (contents : Word → Byte) (address : Word) :
    (ofFn contents).get address = contents address := by
  simp [ofFn, get]

theorem get_set (memory : FlatMemory) (written read : Word) (value : Byte) :
    (memory.set written value).get read = if written = read then value else memory.get read := by
  simp only [set, get, Vector.getElem_set, UInt16.toNat_inj]

theorem get_set_same (memory : FlatMemory) (address : Word) (value : Byte) :
    (memory.set address value).get address = value := by
  rw [get_set, if_pos rfl]

theorem get_set_other (memory : FlatMemory) {written read : Word} (value : Byte)
    (apart : written ≠ read) : (memory.set written value).get read = memory.get read := by
  rw [get_set, if_neg apart]

theorem ext_get {left right : FlatMemory} (same : ∀ address, left.get address = right.get address) :
    left = right := by
  rcases left with ⟨leftCells⟩
  rcases right with ⟨rightCells⟩
  congr 1
  apply Vector.ext
  intro index bound
  have cell := same (UInt16.ofNat index)
  simpa only [get, UInt16.toNat_ofNat_of_lt' bound] using cell

end FlatMemory

end Nmos6502
