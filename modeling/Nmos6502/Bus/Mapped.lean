import Nmos6502.Bus.Flat

/-!
Memory behind an address decoder. Address lines outside `mask` are not connected, writes
from `romStart` upwards have no effect, and reading `counterAddress` yields a counter that
every such read advances. Counter and ROM are decoded from the full address, and a write to
the counter goes to the memory cell behind it.
-/

namespace Nmos6502

structure MappedMemory where
  mask : Word := 0xFFFF
  romStart : Option Word := none
  counterAddress : Option Word := none
  counter : Byte := 0
  memory : FlatMemory

namespace MappedMemory

def writable (mapped : MappedMemory) (address : Word) : Bool :=
  match mapped.romStart with
  | none => true
  | some start => address < start

instance : Bus MappedMemory where
  read address := fun mapped =>
    if mapped.counterAddress = some address then
      (mapped.counter, { mapped with counter := mapped.counter + 1 })
    else (mapped.memory.get (address &&& mapped.mask), mapped)
  write address value := fun mapped =>
    if mapped.writable address then
      ((), { mapped with memory := mapped.memory.set (address &&& mapped.mask) value })
    else ((), mapped)

end MappedMemory

end Nmos6502
