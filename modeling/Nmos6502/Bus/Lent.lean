import Nmos6502.Bus

/-!
Memory lent to a session by a host that keeps it. Only byte reads and writes are passed on,
so two-byte reads of the lender are not used.
-/

namespace Nmos6502

structure Lent (M : Type) where
  lender : M

instance {M : Type} [Bus M] : Bus (Lent M) where
  read address := fun lent => Prod.map id Lent.mk (Bus.read address lent.lender)
  write address value := fun lent => Prod.map id Lent.mk (Bus.write address value lent.lender)

end Nmos6502
