import Nmos6502.Word

/-!
Floating-point numbers of 64 bits, as hosts hand them over where a byte is wanted. A number
loses its fraction, is brought into the range of signed integers of 64 bits, and the low
eight bits of what is left are the byte.
-/

namespace Nmos6502

inductive Binary64 where
  | nan
  | infinite (negative : Bool)
  /-- The number `mantissa * 2 ^ exponent`, negated if `negative`. -/
  | finite (negative : Bool) (mantissa : Nat) (exponent : Int)
  deriving DecidableEq, Repr

namespace Binary64

/-- The weight of the bit above the fraction. Numbers of full precision have it set without
storing it. -/
def leadingOne : Nat := 0x10000000000000

/-- One sign bit, eleven bits of exponent and 52 bits of fraction, in this order. The lowest
exponent marks the numbers without a leading one, the highest those that are not finite. -/
def ofBits (bits : UInt64) : Binary64 :=
  let negative := decide (0x8000000000000000 ≤ bits.toNat)
  let biased := bits.toNat / leadingOne % 2048
  let fraction := bits.toNat % leadingOne
  if biased = 2047 then if fraction = 0 then .infinite negative else .nan
  else if biased = 0 then .finite negative fraction (-1074)
  else .finite negative (leadingOne + fraction) ((biased : Int) - 1075)

def lowest : Int := -0x8000000000000000

def highest : Int := 0x7FFFFFFFFFFFFFFF

/-- The integer part of `mantissa * 2 ^ exponent`. -/
def integerPart (mantissa : Nat) : Int → Nat
  | .ofNat exponent => mantissa <<< exponent
  | .negSucc exponent => mantissa >>> (exponent + 1)

/-- The sign is put back after the fraction is gone, so both signs lose it alike. -/
def truncate : Binary64 → Int
  | .nan => 0
  | .infinite negative => if negative then lowest else highest
  | .finite negative mantissa exponent =>
      let magnitude : Int := integerPart mantissa exponent
      max lowest (min highest (if negative then -magnitude else magnitude))

/-- The low eight bits in two's complement. -/
def lowByteOf (value : Int) : Byte := UInt8.ofNat (value % 256).toNat

def toByte (number : Binary64) : Byte := lowByteOf number.truncate

end Binary64

end Nmos6502
