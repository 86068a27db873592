/-! Finite IEEE 754 binary64 numbers, held as their 64 bits.
Equality is equality of bits, so the two zeros differ. A decimal literal is read
in two roundings: its significand to a binary64 number, then the product or
quotient by one power of ten. -/

namespace Roster

structure Binary64 where
  bits : UInt64
  finite : bits >>> 52 &&& 0x7ff ≠ 0x7ff
  deriving DecidableEq

namespace Binary64

def one : Binary64 := ⟨0x3ff0000000000000, by decide⟩

def ofFloat? (x : Float) : Option Binary64 :=
  if h : x.toBits >>> 52 &&& 0x7ff ≠ 0x7ff then some ⟨x.toBits, h⟩ else none

def ofInt? (n : Int) : Option Binary64 := ofFloat? (Float.ofInt n)

/-- Multiply by ten to the power `exponent`. Powers beyond `10 ^ 308` upward leave
the finite range unless the number is zero; downward they are taken in steps. -/
def scaleTen? (x : Float) (exponent : Int) : Option Binary64 :=
  if exponent < -308 then
    if x == 0 then ofFloat? x
    else scaleTen? (x / Float.ofScientific 1 false 308) (exponent + 308)
  else if exponent < 0 then ofFloat? (x / Float.ofScientific 1 false exponent.natAbs)
  else if exponent ≤ 308 then ofFloat? (x * Float.ofScientific 1 false exponent.natAbs)
  else if x == 0 then ofFloat? x
  else none
termination_by exponent.natAbs

def ofDecimal? (negative : Bool) (significand : Nat) (exponent : Int) : Option Binary64 :=
  (scaleTen? (Float.ofNat significand) exponent).bind fun x =>
    if negative then ofFloat? (-Float.ofBits x.bits) else some x

end Binary64

end Roster
