/-! The exact value of a double, taken from its bits. -/

namespace Helmholtz

/-- A double as a number: not a number, an infinity, or `± mantissa * 2 ^ exponent`. A zero has
mantissa 0 and keeps its sign. -/
inductive Binary where
  | nan
  | infinite (negative : Bool)
  | finite (negative : Bool) (mantissa : Nat) (exponent : Int)
  deriving DecidableEq

namespace Binary

/-- The exponent of the smallest positive double, and of all with a leading zero bit. -/
def minExponent : Int := -1074

/-- Sign, eleven bits of biased exponent and 52 bits of fraction. -/
def ofBits (bits : Nat) : Binary :=
  let negative := decide (bits / Nat.pow 2 63 % 2 = 1)
  let biased : Nat := bits / Nat.pow 2 52 % Nat.pow 2 11
  let fraction := bits % Nat.pow 2 52
  if biased = Nat.pow 2 11 - 1 then
    if fraction = 0 then infinite negative else nan
  else if biased = 0 then
    finite negative fraction minExponent
  else
    finite negative (Nat.pow 2 52 + fraction) ((biased : Int) - 1 + minExponent)

def ofFloat (x : Float) : Binary := ofBits x.toBits.toNat

/-- The number as a natural number, if it is one; either zero is 0. -/
def toNat? : Binary → Option Nat
  | finite negative m e =>
    if m = 0 then some 0
    else if negative then none
    else if 0 ≤ e then some (m * Nat.pow 2 e.toNat)
    else if m % Nat.pow 2 (-e).toNat = 0 then some (m / Nat.pow 2 (-e).toNat)
    else none
  | _ => none

end Binary
end Helmholtz
