/-! The double nearest to a decimal. -/

namespace Helmholtz

/-- The double nearest to `± coefficient * 10 ^ exponent`, absent if it is infinite. Exponents far
outside the range of doubles are decided without forming the power of ten. -/
def nearestFloat? (negative : Bool) (coefficient : Nat) (exponent : Int) : Option Float :=
  let magnitude : Option Float :=
    if coefficient = 0 then some 0
    else if 400 < exponent then none
    else if exponent + (coefficient.log2 / 3 : Nat) < -400 then some 0
    else
      let x := Float.ofScientific coefficient (decide (exponent < 0)) exponent.natAbs
      if x.isInf then none else some x
  magnitude.map fun x => if negative then -x else x

end Helmholtz
