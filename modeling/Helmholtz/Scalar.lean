/-! Arithmetic of the scalars in which everything is evaluated.

Evaluators ask only for the operations they use: the ring operations, negation, division, casts
from the integers, and the three functions of `Transcendental`. No law is assumed, so the same
definitions run on `Float` and are reasoned about in any ring or field. -/

namespace Helmholtz

/-- The functions that are not built from the four operations. -/
class Transcendental (α : Type u) where
  /-- The exponential function. -/
  exp : α → α
  /-- The natural logarithm. -/
  log : α → α
  /-- `pow v p` is `v` raised to the scalar exponent `p`. -/
  pow : α → α → α

export Transcendental (exp log pow)

section Powers
variable {α : Type u} [One α] [Mul α] [Div α]

/-- One step per binary digit of `n`, from the lowest: `r` collects the powers `x ^ 2 ^ i` whose
digit is set, and `x` is squared from one digit to the next. -/
def powBySquaring (x r : α) (n : Nat) : α :=
  let r := if n % 2 = 1 then r * x else r
  if n / 2 = 0 then r else powBySquaring (x * x) r (n / 2)
termination_by n
decreasing_by omega

/-- An integer power; a negative exponent takes the reciprocal of the whole power. -/
def intPow (x : α) (n : Int32) : α :=
  let r := powBySquaring x 1 n.toInt.natAbs
  if n < 0 then 1 / r else r

end Powers

instance instNatCastFloat : NatCast Float := ⟨Float.ofNat⟩

instance instIntCastFloat : IntCast Float := ⟨Float.ofInt⟩

instance : Transcendental Float := ⟨Float.exp, Float.log, Float.pow⟩

end Helmholtz
