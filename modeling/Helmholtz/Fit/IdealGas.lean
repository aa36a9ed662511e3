import Helmholtz.Jet.Bivariate

/-! The ideal gas part of the reduced Helmholtz energy, as a function of the reduced inverse
temperature `tt` and the reduced density `dd`. -/

namespace Helmholtz

/-- The coefficients of `c0 + c1 tt + c2 ln tt + c3 tt^(-1/2) + c4 tt^(-3/4) + ln dd`. -/
structure IdealGas (α : Type u) where
  c0 : α
  c1 : α
  c2 : α
  c3 : α
  c4 : α
  deriving DecidableEq

namespace IdealGas
variable {α : Type u} [Zero α] [One α] [Add α] [Sub α] [Mul α] [Neg α] [Div α] [NatCast α]
  [Transcendental α]

/-- The coefficients from the first to the last. -/
def toList (g : IdealGas α) : List α := [g.c0, g.c1, g.c2, g.c3, g.c4]

/-- The value and the derivatives; the mixed one is zero. The first derivatives of both powers are
reused in the second ones. -/
def eval (g : IdealGas α) (tt dd : α) (o : Order) : Jet2 α :=
  let quarters (n : Nat) : α := (n : α) / (4 : Nat)
  let halves (n : Nat) : α := (n : α) / (2 : Nat)
  let t75 := g.c4 * pow tt (-quarters 3)
  let t50 := g.c3 * pow tt (-halves 1)
  let t75x := -quarters 3 * t75 / tt
  let t50x := -halves 1 * t50 / tt
  let t2 := g.c2 / tt
  let fy := 1 / dd
  { f := g.c0 + g.c1 * tt + g.c2 * log tt + log dd + (t75 + t50)
    fx := if o.hasFirst then t75x + t50x + g.c1 + t2 else 0
    fy := if o.hasFirst then fy else 0
    fxx := if o.hasSecond then -quarters 7 * t75x / tt - halves 3 * t50x / tt - t2 / tt else 0
    fxy := 0
    fyy := if o.hasSecond then -fy / dd else 0 }

end IdealGas
end Helmholtz
