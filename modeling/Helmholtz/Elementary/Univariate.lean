import Helmholtz.Polynomial.Univariate

/-! Elementary functions of one variable, with their derivatives. A derivative is formed from the
value, or from the lower derivative, where that is cheaper; arguments outside the domain are not
guarded, so that what division, logarithm and power make of them is passed on. -/

namespace Helmholtz

/-- An elementary function of one variable. -/
inductive Elementary1 (α : Type u) where
  /-- The variable itself. -/
  | identity
  /-- `a + b * x` -/
  | linear (a b : α)
  /-- `x` to the power `p` -/
  | power (p : α)
  /-- `1 / x` -/
  | inverse
  /-- The exponential function of `p * x`. -/
  | exponential (p : α)
  /-- The natural logarithm. -/
  | log
  | polynomial (p : Polynomial1 α)

namespace Elementary1
variable {α : Type u} [Zero α] [One α] [Add α] [Sub α] [Mul α] [Neg α] [Div α] [NatCast α]
  [Transcendental α]

/-- The jet of `x` to the power `p`. -/
def evalPower (p x : α) (o : Order) : Jet1 α :=
  let f := pow x p
  let fx := if o.hasFirst then p * f / x else 0
  ⟨f, fx, if o.hasSecond then (p - 1) * fx / x else 0⟩

/-- The jet of `1 / x`. -/
def evalInverse (x : α) (o : Order) : Jet1 α :=
  let f := 1 / x
  let fx := if o.hasFirst then -f / x else 0
  ⟨f, fx, if o.hasSecond then -(2 : Nat) * fx / x else 0⟩

/-- The jet of the exponential function of `p * x`. -/
def evalExponential (p x : α) (o : Order) : Jet1 α :=
  let f := exp (p * x)
  let fx := if o.hasFirst then p * f else 0
  ⟨f, fx, if o.hasSecond then p * fx else 0⟩

/-- The jet of the natural logarithm. -/
def evalLog (x : α) (o : Order) : Jet1 α :=
  let fx := if o.hasFirst then 1 / x else 0
  ⟨Transcendental.log x, fx, if o.hasSecond then -fx / x else 0⟩

def eval (x : α) (o : Order) : Elementary1 α → Jet1 α
  | identity => .identity x o
  | linear a b => ⟨a + b * x, if o.hasFirst then b else 0, 0⟩
  | power p => evalPower p x o
  | inverse => evalInverse x o
  | exponential p => evalExponential p x o
  | log => evalLog x o
  | polynomial p => p.horner x o

end Elementary1
end Helmholtz
