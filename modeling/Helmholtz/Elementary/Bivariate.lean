import Helmholtz.Elementary.Univariate
import Helmholtz.Polynomial.Bivariate

/-! Elementary functions of two variables, with their derivatives. -/

namespace Helmholtz

/-- An elementary function of two variables. -/
inductive Elementary2 (α : Type u) where
  /-- A function of `x` alone. -/
  | ofX (f : Elementary1 α)
  /-- A function of `y` alone. -/
  | ofY (f : Elementary1 α)
  /-- `a + b * x + c * y` -/
  | linear (a b c : α)
  /-- A polynomial that is evaluated power by power. -/
  | polynomial (p : Polynomial2 α)
  /-- A polynomial that is evaluated term by term. -/
  | termwise (p : Polynomial2 α)

namespace Elementary2
variable {α : Type u} [Zero α] [One α] [Add α] [Sub α] [Mul α] [Neg α] [Div α] [NatCast α]
  [Transcendental α]

def eval (x y : α) (o : Order) : Elementary2 α → Jet2 α
  | ofX f => .ofX (f.eval x o)
  | ofY f => .ofY (f.eval y o)
  | linear a b c =>
    ⟨a + b * x + c * y, if o.hasFirst then b else 0, if o.hasFirst then c else 0, 0, 0, 0⟩
  | polynomial p => p.horner x y o
  | termwise p => p.directSum x y o

end Elementary2
end Helmholtz
