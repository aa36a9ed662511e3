import Helmholtz.Polynomial.Bivariate
import Helmholtz.Text

/-! The text of a polynomial: its exponents and coefficients in rows. -/

namespace Helmholtz

def Monomial1.toText (t : Monomial1 Float) : String :=
  s!"[{t.exponent.toNat}, {plainText t.coefficient}]"

def Monomial2.toText (t : Monomial2 Float) : String :=
  s!"[{t.exponents.x.toNat}, {t.exponents.y.toNat}, {plainText t.coefficient}]"

def Polynomial1.toText (p : Polynomial1 Float) : String :=
  "SparsePolynomial1([" ++ ", ".intercalate (p.terms.map (·.toText)) ++ "])"

def Polynomial2.toText (p : Polynomial2 Float) : String :=
  "SparsePolynomial2([" ++ ", ".intercalate (p.terms.map (·.toText)) ++ "])"

end Helmholtz
