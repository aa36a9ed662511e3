import Helmholtz.Elementary.Bivariate
import Helmholtz.Polynomial.Text

/-! The text of an elementary function. -/

namespace Helmholtz

/-- The text with `v` as the name of the variable; a polynomial shows its coefficients only. -/
def Elementary1.toText (v : String) : Elementary1 Float → String
  | identity => v
  | linear a b => s!"{plainText a} + {plainText b}*{v}"
  | power p => s!"{v}^{plainText p}"
  | inverse => s!"1/{v}"
  | exponential p => s!"exp({plainText p}*{v})"
  | log => s!"ln({v})"
  | polynomial p => p.toText

def Elementary2.toText : Elementary2 Float → String
  | ofX f => f.toText "x"
  | ofY f => f.toText "y"
  | linear a b c => s!"{plainText a} + {plainText b}*x + {plainText c}*y"
  | polynomial p => p.toText
  | termwise p => p.toText

end Helmholtz
