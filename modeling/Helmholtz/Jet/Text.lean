import Helmholtz.Jet.Bivariate
import Helmholtz.Text

/-! The text of a value with its derivatives. -/

namespace Helmholtz

def Jet1.toText (a : Jet1 Float) : String :=
  s!"(f={plainText a.f}, fx={plainText a.fx}, fxx={plainText a.fxx})"

def Jet2.toText (a : Jet2 Float) : String :=
  s!"(f={plainText a.f}, fx={plainText a.fx}, fy={plainText a.fy}, fxx={plainText a.fxx}, " ++
    s!"fxy={plainText a.fxy}, fyy={plainText a.fyy})"

end Helmholtz
