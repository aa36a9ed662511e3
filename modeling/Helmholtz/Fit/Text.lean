import Helmholtz.Fit.Basic
import Helmholtz.Polynomial.Text

/-! The text of blocks, fits, and what is wrong with them. -/

namespace Helmholtz

def Block.toText (b : Block Float) : String :=
  s!"TransformedPolynomial(pre={rowText [b.preX, b.preY]}, post={rowText [b.postX, b.postY]}, " ++
    b.polynomial.toText ++ ")"

def WeightedBlock.toText (b : WeightedBlock Float) : String := s!"{b.k.toInt}:{b.block.toText}"

def Fit.toText (m : Fit Float) : String :=
  s!"Mp1({m.identifier.toText}, mw={plainText m.molarWeight}, tc={plainText m.tc}, " ++
    s!"dc={plainText m.dc}, r={plainText m.r}, weighted_groups={m.residual.weighted.length})"

/-- The text of a fault of the rows. -/
def malformedBlockText (reason : String) : String := "Malformed coefficient block: " ++ reason

def BlockFault.message : BlockFault Float → String
  | missing which => malformedBlockText s!"missing the {which.name} exponent row"
  | notPair which row =>
    malformedBlockText s!"expected [{which.name}x, {which.name}y], got {rowText row}"
  | notTerm row => malformedBlockText s!"expected [i, j, c], got {rowText row}"
  | notExponent row =>
    malformedBlockText s!"exponents must be non-negative integers, got row {rowText row}"
  | unsorted e => e.message

end Helmholtz
