import Helmholtz.Decimal.Layout

/-! How numbers stand in the descriptions of polynomials, expressions, blocks and fits. -/

namespace Helmholtz

/-- A number in a description: never an exponent, no point in an integer. -/
def Layout.plain : Layout where
  positional := none
  pointedIntegers := false
  signedExponent := false
  tie := .up
  nan := "NaN"
  infinity := "inf"
  negativeInfinity := "-inf"

/-- A number in a row of coefficients: it keeps its point, and from `1e16` upwards and below `1e-4`
it has an exponent. -/
def Layout.pointed : Layout where
  positional := some (-4, 15)
  pointedIntegers := true
  signedExponent := false
  tie := .up
  nan := "NaN"
  infinity := "inf"
  negativeInfinity := "-inf"

/-- A number in a description. -/
def plainText (x : Float) : String := Layout.plain.write x

/-- A row of coefficients in brackets. -/
def rowText (row : List Float) : String :=
  "[" ++ ", ".intercalate (row.map Layout.pointed.write) ++ "]"

end Helmholtz
