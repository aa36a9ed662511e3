import Helmholtz.Decimal.Shortest

/-! The text of a double: its shortest decimal, laid out positionally or with an exponent. A
`Layout` holds the choices that differ from one kind of text to another. -/

namespace Helmholtz

/-- How the shortest decimal of a double is written. -/
structure Layout where
  /-- Leading positions that are written without an exponent, both ends included; all of them if
  absent. -/
  positional : Option (Int × Int)
  /-- An integer that is written without an exponent ends in `.0`. -/
  pointedIntegers : Bool
  /-- A positive exponent carries its sign. -/
  signedExponent : Bool
  tie : Tie
  /-- The text of what is not a number. -/
  nan : String
  /-- The text of the positive infinity. -/
  infinity : String
  /-- The text of the negative infinity. -/
  negativeInfinity : String

namespace Decimal

/-- The digits of the coefficient. -/
def digits (d : Decimal) : List Char := Nat.toDigits 10 d.coefficient

/-- The position of the leading digit. -/
def position (d : Decimal) : Int := d.exponent + d.digits.length - 1

/-- Digits with the point in its place, filled up with zeros. -/
def positional (d : Decimal) (pointedIntegers : Bool) : List Char :=
  if 0 ≤ d.exponent then
    d.digits ++ List.replicate d.exponent.toNat '0' ++ (if pointedIntegers then ['.', '0'] else [])
  else
    let places := (-d.exponent).toNat
    let padded := List.replicate (places + 1 - d.digits.length) '0' ++ d.digits
    padded.take (padded.length - places) ++ '.' :: padded.drop (padded.length - places)

/-- One digit, the point, the other digits, and the exponent of ten; no point after a single
digit. -/
def scientific (d : Decimal) (signedExponent : Bool) : List Char :=
  let mantissa := match d.digits with
    | [] => []
    | [c] => [c]
    | c :: rest => c :: '.' :: rest
  let sign := if d.position < 0 then ['-'] else if signedExponent then ['+'] else []
  mantissa ++ 'e' :: sign ++ Nat.toDigits 10 d.position.natAbs

end Decimal

namespace Layout

/-- The text of a nonnegative decimal. -/
def writeDecimal (l : Layout) (d : Decimal) : List Char :=
  let inRange := match l.positional with
    | none => true
    | some (first, last) => decide (first ≤ d.position ∧ d.position ≤ last)
  if inRange || d.coefficient == 0 then d.positional l.pointedIntegers
  else d.scientific l.signedExponent

/-- The text of a double. -/
def write (l : Layout) (x : Float) : String :=
  match Binary.ofFloat x with
  | .nan => l.nan
  | .infinite negative => if negative then l.negativeInfinity else l.infinity
  | .finite negative m q =>
    let d := if m = 0 then ⟨0, 0⟩ else Decimal.shortest l.tie m q
    String.ofList ((if negative then ['-'] else []) ++ l.writeDecimal d)

end Layout

/-- A double with `places` digits after the point and an exponent, rounded to even; absent unless
it is finite. -/
def scientificText? (places : Nat) (x : Float) : Option String :=
  match Binary.ofFloat x with
  | .finite negative m q =>
    let d := if m = 0 then ⟨0, 0⟩ else Decimal.rounded .even (places + 1) m q
    let digits := if m = 0 then List.replicate (places + 1) '0' else d.digits
    let position := if m = 0 then 0 else d.position
    let sign := if position < 0 then ['-'] else []
    some (String.ofList ((if negative then ['-'] else []) ++ digits.take 1 ++ '.' :: digits.drop 1 ++
      'e' :: sign ++ Nat.toDigits 10 position.natAbs))
  | _ => none

end Helmholtz
