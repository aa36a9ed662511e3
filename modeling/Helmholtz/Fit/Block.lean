import Helmholtz.Decimal.Binary
import Helmholtz.Elementary.Univariate
import Helmholtz.Polynomial.Bivariate

/-! Blocks of a fit: polynomials in powers of the variables, multiplied by powers of the variables.
A block is read from rows of coefficients. -/

namespace Helmholtz

/-- The function `x^postX * y^postY * p (x^preX) (y^preY)`. -/
structure Block (α : Type u) where
  preX : α
  preY : α
  postX : α
  postY : α
  polynomial : Polynomial2 α

namespace Block
variable {α : Type u} [Zero α] [One α] [Add α] [Sub α] [Mul α] [Neg α] [Div α] [NatCast α]
  [Transcendental α] [BEq α]

/-- The zero function. -/
def zero : Block α := ⟨1, 1, 0, 0, .empty⟩

def isEmpty (b : Block α) : Bool := b.polynomial.isEmpty

/-- The variable itself where the exponent is 1, else its power. -/
def preTransform (v exponent : α) (o : Order) : Jet1 α :=
  if exponent == 1 then .identity v o else Elementary1.evalPower exponent v o

/-- The polynomial in the powers of the variables. -/
def evalPre (b : Block α) (x y : α) (o : Order) : Jet2 α :=
  if b.preX == 1 && b.preY == 1 then b.polynomial.horner x y o
  else
    let g := preTransform x b.preX o
    let h := preTransform y b.preY o
    (b.polynomial.horner g.f h.f o).compose g h o

/-- The value and the derivatives; pre exponents of 1 and post exponents of 0 are passed over. -/
def eval (b : Block α) (x y : α) (o : Order) : Jet2 α :=
  let p := b.evalPre x y o
  let p := if b.postX != 0 then p.product (.ofX (Elementary1.evalPower b.postX x o)) o else p
  if b.postY != 0 then p.product (.ofY (Elementary1.evalPower b.postY y o)) o else p

end Block

/-- Scalars of which some stand for the exponents of a polynomial. -/
class ReadsExponent (α : Type u) where
  /-- The scalar as a natural number below `2 ^ 32`, if it is one. -/
  exponent? : α → Option UInt32

instance : ReadsExponent Float where
  exponent? v := (Binary.ofFloat v).toNat?.bind fun n =>
    if n < Nat.pow 2 32 then some (.ofNat n) else none

/-- The first two rows of a block. -/
inductive ExponentRow where
  | pre
  | post
  deriving DecidableEq

def ExponentRow.name : ExponentRow → String
  | pre => "pre"
  | post => "post"

/-- What is wrong with the rows of a block. -/
inductive BlockFault (α : Type u) where
  | missing (which : ExponentRow)
  /-- A row of exponents that does not have two entries. -/
  | notPair (which : ExponentRow) (row : List α)
  /-- A row of a term that does not have three entries. -/
  | notTerm (row : List α)
  /-- A row of a term in which an exponent is no natural number below `2 ^ 32`. -/
  | notExponent (row : List α)
  | unsorted (terms : UnsortedTerms)
  deriving DecidableEq

namespace Block
variable {α : Type u} [ReadsExponent α]

/-- The pair of exponents in the first row, and the other rows. -/
def takePair? (which : ExponentRow) : List (List α) → Except (BlockFault α) (α × α × List (List α))
  | [] => .error (.missing which)
  | [a, b] :: rest => .ok (a, b, rest)
  | row :: _ => .error (.notPair which row)

/-- The term of a row. -/
def term? (row : List α) : Except (BlockFault α) (Monomial2 α) :=
  match row with
  | [i, j, c] =>
    match ReadsExponent.exponent? i, ReadsExponent.exponent? j with
    | some i, some j => .ok ⟨⟨i, j⟩, c⟩
    | _, _ => .error (.notExponent row)
  | _ => .error (.notTerm row)

/-- Reads the pre exponents, the post exponents, and one term from each further row. -/
def ofRows? (rows : List (List α)) : Except (BlockFault α) (Block α) := do
  let (preX, preY, rows) ← takePair? .pre rows
  let (postX, postY, rows) ← takePair? .post rows
  let terms ← rows.mapM term?
  let p ← (Polynomial2.ofTerms? terms).mapError .unsorted
  .ok ⟨preX, preY, postX, postY, p⟩

end Block
end Helmholtz
