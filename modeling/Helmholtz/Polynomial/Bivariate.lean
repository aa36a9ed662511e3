import Helmholtz.Jet.Bivariate
import Helmholtz.Polynomial.Univariate

/-! Sparse polynomials in two variables. -/

namespace Helmholtz

/-- The term `coefficient * x ^ exponents.x * y ^ exponents.y`. -/
structure Monomial2 (α : Type u) where
  exponents : Exponents
  coefficient : α
  deriving DecidableEq

/-- The sum of its terms, which stand in strictly descending order of the exponents. -/
structure Polynomial2 (α : Type u) where
  terms : List (Monomial2 α)
  descending : Descending (terms.map (·.exponents))

namespace Polynomial2
variable {α : Type u}

def ofTerms? (terms : List (Monomial2 α)) : Except UnsortedTerms (Polynomial2 α) :=
  match h : firstUnsorted? (terms.map (·.exponents)) with
  | none => .ok ⟨terms, descending_of_firstUnsorted? Exponents.lt_trans h⟩
  | some (a, b) => .error (.bivariate a b)

/-- The polynomial without terms. -/
def empty : Polynomial2 α := ⟨[], .nil⟩

def isEmpty (p : Polynomial2 α) : Bool := p.terms.isEmpty

/-- The largest exponent of `x`; absent without terms. -/
def degreeX? (p : Polynomial2 α) : Option UInt32 := p.terms.head?.map (·.exponents.x)

variable [Zero α] [One α] [Add α] [Sub α] [Mul α] [Div α] [NatCast α]

/-- The polynomial in `y` that goes with `x ^ i`: steps through the powers of `y` below `n`, the
highest first, and returns the terms that are left over. -/
def innerFrom (y : α) (o : Order) (i : Nat) :
    (n : Nat) → List (Monomial2 α) → Jet1 α → Jet1 α × List (Monomial2 α)
  | 0, terms, q => (q, terms)
  | n + 1, terms, q =>
    let (t, rest) :=
      popIf (fun t => t.exponents.x.toNat == i && t.exponents.y.toNat == n) terms
    innerFrom y o i n rest (Polynomial1.hornerStep y o q (t.elim 0 (·.coefficient)))

/-- The polynomial in `y` that goes with `x ^ i`, which is zero if the next term has another power
of `x`, and the terms that are left over. -/
def inner (y : α) (o : Order) (i : Nat) (terms : List (Monomial2 α)) :
    Jet1 α × List (Monomial2 α) :=
  match terms.head?.filter (·.exponents.x.toNat == i) with
  | some t => innerFrom y o i (t.exponents.y.toNat + 1) terms .zero
  | none => (.zero, terms)

/-- From `p` to `q + x * p`, where `q` depends on `y` alone, with the derivatives; each is formed
from lower ones that have not changed yet. -/
def hornerStep (x : α) (o : Order) (p : Jet2 α) (q : Jet1 α) : Jet2 α where
  f := q.f + x * p.f
  fx := if o.hasFirst then p.f + x * p.fx else p.fx
  fy := if o.hasFirst then q.fx + x * p.fy else p.fy
  fxx := if o.hasSecond then (2 : Nat) * p.fx + x * p.fxx else p.fxx
  fxy := if o.hasSecond then p.fy + x * p.fxy else p.fxy
  fyy := if o.hasSecond then q.fxx + x * p.fyy else p.fyy

/-- Steps through the powers of `x` below `n`, the highest first. -/
def hornerFrom (x y : α) (o : Order) : (n : Nat) → List (Monomial2 α) → Jet2 α → Jet2 α
  | 0, _, p => p
  | n + 1, terms, p =>
    let (q, rest) := inner y o n terms
    hornerFrom x y o n rest (hornerStep x o p q)

/-- Evaluation with one step for every power of `x` up to the degree and, for those that are
listed, one step for every power of `y`. -/
def horner (p : Polynomial2 α) (x y : α) (o : Order) : Jet2 α :=
  match p.degreeX? with
  | none => .zero
  | some n => hornerFrom x y o (n.toNat + 1) p.terms .zero

/-- Adds one term to a sum of terms. -/
def addTerm (x y : α) (o : Order) (p : Jet2 α) (t : Monomial2 α) : Jet2 α :=
  let i : α := t.exponents.x.toNat
  let j : α := t.exponents.y.toNat
  let c := t.coefficient
  let px (k : Int32) := intPow x (loweredExponent t.exponents.x k)
  let py (k : Int32) := intPow y (loweredExponent t.exponents.y k)
  let hasX := decide (0 < t.exponents.x)
  let hasY := decide (0 < t.exponents.y)
  { f := p.f + c * px 0 * py 0
    fx := if o.hasFirst && hasX then p.fx + i * c * px 1 * py 0 else p.fx
    fy := if o.hasFirst && hasY then p.fy + j * c * px 0 * py 1 else p.fy
    fxx :=
      if o.hasSecond && 1 < t.exponents.x then p.fxx + i * (i - 1) * c * px 2 * py 0 else p.fxx
    fxy := if o.hasSecond && hasX && hasY then p.fxy + i * j * c * px 1 * py 1 else p.fxy
    fyy :=
      if o.hasSecond && 1 < t.exponents.y then p.fyy + j * (j - 1) * c * px 0 * py 2 else p.fyy }

/-- Evaluation as the sum of the listed terms. -/
def directSum (p : Polynomial2 α) (x y : α) (o : Order) : Jet2 α :=
  p.terms.foldl (addTerm x y o) .zero

end Polynomial2
end Helmholtz
