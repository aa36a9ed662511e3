import Helmholtz.Jet.Univariate
import Helmholtz.Polynomial.Terms

/-! Sparse polynomials in one variable. -/

namespace Helmholtz

/-- The term `coefficient * x ^ exponent`. -/
structure Monomial1 (α : Type u) where
  exponent : UInt32
  coefficient : α
  deriving DecidableEq

/-- The sum of its terms, which stand in strictly descending order of the exponents. -/
structure Polynomial1 (α : Type u) where
  terms : List (Monomial1 α)
  descending : Descending (terms.map (·.exponent))

namespace Polynomial1
variable {α : Type u}

def ofTerms? (terms : List (Monomial1 α)) : Except UnsortedTerms (Polynomial1 α) :=
  match h : firstUnsorted? (terms.map (·.exponent)) with
  | none => .ok ⟨terms, descending_of_firstUnsorted? UInt32.lt_trans h⟩
  | some (a, b) => .error (.univariate a b)

def isEmpty (p : Polynomial1 α) : Bool := p.terms.isEmpty

/-- The largest exponent; absent without terms. -/
def degree? (p : Polynomial1 α) : Option UInt32 := p.terms.head?.map (·.exponent)

variable [Zero α] [One α] [Add α] [Sub α] [Mul α] [Div α] [NatCast α]

/-- From `p` to `c + x * p`, with the derivatives; each is formed from lower ones that have not
changed yet. -/
def hornerStep (x : α) (o : Order) (p : Jet1 α) (c : α) : Jet1 α where
  f := c + x * p.f
  fx := if o.hasFirst then p.f + x * p.fx else p.fx
  fxx := if o.hasSecond then (2 : Nat) * p.fx + x * p.fxx else p.fxx

/-- Steps through the powers below `n`, the highest first; a power that is not listed has a zero
coefficient. -/
def hornerFrom (x : α) (o : Order) : (n : Nat) → List (Monomial1 α) → Jet1 α → Jet1 α
  | 0, _, p => p
  | n + 1, terms, p =>
    let (t, rest) := popIf (·.exponent.toNat == n) terms
    hornerFrom x o n rest (hornerStep x o p (t.elim 0 (·.coefficient)))

/-- Evaluation with one step for every power up to the degree. -/
def horner (p : Polynomial1 α) (x : α) (o : Order) : Jet1 α :=
  match p.degree? with
  | none => .zero
  | some n => hornerFrom x o (n.toNat + 1) p.terms .zero

/-- Adds one term to a sum of terms. -/
def addTerm (x : α) (o : Order) (p : Jet1 α) (t : Monomial1 α) : Jet1 α :=
  let n : α := t.exponent.toNat
  let c := t.coefficient
  let power (k : Int32) := intPow x (loweredExponent t.exponent k)
  { f := p.f + c * power 0
    fx := if o.hasFirst ∧ 0 < t.exponent then p.fx + n * c * power 1 else p.fx
    fxx := if o.hasSecond ∧ 1 < t.exponent then p.fxx + n * (n - 1) * c * power 2 else p.fxx }

/-- Evaluation as the sum of the listed terms. -/
def directSum (p : Polynomial1 α) (x : α) (o : Order) : Jet1 α :=
  p.terms.foldl (addTerm x o) .zero

end Polynomial1
end Helmholtz
