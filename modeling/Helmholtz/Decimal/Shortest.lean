import Helmholtz.Decimal.Binary

/-! Decimals for a positive binary number `m * 2 ^ q`: the fewest digits that read back to the same
double, and a fixed number of digits. Everything is compared exactly, in natural numbers. -/

namespace Helmholtz

/-- The number `coefficient * 10 ^ exponent`. -/
structure Decimal where
  coefficient : Nat
  exponent : Int
  deriving DecidableEq

/-- Which of two equally near decimals is taken: the larger one, or the one with an even last
digit. -/
inductive Tie where
  | up
  | even
  deriving DecidableEq

/-- Whether `n + 1` rather than `n` stands for a number at `twice / (2 * unit)`, between both. -/
def Tie.roundsUp (t : Tie) (twice unit n : Nat) : Bool :=
  let half := (2 * n + 1) * unit
  match t with
  | up => decide (half ≤ twice)
  | even => decide (half < twice) || (decide (half = twice) && n % 2 == 1)

namespace Decimal

/-- The ratio of `2 ^ q` to `10 ^ k`, as numerator and denominator. -/
def ratio (q k : Int) : Nat × Nat :=
  (Nat.pow 2 q.toNat * Nat.pow 10 (-k).toNat, Nat.pow 2 (-q).toNat * Nat.pow 10 k.toNat)

/-- `10 ^ k` is at most `m * 2 ^ q`. -/
def powerFits (m : Nat) (q k : Int) : Bool :=
  let (a, b) := ratio q k
  decide (b ≤ m * a)

/-- The position of the leading digit: the greatest `k` with `10 ^ k ≤ m * 2 ^ q`. The number of
binary digits gives it up to one. -/
def leadingPosition (m : Nat) (q : Int) : Int :=
  let guess := ((m.log2 : Int) + q) * 1233 / 4096
  if powerFits m q (guess + 1) then guess + 1
  else if powerFits m q guess then guess
  else guess - 1

/-- The multiple of `10 ^ k` that reads back to the double `m * 2 ^ q` and is nearest to it, if one
reads back. The numbers that do reach half way to the neighbouring doubles, of which the lower one
is twice as near below a power of two; the ends belong to them iff `m` is even. -/
def onGrid? (tie : Tie) (m : Nat) (q k : Int) : Option Nat :=
  let (a, b) := ratio (q - 2) k
  let below := if m = Nat.pow 2 52 ∧ Binary.minExponent < q then 1 else 2
  let low := (4 * m - below) * a
  let high := (4 * m + 2) * a
  let readsBack (n : Nat) : Bool :=
    if m % 2 = 0 then low ≤ n * b ∧ n * b ≤ high else low < n * b ∧ n * b < high
  let n := 4 * m * a / b
  match readsBack n, readsBack (n + 1) with
  | true, true => some (if tie.roundsUp (8 * m * a) b n then n + 1 else n)
  | true, false => some n
  | false, true => some (n + 1)
  | false, false => none

/-- The nearest number of `digits` digits. -/
def rounded (tie : Tie) (digits : Nat) (m : Nat) (q : Int) : Decimal :=
  let k := leadingPosition m q - digits + 1
  let (a, b) := ratio q k
  let n := m * a / b
  let n := if tie.roundsUp (2 * m * a) b n then n + 1 else n
  if n = Nat.pow 10 digits then ⟨Nat.pow 10 (digits - 1), k + 1⟩ else ⟨n, k⟩

/-- Removes trailing zeros of the coefficient, `digits` of them at most. -/
def trimmed (d : Decimal) : (digits : Nat) → Decimal
  | 0 => d
  | n + 1 =>
    if d.coefficient % 10 = 0 ∧ d.coefficient ≠ 0 then
      trimmed ⟨d.coefficient / 10, d.exponent + 1⟩ n
    else d

/-- The fewest digits that read back to the double `m * 2 ^ q`; of those the nearest. Seventeen
digits always read back. -/
def shortest (tie : Tie) (m : Nat) (q : Int) : Decimal :=
  let top := leadingPosition m q
  let found := (List.range 17).findSome? fun (i : Nat) =>
    (onGrid? tie m q (top - i)).map (Decimal.mk · (top - i))
  (found.getD (rounded tie 17 m q)).trimmed 17

end Decimal
end Helmholtz
