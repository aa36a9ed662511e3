import Helmholtz.Fit.Block

/-! The residual part of the reduced Helmholtz energy: a block, and further blocks that are damped
with growing powers of the reduced density. -/

namespace Helmholtz

/-- A block times the exponential function of `-dd ^ k`. -/
structure WeightedBlock (α : Type u) where
  k : Int32
  block : Block α

/-- The sum of a block without weight and of weighted blocks. -/
structure Residual (α : Type u) where
  base : Block α
  weighted : List (WeightedBlock α)

variable {α : Type u}

section Evaluation
variable [Zero α] [One α] [Add α] [Sub α] [Mul α] [Neg α] [Div α] [NatCast α] [IntCast α]
  [Transcendental α] [BEq α]

/-- The weight as a function of the reduced density. Its logarithm has the first derivative
`-k dd^(k-1)`, and the second derivative `-k (k-1) dd^(k-2)`, which is passed over up to `k = 1`. -/
def WeightedBlock.weight (k : Int32) (dd : α) (o : Order) : Jet1 α :=
  let kα : α := (k.toInt : α)
  let e := exp (-intPow dd k)
  let slope := -kα * intPow dd (k - 1)
  let square := slope * slope
  let curvature := if 1 < k then square - kα * (kα - 1) * intPow dd (k - 2) else square
  { f := e
    fx := if o.hasFirst then e * slope else 0
    fxx := if o.hasSecond then e * curvature else 0 }

def WeightedBlock.eval (b : WeightedBlock α) (tt dd : α) (o : Order) : Jet2 α :=
  (b.block.eval tt dd o).product (.ofY (weight b.k dd o)) o

def Residual.eval (r : Residual α) (tt dd : α) (o : Order) : Jet2 α :=
  r.weighted.foldl (fun a b => a + b.eval tt dd o) (r.base.eval tt dd o)

end Evaluation

namespace Residual
variable [ReadsExponent α]

/-- Weighted blocks, the first one with the exponent `k` and each further one with the next. -/
def weightedFrom? (k : Int32) :
    List (List (List α)) → Except (BlockFault α) (List (WeightedBlock α))
  | [] => .ok []
  | rows :: rest => do
    let b ← Block.ofRows? rows
    let further ← weightedFrom? (k + 1) rest
    .ok (⟨k, b⟩ :: further)

/-- The first block has no weight, the `k`-th one after it the exponent `k`; without any block the
residual is zero. -/
def ofBlocks? [Zero α] [One α] : List (List (List α)) → Except (BlockFault α) (Residual α)
  | [] => .ok ⟨.zero, []⟩
  | rows :: rest => do
    let base ← Block.ofRows? rows
    let weighted ← weightedFrom? 1 rest
    .ok ⟨base, weighted⟩

/-- The exponents of the weights are counted in 32 bits with sign. Beyond `2 ^ 31` blocks the
counter wraps around, and a weight no longer has the number of its block as its exponent. -/
def FitsCounter {β : Type v} (blocks : List β) : Prop := blocks.length ≤ Nat.pow 2 31

end Residual
end Helmholtz
