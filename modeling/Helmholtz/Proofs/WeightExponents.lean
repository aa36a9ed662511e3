import Helmholtz.Proofs.HelmholtzEnergy
import Helmholtz.Proofs.RealScalars

/-! The weight of a block for every exponent of 32 bits with sign.

Away from zero the weight is `exp (-y ^ k)` with both derivatives for every `k` from zero on. The
part `-k (k - 1) y ^ (k - 2)` of the second derivative is passed over up to `k = 1`, where it
vanishes from zero on, but not below: there the second derivative of every weighted block is off by
this part. -/

namespace Helmholtz
universe u
variable {α : Type u}

theorem intPow_eq_zpow [DivisionRing α] (x : α) (n : Int32) : intPow x n = x ^ n.toInt := by
  have hneg : n < 0 ↔ n.toInt < 0 := Int32.lt_iff_toInt_lt
  simp only [intPow, powBySquaring_eq, one_mul]
  rcases lt_or_ge n.toInt 0 with h | h
  · have habs : n.toInt = -(n.toInt.natAbs : ℤ) := by omega
    rw [if_pos (hneg.mpr h)]
    conv_rhs => rw [habs, zpow_neg, zpow_natCast]
    exact one_div _
  · have habs : n.toInt = (n.toInt.natAbs : ℤ) := by omega
    rw [if_neg (hneg.not.mpr (not_lt.mpr h))]
    conv_rhs => rw [habs, zpow_natCast]

theorem Jet2.product_ofY_add [CommRing α] (p : Jet2 α) (g : Jet1 α) (c : α) :
    p.product (.ofY { g with fxx := g.fxx + c }) .second =
      { p.product (.ofY g) .second with
        fyy := (p.product (.ofY g) .second).fyy + p.f * c } := by
  ext
  case fyy =>
    change p.fyy * g.f + (2 : ℕ) * p.fy * g.fx + p.f * (g.fxx + c) =
      p.fyy * g.f + (2 : ℕ) * p.fy * g.fx + p.f * g.fxx + p.f * c
    ring
  all_goals rfl

section Formulas
variable [Field α]

/-- A power of the variable, with its derivatives. -/
def Jet1.power (k : ℤ) (y : α) : Jet1 α :=
  ⟨y ^ k, k * y ^ (k - 1), k * (k - 1) * y ^ (k - 2)⟩

/-- The power with an integer exponent; a negative one is that of the reciprocal. -/
def Formula.zpow (a : Formula α) : ℤ → Formula α
  | .ofNat n => a.npow n
  | .negSucc n => (a.npow (n + 1)).inv

/-- The exponential function of `-y ^ k`. -/
def dampingFormula (k : ℤ) : Formula α := .exp (-(Formula.var .y).zpow k)

/-- The factors zero make up for exponents that have fallen below zero. -/
theorem Jet1.var_pow_eq_power (y : α) (n : ℕ) : var y ^ n = power n y := by
  rw [var_pow, power]
  rcases n with - | - | n
  · simp
  · simp
  · have h₁ : ((n + 2 : ℕ) : ℤ) - 1 = (n + 1 : ℕ) := by omega
    have h₂ : ((n + 2 : ℕ) : ℤ) - 2 = n := by omega
    simp only [h₁, h₂, zpow_natCast]
    simp

variable {y : α} (hy : y ≠ 0)
include hy

/-- The reciprocal of a power, by the chain rule. -/
theorem Jet1.inv_pow_eq_power (n : ℕ) :
    let i := (y ^ (n + 1))⁻¹
    (⟨i, -(i * i), 2 * (i * i * i)⟩ : Jet1 α).compose (var y ^ (n + 1)) .second =
      power (.negSucc n) y := by
  have h₁ : Int.negSucc n - 1 = .negSucc (n + 1) := rfl
  have h₂ : Int.negSucc n - 2 = .negSucc (n + 2) := rfl
  rw [var_pow]
  simp only [power, compose, Order.hasFirst, Order.hasSecond, if_true, h₁, h₂, zpow_negSucc,
    Int.cast_negSucc]
  ext
  · rfl
  · field_simp
    push_cast
    ring
  · rcases n with - | n
    · field_simp
      push_cast
      ring
    · field_simp
      push_cast
      ring

end Formulas

section Weights
variable [Field α] [Transcendental α]

/-- The exponential function of `-y ^ k`, with its derivatives. -/
def Jet1.damping (k : ℤ) (y : α) : Jet1 α :=
  let w := exp (-y ^ k)
  ⟨w, -k * y ^ (k - 1) * w, (k ^ 2 * y ^ (2 * k - 2) - k * (k - 1) * y ^ (k - 2)) * w⟩

variable {y : α} (hy : y ≠ 0)
include hy

theorem Jet1.damping_eq (k : ℤ) : damping k y =
    let w := exp (-y ^ k)
    let slope := -(k : α) * y ^ (k - 1)
    ⟨w, w * slope, w * (slope * slope - k * (k - 1) * y ^ (k - 2))⟩ := by
  have hsquare : y ^ (2 * k - 2) = y ^ (k - 1) * y ^ (k - 1) := by
    rw [← zpow_add₀ hy]
    congr 1
    ring
  simp only [damping, hsquare]
  ext
  · rfl
  · dsimp only
    ring
  · dsimp only
    ring

theorem Formula.jet_zpow_var (x : α) (k : ℤ) :
    ((Formula.var .y).zpow k).jet x y = Jet2.along .y (.power k y) := by
  have hnpow : ∀ n : ℕ, ((Formula.var .y).npow n).jet x y = Jet2.along .y (.var y ^ n) := by
    intro n
    rw [jet_npow, jet_var, ← map_pow]
    rfl
  cases k with
  | ofNat n =>
    rw [zpow, hnpow, Jet1.var_pow_eq_power]
    rfl
  | negSucc n =>
    have hvalue : ((Formula.var .y).npow (n + 1)).value x y = y ^ (n + 1) := by
      rw [← jet_f, hnpow, Jet2.along_f, Jet1.var_pow]
    rw [zpow, jet_inv, hvalue, hnpow, Jet2.chainHom_along, Jet1.inv_pow_eq_power hy]

/-- The closed form has the derivatives by the rules of the textbook. -/
theorem jet_dampingFormula (x : α) (k : ℤ) :
    (dampingFormula k).jet x y = .ofY (Jet1.damping k y) := by
  have hinner : (-(Formula.var .y).zpow k).jet x y = Jet2.along .y (-.power k y) := by
    rw [Formula.jet_neg, Formula.jet_zpow_var hy, map_neg]
  have hvalue : (-(Formula.var .y).zpow k).value x y = -y ^ k := by
    rw [← Formula.jet_f, hinner, Jet2.along_f]
    rfl
  have hchain : (⟨exp (-y ^ k), exp (-y ^ k), exp (-y ^ k)⟩ : Jet1 α).compose (-.power k y)
      .second = .damping k y := by
    rw [Jet1.damping_eq hy]
    ext
    · rfl
    · change exp (-y ^ k) * -(k * y ^ (k - 1)) = exp (-y ^ k) * (-k * y ^ (k - 1))
      ring
    · change exp (-y ^ k) * -(k * y ^ (k - 1)) * -(k * y ^ (k - 1)) +
        exp (-y ^ k) * -(k * (k - 1) * y ^ (k - 2)) = exp (-y ^ k) * _
      ring
  rw [dampingFormula, Formula.jet_exp, hinner, hvalue, Jet2.chainHom_along, hchain]
  rfl

end Weights

section Evaluation
variable [Field α] [Transcendental α] (k : Int32) (y : α)

theorem WeightedBlock.weight_second_zpow : weight k y .second =
    let w := exp (-y ^ k.toInt)
    let slope := -(k.toInt : α) * y ^ (k - 1).toInt
    ⟨w, w * slope, w * if 1 < k then
      slope * slope - k.toInt * (k.toInt - 1) * y ^ (k - 2).toInt else slope * slope⟩ := by
  simp only [weight, intPow_eq_zpow, Order.hasFirst, Order.hasSecond, if_true]

theorem WeightedBlock.weight_of_nonneg (hy : y ≠ 0) (hk : 0 ≤ k.toInt) :
    weight k y .second = .damping k.toInt y := by
  have h₁ : (k - 1).toInt = k.toInt - 1 := toInt_sub_of_le (by simp; omega) (by simp)
  have hsecond : ∀ s : α,
      (if 1 < k then s - k.toInt * (k.toInt - 1) * y ^ (k - 2).toInt else s) =
        s - k.toInt * (k.toInt - 1) * y ^ (k.toInt - 2) := by
    intro s
    have hlt : 1 < k ↔ 1 < k.toInt := by
      rw [Int32.lt_iff_toInt_lt, Int32.toInt_one]
    by_cases h : 1 < k.toInt
    · have h₂ : (k - 2).toInt = k.toInt - 2 := toInt_sub_of_le (by simp; omega) (by simp)
      rw [if_pos (hlt.mpr h), h₂]
    · rw [if_neg (hlt.not.mpr h)]
      obtain h | h : k.toInt = 0 ∨ k.toInt = 1 := by omega
      · simp [h]
      · simp [h]
  rw [weight_second_zpow, Jet1.damping_eq hy]
  simp only [hsecond, h₁]

theorem WeightedBlock.weight_of_neg (hk : k.toInt < 0) :
    weight k y .second =
      let w := exp (-y ^ k.toInt)
      let slope := -(k.toInt : α) * y ^ (k - 1).toInt
      ⟨w, w * slope, w * (slope * slope)⟩ := by
  have hlt : ¬1 < k := by
    rw [Int32.lt_iff_toInt_lt, Int32.toInt_one]
    omega
  rw [weight_second_zpow]
  simp only [if_neg hlt]

/-- Below zero, and as long as the lowered exponent fits into 32 bits, only the second derivative of
the weight is off. -/
theorem WeightedBlock.weight_eq_of_neg (hy : y ≠ 0) (hlow : -2 ^ 31 < k.toInt)
    (hk : k.toInt < 0) : weight k y .second = { Jet1.damping k.toInt y with
      fxx := (Jet1.damping k.toInt y).fxx +
        k.toInt * (k.toInt - 1) * y ^ (k.toInt - 2) * exp (-y ^ k.toInt) } := by
  have h₁ : (k - 1).toInt = k.toInt - 1 := toInt_sub_of_le (by simp; omega) (by simp)
  rw [weight_of_neg k y hk, Jet1.damping_eq hy]
  simp only [h₁]
  ext
  · rfl
  · rfl
  · dsimp only
    ring

end Evaluation

/-- Away from zero a weighted block is the product of the block and of `exp (-dd ^ k)`, differentiated
by the rules of the textbook, for all exponents from zero on. For a negative exponent all slots but
the last one are those of the product; the second derivative by `dd` lacks the part of the second
derivative of the weight that has the factor `k (k - 1)`, which never vanishes, so that it is right
only where the block or the weight is zero. The smallest exponent cannot be lowered in 32 bits and
is replaced by the largest one. -/
theorem weighted_eval_eq_damped {α : Type u} [Field α] [CharZero α] [DecidableEq α]
    [Transcendental α] (b : WeightedBlock α) (tt dd : α) (hdd : dd ≠ 0) :
    let k := b.k.toInt
    let w := exp (-dd ^ k)
    let p := b.block.eval tt dd .second
    let damped := p.product (.ofY (.damping k dd)) .second
    (dampingFormula k).jet tt dd = .ofY (.damping k dd) ∧
    (0 ≤ k → b.eval tt dd .second = damped) ∧
    (-2 ^ 31 < k → k < 0 →
      b.eval tt dd .second =
        { damped with fyy := damped.fyy + p.f * (k * (k - 1) * dd ^ (k - 2) * w) } ∧
      (b.eval tt dd .second = damped ↔ p.f = 0 ∨ w = 0)) ∧
    (k = -2 ^ 31 → b.eval tt dd .second = p.product (.ofY
      ⟨w, w * (-k * dd ^ (2 ^ 31 - 1 : ℤ)), w * (-k * dd ^ (2 ^ 31 - 1 : ℤ)) ^ 2⟩) .second) := by
  intro k w p damped
  have heval : b.eval tt dd .second =
      p.product (.ofY (WeightedBlock.weight b.k dd .second)) .second := rfl
  refine ⟨jet_dampingFormula hdd tt k, fun hk => ?_, fun hlow hk => ?_, fun hk => ?_⟩
  · rw [heval, WeightedBlock.weight_of_nonneg b.k dd hdd hk]
  · have hoff : b.eval tt dd .second =
        { damped with fyy := damped.fyy + p.f * (k * (k - 1) * dd ^ (k - 2) * w) } := by
      rw [heval, WeightedBlock.weight_eq_of_neg b.k dd hdd hlow hk, Jet2.product_ofY_add]
    have hfactor : (k * (k - 1) * dd ^ (k - 2) : α) ≠ 0 := by
      have hk₀ : (k : α) ≠ 0 := Int.cast_ne_zero.mpr hk.ne
      have hk₁ : ((k - 1 : ℤ) : α) ≠ 0 := Int.cast_ne_zero.mpr (by omega)
      rw [Int.cast_sub, Int.cast_one] at hk₁
      exact mul_ne_zero (mul_ne_zero hk₀ hk₁) (zpow_ne_zero _ hdd)
    refine ⟨hoff, ?_⟩
    rw [hoff, Jet2.ext_iff]
    simp only [true_and, add_eq_left, mul_eq_zero, hfactor, false_or]
  · have hlowered : (b.k - 1).toInt = 2 ^ 31 - 1 := by
      have hmin : b.k = Int32.minValue := Int32.toInt_inj.mp hk
      rw [hmin]
      rfl
    rw [heval, WeightedBlock.weight_of_neg b.k dd (by omega)]
    simp only [hlowered, sq]
    rfl

/-- The constant one with the weight `exp (-1 / dd)`. -/
def sampleInverted : WeightedBlock ℝ :=
  ⟨-1, ⟨1, 1, 0, 0, .constant 1⟩⟩

theorem sampleInverted_block (x y : ℝ) :
    sampleInverted.block.eval x y .second = .constant 1 := by
  simp [sampleInverted, Block.eval, Block.evalPre, Polynomial2.horner_second,
    Polynomial2.expand_constant]

theorem sampleInverted_off : (2 : ℝ) ≠ 0 ∧
    let damped := (sampleInverted.block.eval 1 2 .second).product (.ofY (.damping (-1) 2)) .second
    sampleInverted.eval 1 2 .second =
      { damped with fyy := damped.fyy + 1 / 4 * Real.exp (-(1 / 2)) } := by
  have hk : sampleInverted.k.toInt = -1 := by rfl
  obtain ⟨-, -, hneg, -⟩ := weighted_eval_eq_damped sampleInverted 1 2 two_ne_zero
  rw [hk, sampleInverted_block] at hneg
  obtain ⟨hoff, -⟩ := hneg (by norm_num) (by norm_num)
  have hcube : (2 : ℝ) ^ (-1 - 2 : ℤ) = 1 / 8 := by norm_num
  have hpart : (1 : ℝ) * (((-1 : ℤ) : ℝ) * (((-1 : ℤ) : ℝ) - 1) * (2 : ℝ) ^ (-1 - 2 : ℤ) *
      exp (-(2 : ℝ) ^ (-1 : ℤ))) = 1 / 4 * Real.exp (-(1 / 2)) := by
    rw [hcube, zpow_neg_one, ← one_div]
    change 1 * (((-1 : ℤ) : ℝ) * (((-1 : ℤ) : ℝ) - 1) * (1 / 8) * Real.exp (-(1 / 2))) = _
    push_cast
    ring
  refine ⟨two_ne_zero, ?_⟩
  rw [sampleInverted_block, hoff, ← hpart]
  rfl

/-- Where the weight is `exp (-1)`, its second derivative is minus that number, and not the number
itself. -/
theorem weighted_inverted_density :
    (sampleInverted.eval 1 1 .second).fyy = Real.exp (-1) ∧
      ((sampleInverted.block.eval 1 1 .second).product (.ofY (.damping (-1) 1)) .second).fyy =
        -Real.exp (-1) := by
  have hk : sampleInverted.k.toInt = -1 := by rfl
  have hone : ∀ g : Jet1 ℝ, ((Jet2.constant 1).product (.ofY g) .second).fyy = g.fxx :=
    fun g => congrArg Jet2.fyy (one_mul (Jet2.ofY g))
  have heval : sampleInverted.eval 1 1 .second =
      (sampleInverted.block.eval 1 1 .second).product
        (.ofY (WeightedBlock.weight sampleInverted.k 1 .second)) .second := rfl
  rw [heval, sampleInverted_block, hone, hone,
    WeightedBlock.weight_of_neg _ _ (by rw [hk]; norm_num), hk]
  simp only [Jet1.damping, one_zpow]
  change Real.exp (-1) * _ = _ ∧ (_ * Real.exp (-1)) = _
  norm_num

end Helmholtz
