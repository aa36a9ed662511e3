import Helmholtz.Fit.Block
import Helmholtz.Proofs.TreeDerivatives

/-! Powers with the exponents 1 and 0, which are the base and one.

Written as powers they cannot be differentiated at zero, where `(u ^ p)' = p u ^ p / u` divides by
the base. Formulas are differentiated there after such powers have been removed, which changes no
value and, away from zero, no derivative. Blocks pass over the same powers. -/

namespace Helmholtz
universe u
variable {α : Type u} [Field α] [Transcendental α]

namespace Formula

/-- No base of a power is zero at the point. -/
def BasesNonzero (x y : α) : Formula α → Prop
  | const _ => True
  | var _ => True
  | add a b => a.BasesNonzero x y ∧ b.BasesNonzero x y
  | mul a b => a.BasesNonzero x y ∧ b.BasesNonzero x y
  | neg a => a.BasesNonzero x y
  | inv a => a.BasesNonzero x y
  | exp a => a.BasesNonzero x y
  | log a => a.BasesNonzero x y
  | pow a _ => a.BasesNonzero x y ∧ a.value x y ≠ 0

section BasesNonzero
variable {x y : α}

theorem basesNonzero_sum {l : List (Formula α)} (h : ∀ a ∈ l, a.BasesNonzero x y) :
    (sum l).BasesNonzero x y := by
  induction l with
  | nil => trivial
  | cons a rest ih =>
    exact ⟨h a (by simp), ih fun b hb => h b (by simp [hb])⟩

theorem basesNonzero_npow {a : Formula α} (h : a.BasesNonzero x y) (n : ℕ) :
    (a.npow n).BasesNonzero x y := by
  induction n with
  | zero => trivial
  | succ n ih => exact ⟨ih, h⟩

end BasesNonzero

variable [DecidableEq α]

/-- The formula with the base in place of its power with the exponent 1, and with one in place of a
power with the exponent 0. -/
def reduce : Formula α → Formula α
  | const c => .const c
  | var v => .var v
  | add a b => a.reduce + b.reduce
  | mul a b => a.reduce * b.reduce
  | neg a => -a.reduce
  | inv a => a.reduce.inv
  | exp a => a.reduce.exp
  | log a => a.reduce.log
  | pow a p => if p = 1 then a.reduce else if p = 0 then .const 1 else a.reduce.pow p

section Reduce
omit [Transcendental α]
variable (a b : Formula α)

@[simp] theorem reduce_add : (a + b).reduce = a.reduce + b.reduce := rfl

@[simp] theorem reduce_mul : (a * b).reduce = a.reduce * b.reduce := rfl

@[simp] theorem reduce_neg : (-a).reduce = -a.reduce := rfl

theorem reduce_sum (l : List (Formula α)) : (sum l).reduce = sum (l.map reduce) := by
  induction l with
  | nil => rfl
  | cons a rest ih => rw [sum, reduce_add, ih, List.map_cons, sum]

theorem reduce_npow (n : ℕ) : (a.npow n).reduce = a.reduce.npow n := by
  induction n with
  | zero => rfl
  | succ n ih => rw [npow, reduce_mul, ih, npow]

end Reduce
end Formula

/-- The powers with the exponents 1 and 0 are the base and one. -/
structure TrivialPowers (α : Type u) [Zero α] [One α] [Transcendental α] : Prop where
  pow_one (v : α) : Transcendental.pow v 1 = v
  pow_zero (v : α) : Transcendental.pow v 0 = 1

section Powers
variable (hpow : ∀ (v : α) (n : ℕ), Transcendental.pow v (n : α) = v ^ n)
include hpow

theorem TrivialPowers.of_natCast : TrivialPowers α where
  pow_one v := by simpa using hpow v 1
  pow_zero v := by simpa using hpow v 0

/-- Away from zero the power with a natural exponent has the jet of the product. -/
theorem Elementary1.evalPower_natCast {v : α} (hv : v ≠ 0) (n : ℕ) :
    evalPower (n : α) v .second = .var v ^ n := by
  have hlower : ∀ m : ℕ, v ^ (m + 1) * v⁻¹ = v ^ m := by
    intro m
    rw [pow_succ, mul_inv_cancel_right₀ hv]
  rw [evalPower_second, hpow, Jet1.var_pow]
  rcases n with - | - | n
  · ext <;> simp
  · ext <;> simp [hv]
  · have hfirst : ((n + 2 : ℕ) : α) * v ^ (n + 2) * v⁻¹ = (n + 2 : ℕ) * v ^ (n + 1) := by
      rw [mul_assoc, hlower]
    ext
    · rfl
    · exact hfirst
    · rw [hfirst, mul_assoc, mul_assoc, hlower]
      simp
      ring

end Powers

section Powers
variable (htrivial : TrivialPowers α)
include htrivial

theorem Elementary1.evalPower_one {v : α} (hv : v ≠ 0) : evalPower 1 v .second = .var v := by
  rw [evalPower_second, htrivial.pow_one]
  ext <;> simp [Jet1.identity, Order.hasFirst, hv]

theorem Elementary1.evalPower_zero (v : α) : evalPower 0 v .second = .constant 1 := by
  rw [evalPower_second, htrivial.pow_zero]
  ext <;> simp [Jet1.constant]

end Powers

/-- The jet of a power, or of what it is reduced to. -/
def Jet1.reducedPower [DecidableEq α] (p v : α) : Jet1 α :=
  if p = 1 then .var v else if p = 0 then .constant 1 else Elementary1.evalPower p v .second

variable [DecidableEq α]

namespace Formula

theorem jet_reduce_pow_var (v : Axis) (p x y : α) :
    ((var v).pow p).reduce.jet x y = Jet2.along v (Jet1.reducedPower p (v.pick x y)) := by
  unfold reduce Jet1.reducedPower
  by_cases h₁ : p = 1
  · rw [if_pos h₁, if_pos h₁]
    exact jet_var x y v
  · by_cases h₀ : p = 0
    · rw [if_neg h₁, if_neg h₁, if_pos h₀, if_pos h₀, jet_const, Jet2.along_constant]
    · rw [if_neg h₁, if_neg h₁, if_neg h₀, if_neg h₀, reduce]
      exact Elementary1.jet_formula_var x y (.power p) v

variable (hpow : ∀ (v : α) (n : ℕ), Transcendental.pow v (n : α) = v ^ n) (x y : α)
include hpow

theorem value_reduce (a : Formula α) : a.reduce.value x y = a.value x y := by
  have htrivial := TrivialPowers.of_natCast hpow
  induction a with
  | const c => rfl
  | var v => rfl
  | add a b iha ihb => exact congrArg₂ (· + ·) iha ihb
  | mul a b iha ihb => exact congrArg₂ (· * ·) iha ihb
  | neg a ih => exact congrArg (-·) ih
  | inv a ih => exact congrArg (·⁻¹) ih
  | exp a ih => exact congrArg Transcendental.exp ih
  | log a ih => exact congrArg Transcendental.log ih
  | pow a p ih =>
    change _ = Transcendental.pow (a.value x y) p
    unfold reduce
    by_cases h₁ : p = 1
    · rw [if_pos h₁, h₁, htrivial.pow_one, ih]
    · by_cases h₀ : p = 0
      · rw [if_neg h₁, if_pos h₀, h₀, htrivial.pow_zero]
        rfl
      · rw [if_neg h₁, if_neg h₀, ← ih]
        rfl

/-- Away from zero a formula has the derivatives of its reduced form. -/
theorem jet_reduce {a : Formula α} (ha : a.BasesNonzero x y) : a.reduce.jet x y = a.jet x y := by
  have htrivial := TrivialPowers.of_natCast hpow
  have hvalue := value_reduce hpow x y
  induction a with
  | const c => rfl
  | var v => rfl
  | add a b iha ihb => exact congrArg₂ (· + ·) (iha ha.1) (ihb ha.2)
  | mul a b iha ihb =>
    have h := congrArg₂ (· * ·) (iha ha.1) (ihb ha.2)
    rwa [← jet_mul, ← jet_mul] at h
  | neg a ih => exact congrArg (-·) (ih ha)
  | inv a ih => rw [reduce, jet_inv, jet_inv, hvalue, ih ha]
  | exp a ih => rw [reduce, jet_exp, jet_exp, hvalue, ih ha]
  | log a ih => rw [reduce, jet_log, jet_log, hvalue, ih ha]
  | pow a p ih =>
    obtain ⟨hbases, hne⟩ := ha
    have hchain : ∀ u : Formula α, (u.pow p).jet x y =
        Jet2.chainHom (u.jet x y) (Elementary1.evalPower p (u.value x y) .second) :=
      Elementary1.jet_formula x y (.power p)
    rw [hchain]
    unfold reduce
    by_cases h₁ : p = 1
    · rw [if_pos h₁, h₁, Elementary1.evalPower_one htrivial hne, ih hbases]
      exact (Jet2.chainHom_var (a.jet x y)).symm
    · by_cases h₀ : p = 0
      · rw [if_neg h₁, if_pos h₀, h₀, Elementary1.evalPower_zero htrivial, Jet2.chainHom_constant,
          jet_const]
      · rw [if_neg h₁, if_neg h₀, hchain, hvalue, ih hbases]

end Formula

section Blocks
variable (htrivial : TrivialPowers α)
include htrivial

theorem Jet1.reducedPower_of_ne_zero {v : α} (hv : v ≠ 0) (p : α) :
    reducedPower p v = Elementary1.evalPower p v .second := by
  unfold reducedPower
  by_cases h₁ : p = 1
  · rw [if_pos h₁, h₁, Elementary1.evalPower_one htrivial hv]
  · by_cases h₀ : p = 0
    · rw [if_neg h₁, if_pos h₀, h₀, Elementary1.evalPower_zero htrivial]
    · rw [if_neg h₁, if_neg h₀]

theorem Block.preTransform_second (v p : α) : preTransform v p .second = .reducedPower p v := by
  unfold preTransform Jet1.reducedPower
  by_cases h₁ : p = 1
  · simp [h₁]
  · by_cases h₀ : p = 0
    · simp [h₀, Elementary1.evalPower_zero htrivial]
    · simp [h₁, h₀]

/-- Without pre exponents the polynomial is evaluated at the point itself, which is the composition
with the variables. -/
theorem Block.evalPre_second (b : Block α) (x y : α) :
    b.evalPre x y .second = b.polynomial.expand Jet2.constant
      (.ofX (.reducedPower b.preX x)) (.ofY (.reducedPower b.preY y)) := by
  unfold evalPre
  by_cases h : b.preX = 1 ∧ b.preY = 1
  · have hx : Jet1.reducedPower b.preX x = .var x := if_pos h.1
    have hy : Jet1.reducedPower b.preY y = .var y := if_pos h.2
    rw [if_pos (by simpa using h), Polynomial2.horner_second, hx, hy]
  · rw [if_neg (by simpa using h), preTransform_second htrivial, preTransform_second htrivial]
    exact b.polynomial.horner_compose_second _ _

/-- A factor that is passed over is one. -/
private theorem product_power (v : Axis) (a : Jet2 α) (p c : α) :
    (if p != 0 then a.product (Jet2.along v (Elementary1.evalPower p c .second)) .second else a) =
      a * Jet2.along v (Elementary1.evalPower p c .second) := by
  by_cases h : p = 0
  · have hone : Jet2.along v (Jet1.constant 1) = (1 : Jet2 α) := map_one (Jet2.along v)
    rw [if_neg (by simpa using h), h, Elementary1.evalPower_zero htrivial, hone, mul_one]
  · rw [if_pos (by simpa using h)]
    rfl

/-- A block is the product of its polynomial and of both powers, whether these are passed over or
not. -/
theorem Block.eval_second_product (b : Block α) (x y : α) :
    b.eval x y .second = b.polynomial.expand Jet2.constant
        (.ofX (.reducedPower b.preX x)) (.ofY (.reducedPower b.preY y)) *
      .ofX (Elementary1.evalPower b.postX x .second) *
      .ofY (Elementary1.evalPower b.postY y .second) := by
  have hX := product_power htrivial .x (b.evalPre x y .second) b.postX x
  have hY := product_power htrivial .y
    (b.evalPre x y .second * .ofX (Elementary1.evalPower b.postX x .second)) b.postY y
  rw [← evalPre_second htrivial]
  change _ = b.evalPre x y .second * .ofX (Elementary1.evalPower b.postX x .second) at hX
  change _ = _ * Jet2.ofY (Elementary1.evalPower b.postY y .second) at hY
  rw [← hY, ← hX]
  rfl

theorem Block.eval_second (b : Block α) {x y : α} (hx : x ≠ 0 ∨ b.postX = 0)
    (hy : y ≠ 0 ∨ b.postY = 0) :
    b.eval x y .second = b.polynomial.expand Jet2.constant
        (.ofX (.reducedPower b.preX x)) (.ofY (.reducedPower b.preY y)) *
      .ofX (.reducedPower b.postX x) * .ofY (.reducedPower b.postY y) := by
  have hpost : ∀ {p v : α}, v ≠ 0 ∨ p = 0 →
      Elementary1.evalPower p v .second = .reducedPower p v := by
    rintro p v (hv | rfl)
    · exact (Jet1.reducedPower_of_ne_zero htrivial hv p).symm
    · rw [Elementary1.evalPower_zero htrivial]
      simp [Jet1.reducedPower]
  rw [eval_second_product htrivial, hpost hx, hpost hy]

end Blocks
end Helmholtz
