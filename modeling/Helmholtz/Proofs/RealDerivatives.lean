import Mathlib
import Helmholtz.Proofs.HelmholtzEnergy
import Helmholtz.Proofs.RealScalars

/-! Over the real numbers the rules of the textbook give the derivatives of real analysis. -/

namespace Helmholtz
namespace Formula

/-- No argument of a reciprocal, a logarithm or a power is zero at the point. -/
def SmoothAt (x y : ℝ) : Formula ℝ → Prop
  | const _ => True
  | var _ => True
  | add a b => a.SmoothAt x y ∧ b.SmoothAt x y
  | mul a b => a.SmoothAt x y ∧ b.SmoothAt x y
  | neg a => a.SmoothAt x y
  | inv a => a.SmoothAt x y ∧ a.value x y ≠ 0
  | exp a => a.SmoothAt x y
  | log a => a.SmoothAt x y ∧ a.value x y ≠ 0
  | pow a _ => a.SmoothAt x y ∧ a.value x y ≠ 0

section SmoothAt
variable {x y : ℝ}

theorem smoothAt_sum {l : List (Formula ℝ)} (h : ∀ a ∈ l, a.SmoothAt x y) :
    (sum l).SmoothAt x y := by
  induction l with
  | nil => trivial
  | cons a rest ih => exact ⟨h a (by simp), ih fun b hb => h b (by simp [hb])⟩

theorem smoothAt_npow {a : Formula ℝ} (h : a.SmoothAt x y) (n : ℕ) : (a.npow n).SmoothAt x y := by
  induction n with
  | zero => trivial
  | succ n ih => exact ⟨ih, h⟩

/-- Derivatives have no arguments of their own. -/
theorem smoothAt_deriv (v : Axis) {a : Formula ℝ} (h : a.SmoothAt x y) :
    (a.deriv v).SmoothAt x y := by
  induction a with
  | const c => trivial
  | var w => trivial
  | add a b iha ihb => exact ⟨iha h.1, ihb h.2⟩
  | mul a b iha ihb => exact ⟨⟨iha h.1, h.2⟩, h.1, ihb h.2⟩
  | neg a ih => exact ih h
  | inv a ih => exact ⟨⟨h, h⟩, ih h.1⟩
  | exp a ih => exact ⟨h, ih h⟩
  | log a ih => exact ⟨h, ih h.1⟩
  | pow a p ih => exact ⟨⟨⟨trivial, h⟩, h⟩, ih h.1⟩

end SmoothAt

/-- The chain rule along a differentiable curve. -/
theorem hasDerivAt_value {p q : ℝ → ℝ} {p' q' s : ℝ} (hp : HasDerivAt p p' s)
    (hq : HasDerivAt q q' s) {a : Formula ℝ} (h : a.SmoothAt (p s) (q s)) :
    HasDerivAt (fun u => a.value (p u) (q u))
      ((a.deriv .x).value (p s) (q s) * p' + (a.deriv .y).value (p s) (q s) * q') s := by
  induction a with
  | const c =>
    refine (hasDerivAt_const s c).congr_deriv ?_
    simp only [deriv, value]
    ring
  | var v =>
    cases v with
    | x =>
      refine hp.congr_deriv ?_
      simp [deriv, value]
    | y =>
      refine hq.congr_deriv ?_
      simp [deriv, value]
  | add a b iha ihb =>
    refine ((iha h.1).add (ihb h.2)).congr_deriv ?_
    simp only [deriv, value_add]
    ring
  | mul a b iha ihb =>
    refine ((iha h.1).mul (ihb h.2)).congr_deriv ?_
    simp only [deriv, value_add, value_mul]
    ring
  | neg a ih =>
    refine (ih h).neg.congr_deriv ?_
    simp only [deriv, value_neg]
    ring
  | inv a ih =>
    refine ((ih h.1).inv h.2).congr_deriv ?_
    simp only [deriv, value, value_mul]
    ring
  | exp a ih =>
    refine (ih h).exp.congr_deriv ?_
    change Real.exp _ * _ = Real.exp _ * _ * _ + Real.exp _ * _ * _
    ring
  | log a ih =>
    refine ((ih h.1).log h.2).congr_deriv ?_
    simp only [deriv, value, value_mul]
    ring
  | pow a e ih =>
    refine ((ih h.1).rpow_const (.inl h.2)).congr_deriv ?_
    rw [Real.rpow_sub_one h.2]
    change _ = e * (a.value (p s) (q s)) ^ e * (a.value (p s) (q s))⁻¹ * _ * p' +
      e * (a.value (p s) (q s)) ^ e * (a.value (p s) (q s))⁻¹ * _ * q'
    ring

end Formula

section Fits
variable {x y : ℝ} (hx : x ≠ 0) (hy : y ≠ 0)
include hx hy

theorem Block.smoothAt_formula (b : Block ℝ) : b.formula.SmoothAt x y := by
  have hX : ∀ p : ℝ, ((Formula.var .x).pow p).SmoothAt x y := fun _ => ⟨trivial, hx⟩
  have hY : ∀ p : ℝ, ((Formula.var .y).pow p).SmoothAt x y := fun _ => ⟨trivial, hy⟩
  refine ⟨⟨hX _, hY _⟩, Formula.smoothAt_sum fun a ha => ?_⟩
  obtain ⟨t, -, rfl⟩ := List.mem_map.mp ha
  exact ⟨⟨trivial, Formula.smoothAt_npow (hX _) _⟩, Formula.smoothAt_npow (hY _) _⟩

theorem smoothAt_energyFormula (bs : List (Block ℝ)) : (energyFormula bs).SmoothAt x y := by
  cases bs with
  | nil => trivial
  | cons b rest =>
    refine ⟨b.smoothAt_formula hx hy, Formula.smoothAt_sum fun a ha => ?_⟩
    obtain ⟨⟨c, k⟩, -, rfl⟩ := List.mem_map.mp ha
    have hweight : (weightFormula k).SmoothAt x y :=
      Formula.smoothAt_npow (a := .var .y) trivial k
    exact ⟨hweight, c.smoothAt_formula hx hy⟩

theorem IdealGas.smoothAt_formula (g : IdealGas ℝ) : g.formula.SmoothAt x y := by
  have hX : (Formula.var .x : Formula ℝ).SmoothAt x y := trivial
  exact ⟨⟨⟨⟨⟨trivial, trivial, hX⟩, trivial, hX, hx⟩, trivial, hX, hx⟩, trivial, hX, hx⟩,
    trivial, hy⟩

end Fits
end Helmholtz
