import Helmholtz.Proofs.HelmholtzEnergy
import Helmholtz.Proofs.RealScalars

/-! Powers that are passed over.

Pre exponents are passed over only if both of them are 1, post exponents of 0 one by one, so that a
variable may be taken as it is in one step and transformed in another. The evaluation that passes
over nothing is the formula of the block, differentiated literally. -/

namespace Helmholtz
universe u
variable {α : Type u}

/-- The evaluation that always composes with the powers of both variables, and always multiplies by
two powers. -/
def Block.evalUnshortened [Zero α] [One α] [Add α] [Sub α] [Mul α] [Div α] [NatCast α]
    [Transcendental α] (b : Block α) (x y : α) (o : Order) : Jet2 α :=
  let g := Elementary1.evalPower b.preX x o
  let h := Elementary1.evalPower b.preY y o
  let p := (b.polynomial.horner g.f h.f o).compose g h o
  let p := p.product (.ofX (Elementary1.evalPower b.postX x o)) o
  p.product (.ofY (Elementary1.evalPower b.postY y o)) o

variable [Field α] [Transcendental α]

theorem Block.evalUnshortened_second (b : Block α) (x y : α) :
    b.evalUnshortened x y .second = b.polynomial.expand Jet2.constant
        (.ofX (Elementary1.evalPower b.preX x .second))
        (.ofY (Elementary1.evalPower b.preY y .second)) *
      .ofX (Elementary1.evalPower b.postX x .second) *
      .ofY (Elementary1.evalPower b.postY y .second) := by
  rw [← Polynomial2.horner_compose_second]
  rfl

/-- Nothing is assumed of the powers, and both sides divide by the variables in the same way, also
where these are zero. -/
theorem Block.jet_formula_eq_evalUnshortened (b : Block α) (x y : α) :
    b.formula.jet x y = b.evalUnshortened x y .second := by
  have hX : ∀ p : α, ((Formula.var .x).pow p).jet x y =
      .ofX (Elementary1.evalPower p x .second) :=
    fun p => Elementary1.jet_formula_var x y (.power p) .x
  have hY : ∀ p : α, ((Formula.var .y).pow p).jet x y =
      .ofY (Elementary1.evalPower p y .second) :=
    fun p => Elementary1.jet_formula_var x y (.power p) .y
  rw [evalUnshortened_second, formula, Formula.jet_mul, Formula.jet_mul, Polynomial2.jet_formula,
    hX, hX, hY, hY]
  ring

section Trivial
variable [DecidableEq α] (htrivial : TrivialPowers α)
include htrivial

theorem Block.eval_eq_evalUnshortened (b : Block α) {x y : α} (hx : x ≠ 0) (hy : y ≠ 0) :
    b.eval x y .second = b.evalUnshortened x y .second := by
  rw [eval_second_product htrivial, evalUnshortened_second,
    Jet1.reducedPower_of_ne_zero htrivial hx, Jet1.reducedPower_of_ne_zero htrivial hy]

theorem Block.jet_formula_of_ne_zero (b : Block α) {x y : α} (hx : x ≠ 0) (hy : y ≠ 0) :
    b.formula.jet x y = b.eval x y .second := by
  rw [jet_formula_eq_evalUnshortened, eval_eq_evalUnshortened htrivial b hx hy]

theorem Jet1.reducedPower_f (p v : α) :
    (reducedPower p v).f = (Elementary1.evalPower p v .second).f := by
  have hvalue : (Elementary1.evalPower p v .second).f = pow v p := rfl
  rw [hvalue, reducedPower]
  by_cases h₁ : p = 1
  · rw [if_pos h₁, h₁, htrivial.pow_one]
    rfl
  · by_cases h₀ : p = 0
    · rw [if_neg h₁, if_pos h₀, h₀, htrivial.pow_zero]
      rfl
    · rw [if_neg h₁, if_neg h₀, hvalue]

/-- The value depends on the values of the powers only, which are the same everywhere. -/
theorem Block.eval_second_f (b : Block α) (x y : α) :
    (b.eval x y .second).f = b.formula.value x y := by
  have hX : Jet2.valueHom (.ofX (.reducedPower b.preX x)) =
      Jet2.valueHom (.ofX (Elementary1.evalPower b.preX x .second)) :=
    Jet1.reducedPower_f htrivial b.preX x
  have hY : Jet2.valueHom (.ofY (.reducedPower b.preY y)) =
      Jet2.valueHom (.ofY (Elementary1.evalPower b.preY y .second)) :=
    Jet1.reducedPower_f htrivial b.preY y
  have h : Jet2.valueHom (b.eval x y .second) = Jet2.valueHom (b.formula.jet x y) := by
    rw [eval_second_product htrivial, jet_formula_eq_evalUnshortened, evalUnshortened_second]
    simp only [map_mul, Polynomial2.map_expand, hX, hY]
  exact h

end Trivial

/-- Passing over powers never changes a block. Where every variable is different from zero, or is
transformed neither before nor after, the block has the value and the derivatives of its formula;
a power with the exponent 1 or 0 is read as the base or one there. Away from zero no such reading is
needed, and these are the six slots of the evaluation that passes over nothing. -/
theorem block_eval_eq_unshortened {α : Type u} [Field α] [DecidableEq α] [Transcendental α]
    (hone : ∀ v : α, Transcendental.pow v 1 = v) (hzero : ∀ v : α, Transcendental.pow v 0 = 1)
    (b : Block α) (x y : α) :
    (b.eval x y .second).f = b.formula.value x y ∧
    (x ≠ 0 ∨ b.preX = 1 ∧ b.postX = 0 → y ≠ 0 ∨ b.preY = 1 ∧ b.postY = 0 →
      b.eval x y .second = b.formula.reduce.jet x y) ∧
    (x ≠ 0 → y ≠ 0 → b.eval x y .second = b.formula.jet x y ∧
      b.eval x y .second = b.evalUnshortened x y .second) := by
  have htrivial : TrivialPowers α := ⟨hone, hzero⟩
  refine ⟨b.eval_second_f htrivial x y, fun hx hy => ?_, fun hx hy => ?_⟩
  · exact (b.jet_formula htrivial (hx.imp_right And.right) (hy.imp_right And.right)).symm
  · exact ⟨(b.jet_formula_of_ne_zero htrivial hx hy).symm,
      b.eval_eq_evalUnshortened htrivial hx hy⟩

/-- `x ^ 2 (y ^ (1 / 2)) y - (y ^ (1 / 2)) y`, in which only `y` is transformed. -/
noncomputable def sampleNeutral : Block ℝ :=
  ⟨1, 1 / (2 : ℕ), 0, 1, ⟨[⟨⟨2, 1⟩, 1⟩, ⟨⟨0, 1⟩, -1⟩], by simp [Descending, Exponents.lt_def]⟩⟩

theorem sampleNeutral_unshortened :
    sampleNeutral.eval 0 4 .second = sampleNeutral.formula.reduce.jet 0 4 ∧
    sampleNeutral.eval 3 4 .second = sampleNeutral.formula.jet 3 4 ∧
    sampleNeutral.eval 3 4 .second = sampleNeutral.evalUnshortened 3 4 .second := by
  have hone : ∀ v : ℝ, Transcendental.pow v 1 = v := Real.rpow_one
  have hzero : ∀ v : ℝ, Transcendental.pow v 0 = 1 := Real.rpow_zero
  obtain ⟨-, hneutral, -⟩ := block_eval_eq_unshortened hone hzero sampleNeutral 0 4
  obtain ⟨-, -, hnonzero⟩ := block_eval_eq_unshortened hone hzero sampleNeutral 3 4
  exact ⟨hneutral (.inr ⟨rfl, rfl⟩) (.inl four_ne_zero), hnonzero three_ne_zero four_ne_zero⟩

end Helmholtz
