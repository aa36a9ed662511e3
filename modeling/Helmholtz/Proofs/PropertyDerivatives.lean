import Mathlib
import Helmholtz.Proofs.NeutralExponents
import Helmholtz.Proofs.PropertyIdentities
import Helmholtz.Proofs.RealDerivatives

/-! The derivatives of thermodynamics.

Over the real numbers, pressure and entropy are derivatives of the Helmholtz energy by density and
by temperature, and the heat capacity is that of the energy and, over temperature, of the entropy.
Temperatures enter through the reduced variable `tc / t`. -/

namespace Helmholtz

/-- The slots of a function of `x`, at a fixed `y`. -/
def Jet2.sliceX : Jet2 ℝ →+* Jet1 ℝ where
  toFun a := ⟨a.f, a.fx, a.fxx⟩
  map_zero' := rfl
  map_one' := rfl
  map_add' _ _ := rfl
  map_mul' a b := by
    rw [mul_def, Jet1.mul_def]

section Slices
variable {x y : ℝ}

/-- The residual as a function of `x`: at a fixed `y` all weights are constants, also those whose
exponents have overflown. -/
noncomputable def Residual.sliceFormula (r : Residual ℝ) (y : ℝ) : Formula ℝ :=
  r.base.formula + .sum (r.weighted.map fun b =>
    .const (WeightedBlock.weight b.k y .second).f * b.block.formula)

theorem Residual.sliceX_eval (hx : x ≠ 0) (hy : y ≠ 0) (r : Residual ℝ) :
    Jet2.sliceX (r.eval x y .second) = Jet2.sliceX ((r.sliceFormula y).jet x y) := by
  have hblock : ∀ b : Block ℝ, b.formula.jet x y = b.eval x y .second :=
    fun b => b.jet_formula_of_ne_zero (.of_natCast real_pow_natCast) hx hy
  have hweighted : ∀ b : WeightedBlock ℝ, Jet2.sliceX (b.eval x y .second) = Jet2.sliceX
      ((.const (WeightedBlock.weight b.k y .second).f * b.block.formula : Formula ℝ).jet x y) := by
    intro b
    have hweight : Jet2.sliceX (.ofY (WeightedBlock.weight b.k y .second)) =
        Jet2.sliceX (.constant (WeightedBlock.weight b.k y .second).f) := rfl
    rw [WeightedBlock.eval, Jet2.product_second, Formula.jet_mul, Formula.jet_const, hblock,
      map_mul, map_mul, hweight, mul_comm]
  rw [sliceFormula, Formula.jet_add, Formula.jet_sum, hblock, eval, foldl_add_eq_sum, map_add,
    map_add, map_list_sum, map_list_sum, List.map_map, List.map_map, List.map_map]
  congr 2
  exact List.map_congr_left fun b _ => hweighted b

theorem Residual.smoothAt_sliceFormula (hx : x ≠ 0) (hy : y ≠ 0) (r : Residual ℝ) (z : ℝ) :
    (r.sliceFormula z).SmoothAt x y := by
  refine ⟨r.base.smoothAt_formula hx hy, Formula.smoothAt_sum fun a ha => ?_⟩
  obtain ⟨b, -, rfl⟩ := List.mem_map.mp ha
  exact ⟨trivial, b.block.smoothAt_formula hx hy⟩

end Slices

namespace Fit
variable (m : Fit ℝ) {t d : ℝ}

/-- The Helmholtz energy. -/
noncomputable def freeEnergyAt (t d : ℝ) : ℝ := m.r * t * (m.totalAt t d .second).f

/-- The reduced Helmholtz energy as a function of the first reduced variable. -/
noncomputable def sliceFormula (d : ℝ) : Formula ℝ :=
  m.idealGas.formula + m.residual.sliceFormula (m.reducedDensity d)

theorem sliceX_totalAt (hx : m.reducedTemperature t ≠ 0) (hy : m.reducedDensity d ≠ 0) :
    Jet2.sliceX (m.totalAt t d .second) = Jet2.sliceX
      ((m.sliceFormula d).jet (m.reducedTemperature t) (m.reducedDensity d)) := by
  rw [sliceFormula, Formula.jet_add, IdealGas.jet_formula, map_add, ← Residual.sliceX_eval hx hy,
    ← map_add]
  rfl

theorem smoothAt_sliceFormula (hx : m.reducedTemperature t ≠ 0) (hy : m.reducedDensity d ≠ 0) :
    (m.sliceFormula d).SmoothAt (m.reducedTemperature t) (m.reducedDensity d) :=
  ⟨m.idealGas.smoothAt_formula hx hy, m.residual.smoothAt_sliceFormula hx hy _⟩

theorem hasDerivAt_reducedTemperature (ht : t ≠ 0) :
    HasDerivAt m.reducedTemperature (-(m.tc / t ^ 2)) t := by
  refine ((hasDerivAt_inv ht).const_mul m.tc).congr_deriv ?_
  ring

theorem hasDerivAt_reducedDensity : HasDerivAt m.reducedDensity (1 / m.dc) d :=
  (hasDerivAt_id d).div_const m.dc

/-- A slot that a formula evaluates changes with the temperature by the chain rule. -/
theorem hasDerivAt_slot (ht : t ≠ 0) {a : Formula ℝ} {slot : ℝ → ℝ}
    (ha : a.SmoothAt (m.reducedTemperature t) (m.reducedDensity d))
    (hslot : ∀ τ, τ ≠ 0 → slot τ = a.value (m.reducedTemperature τ) (m.reducedDensity d)) :
    HasDerivAt slot ((a.deriv .x).value (m.reducedTemperature t) (m.reducedDensity d) *
      -(m.tc / t ^ 2)) t := by
  have hconst : HasDerivAt (fun _ => m.reducedDensity d) 0 t := hasDerivAt_const t _
  have hvalue := Formula.hasDerivAt_value (m.hasDerivAt_reducedTemperature ht) hconst ha
  rw [mul_zero, add_zero] at hvalue
  refine hvalue.congr_of_eventuallyEq ?_
  filter_upwards [eventually_ne_nhds ht] with τ hτ
  exact hslot τ hτ

section Temperature
variable (htc : m.tc ≠ 0) (ht : t ≠ 0) (hy : m.reducedDensity d ≠ 0)
include htc ht hy

theorem hasDerivAt_totalAt_f : HasDerivAt (fun τ => (m.totalAt τ d .second).f)
    ((m.totalAt t d .second).fx * -(m.tc / t ^ 2)) t := by
  have hx : ∀ τ, τ ≠ 0 → m.reducedTemperature τ ≠ 0 := fun τ hτ => div_ne_zero htc hτ
  have hsmooth := m.smoothAt_sliceFormula (hx t ht) hy
  have hfx : (m.totalAt t d .second).fx = ((m.sliceFormula d).deriv .x).value
      (m.reducedTemperature t) (m.reducedDensity d) :=
    congrArg Jet1.fx (m.sliceX_totalAt (hx t ht) hy)
  rw [hfx]
  refine m.hasDerivAt_slot ht hsmooth fun τ hτ => ?_
  exact congrArg Jet1.f (m.sliceX_totalAt (hx τ hτ) hy)

theorem hasDerivAt_totalAt_fx : HasDerivAt (fun τ => (m.totalAt τ d .second).fx)
    ((m.totalAt t d .second).fxx * -(m.tc / t ^ 2)) t := by
  have hx : ∀ τ, τ ≠ 0 → m.reducedTemperature τ ≠ 0 := fun τ hτ => div_ne_zero htc hτ
  have hsmooth := Formula.smoothAt_deriv .x (m.smoothAt_sliceFormula (hx t ht) hy)
  have hfxx : (m.totalAt t d .second).fxx = (((m.sliceFormula d).deriv .x).deriv .x).value
      (m.reducedTemperature t) (m.reducedDensity d) :=
    congrArg Jet1.fxx (m.sliceX_totalAt (hx t ht) hy)
  rw [hfxx]
  refine m.hasDerivAt_slot ht hsmooth fun τ hτ => ?_
  exact congrArg Jet1.fx (m.sliceX_totalAt (hx τ hτ) hy)

theorem hasDerivAt_freeEnergyAt :
    HasDerivAt (fun τ => m.freeEnergyAt τ d) (-m.entropyAt t d) t := by
  have hrt : HasDerivAt (fun τ => m.r * τ) (m.r * 1) t := (hasDerivAt_id t).const_mul m.r
  refine (hrt.mul (m.hasDerivAt_totalAt_f htc ht hy)).congr_deriv ?_
  rw [entropyAt_eq, reducedTemperature]
  field_simp
  ring

theorem hasDerivAt_energyAt :
    HasDerivAt (fun τ => m.energyAt τ d) (m.heatCapacityAt t d) t := by
  have hrt : HasDerivAt (fun τ => m.r * τ) (m.r * 1) t := (hasDerivAt_id t).const_mul m.r
  have hslope := (m.hasDerivAt_reducedTemperature ht).mul (m.hasDerivAt_totalAt_fx htc ht hy)
  simp only [energyAt_eq]
  refine (hrt.mul hslope).congr_deriv ?_
  simp only [Pi.mul_apply, heatCapacityAt_eq, reducedTemperature]
  field_simp
  ring

theorem hasDerivAt_entropyAt :
    HasDerivAt (fun τ => m.entropyAt τ d) (m.heatCapacityAt t d / t) t := by
  have hslope := (m.hasDerivAt_reducedTemperature ht).mul (m.hasDerivAt_totalAt_fx htc ht hy)
  have hvalue := m.hasDerivAt_totalAt_f htc ht hy
  simp only [entropyAt_eq]
  refine ((hslope.sub hvalue).const_mul m.r).congr_deriv ?_
  simp only [heatCapacityAt_eq, reducedTemperature]
  field_simp
  ring

end Temperature

section Density
variable {bs : List (Block ℝ)} (hbs : m.residual = .ofList bs) (hcount : Residual.FitsCounter bs)
  (hx : m.reducedTemperature t ≠ 0) (hdc : m.dc ≠ 0) (hd : d ≠ 0)
include hbs hcount hx hdc

theorem totalAt_jet_formula {δ : ℝ} (hδ : δ ≠ 0) :
    m.totalAt t δ .second = (m.idealGas.formula + energyFormula bs).jet (m.reducedTemperature t)
      (m.reducedDensity δ) := by
  have hy : m.reducedDensity δ ≠ 0 := div_ne_zero hδ hdc
  have hbases := energyFormula_basesNonzero hx hy bs
  have hresidual : m.residualAt t δ .second =
      (energyFormula bs).jet (m.reducedTemperature t) (m.reducedDensity δ) := by
    rw [residualAt, hbs, ← Formula.jet_reduce real_pow_natCast _ _ hbases]
    exact (Residual.jet_formula real_pow_natCast hcount ⟨.inl hx, .inl hy⟩).symm
  rw [totalAt, hresidual, Formula.jet_add, IdealGas.jet_formula]
  rfl

include hd

theorem hasDerivAt_totalAt_f_density : HasDerivAt (fun δ => (m.totalAt t δ .second).f)
    ((m.totalAt t d .second).fy * (1 / m.dc)) d := by
  have hy : m.reducedDensity d ≠ 0 := div_ne_zero hd hdc
  have hconst : HasDerivAt (fun _ => m.reducedTemperature t) 0 d := hasDerivAt_const d _
  have hsmooth : (m.idealGas.formula + energyFormula bs).SmoothAt (m.reducedTemperature t)
      (m.reducedDensity d) := ⟨m.idealGas.smoothAt_formula hx hy, smoothAt_energyFormula hx hy bs⟩
  have hvalue := Formula.hasDerivAt_value hconst m.hasDerivAt_reducedDensity hsmooth
  rw [mul_zero, zero_add] at hvalue
  rw [m.totalAt_jet_formula hbs hcount hx hdc hd]
  refine hvalue.congr_of_eventuallyEq ?_
  filter_upwards [eventually_ne_nhds hd] with δ hδ
  rw [m.totalAt_jet_formula hbs hcount hx hdc hδ]
  rfl

theorem hasDerivAt_freeEnergyAt_density :
    HasDerivAt (fun δ => m.freeEnergyAt t δ) (m.pressureAt t d / d ^ 2) d := by
  have hy : m.reducedDensity d ≠ 0 := div_ne_zero hd hdc
  have hvalue := m.hasDerivAt_totalAt_f_density hbs hcount hx hdc hd
  refine (hvalue.const_mul (m.r * t)).congr_deriv ?_
  rw [pressureAt, m.compressibilityAt_eq t d hy, reducedDensity]
  field_simp

end Density

/-- The value does not depend on the order, and so neither does the Helmholtz energy. -/
theorem totalAt_f_of_order (o : Order) : (m.totalAt t d o).f = (m.totalAt t d .second).f := by
  have hle : o ≤ Order.second := by
    cases o <;> decide
  have hideal := m.idealGas.agreeUpTo_eval hle (m.reducedTemperature t) (m.reducedDensity d)
  have hresidual := m.residual.agreeUpTo_eval hle (m.reducedTemperature t) (m.reducedDensity d)
  exact (hideal.add hresidual).f

end Fit

/-- The pressure is `d²` times the derivative of the Helmholtz energy by density, the entropy the
negative of its derivative by temperature, and the heat capacity the derivative of the energy by
temperature and `t` times that of the entropy; the Helmholtz energy and the properties are the
functions that batches evaluate at every pair. Only the derivative by density reads the exponents
of the weights, and so needs them to be counted. -/
theorem properties_hasDerivAt {s : Substance ℝ} {m : Fit ℝ} (hm : Fit.ofSubstance? s = .ok m)
    (htc : 0 < m.tc) (hdc : 0 < m.dc) :
    (∀ (ts ds : List ℝ) o, ts.length = ds.length →
      (∃ c, m.helmholtz? ts ds o = .ok c ∧
        List.zipWith (fun t f => m.r * t * f) ts c.total.f = List.zipWith m.freeEnergyAt ts ds) ∧
      ∀ q, m.property? q ts ds = .ok (List.zipWith (m.propertyAt q) ts ds)) ∧
    ∀ t d : ℝ, 0 < t → 0 < d →
      (Residual.FitsCounter s.record.blocks →
        ∃ a', HasDerivAt (fun δ => m.freeEnergyAt t δ) a' d ∧
          m.propertyAt .pressure t d = d ^ 2 * a') ∧
      (∃ a', HasDerivAt (fun τ => m.freeEnergyAt τ d) a' t ∧
        m.propertyAt .entropy t d = -a') ∧
      (∃ e', HasDerivAt (fun τ => m.propertyAt .energy τ d) e' t ∧
        m.propertyAt .heatCapacity t d = e') ∧
      (∃ s', HasDerivAt (fun τ => m.propertyAt .entropy τ d) s' t ∧
        m.propertyAt .heatCapacity t d = t * s') := by
  constructor
  · intro ts ds o hlen
    constructor
    · obtain ⟨c, hc, htotal⟩ := m.helmholtz?_of_length_eq hlen o
      refine ⟨c, hc, ?_⟩
      rw [htotal]
      apply List.ext_getElem?
      intro i
      simp only [Columns2.ofJets, List.map_zipWith, List.getElem?_zipWith]
      cases ts[i]? with
      | none => rfl
      | some t =>
        cases ds[i]? with
        | none => rfl
        | some d => exact congrArg (fun f => some (m.r * t * f)) (m.totalAt_f_of_order o)
    · intro q
      exact mapPairs?_of_length_eq _ hlen
  · intro t d ht hd
    have ht₀ : t ≠ 0 := ht.ne'
    have hd₀ : d ≠ 0 := hd.ne'
    have hx : m.reducedTemperature t ≠ 0 := div_ne_zero htc.ne' ht₀
    have hy : m.reducedDensity d ≠ 0 := div_ne_zero hd₀ hdc.ne'
    refine ⟨?pressure, ?entropy, ?energy, ?heatCapacity⟩
    case pressure =>
      intro hcount
      obtain ⟨r, hr, rfl⟩ := Fit.ofSubstance?_ok hm
      obtain ⟨bs, hbs, rfl⟩ := Residual.ofBlocks?_ok hr
      have hcount' : Residual.FitsCounter bs := hcount.of_mapM_ok hbs
      refine ⟨_, Fit.hasDerivAt_freeEnergyAt_density _ rfl hcount' hx hdc.ne' hd₀, ?_⟩
      change Fit.pressureAt _ _ _ = _
      field_simp
    case entropy =>
      refine ⟨_, m.hasDerivAt_freeEnergyAt htc.ne' ht₀ hy, ?_⟩
      exact (neg_neg _).symm
    case energy => exact ⟨_, m.hasDerivAt_energyAt htc.ne' ht₀ hy, rfl⟩
    case heatCapacity =>
      refine ⟨_, m.hasDerivAt_entropyAt htc.ne' ht₀ hy, ?_⟩
      exact (mul_div_cancel₀ _ ht₀).symm

theorem ofSubstance?_sampleSubstance : Fit.ofSubstance? sampleSubstance = .ok sampleFit := by
  have hread : Residual.ofBlocks? sampleSubstance.record.blocks = .ok (.ofList sampleBlocks) :=
    Residual.ofBlocks?_rows real_exponent?_natCast sampleBlocks
  unfold Fit.ofSubstance?
  simp only [hread]
  rfl

theorem sampleFit_hasDerivAt : Fit.ofSubstance? sampleSubstance = .ok sampleFit ∧
    (∃ a', HasDerivAt (fun δ => sampleFit.freeEnergyAt 300 δ) a' 8 ∧
      sampleFit.propertyAt .pressure 300 8 = 8 ^ 2 * a') ∧
    ∃ s', HasDerivAt (fun τ => sampleFit.propertyAt .entropy τ 8) s' 300 ∧
      sampleFit.propertyAt .heatCapacity 300 8 = 300 * s' := by
  have hm := ofSubstance?_sampleSubstance
  have htc : 0 < sampleFit.tc := by norm_num [sampleFit, sampleSubstance]
  have hdc : 0 < sampleFit.dc := by norm_num [sampleFit, sampleSubstance]
  have hcount : Residual.FitsCounter sampleSubstance.record.blocks := by
    simp [Residual.FitsCounter, sampleSubstance, sampleBlocks]
  obtain ⟨hpressure, -, -, hheat⟩ :=
    (properties_hasDerivAt hm htc hdc).2 300 8 (by norm_num) (by norm_num)
  exact ⟨hm, hpressure hcount, hheat⟩

end Helmholtz
