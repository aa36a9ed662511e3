import Helmholtz.Proofs.HelmholtzEnergy
import Helmholtz.Proofs.OrderIndependence

/-! The properties agree with each other and with the reduced Helmholtz energy.

Each property is evaluated on its own, from slots of the first or of the second order. The identities
need the laws of a field, and none of the transcendental functions. -/

namespace Helmholtz
universe u v

section Batches
variable {α : Type u}

/-- The jet at one position of the columns. -/
def Columns2.jetAt? (c : Columns2 α) (i : ℕ) : Option (Jet2 α) := do
  let f ← c.f[i]?
  let fx ← c.fx[i]?
  let fy ← c.fy[i]?
  let fxx ← c.fxx[i]?
  let fxy ← c.fxy[i]?
  let fyy ← c.fyy[i]?
  some ⟨f, fx, fy, fxx, fxy, fyy⟩

theorem Columns2.jetAt?_ofJets (js : List (Jet2 α)) (i : ℕ) : (ofJets js).jetAt? i = js[i]? := by
  unfold jetAt? ofJets
  simp only [List.getElem?_map]
  cases js[i]? with
  | none => rfl
  | some a => rfl

theorem mapPairs?_of_length_eq {β : Type v} (f : α → α → β) {xs ys : List α}
    (h : xs.length = ys.length) : mapPairs? f xs ys = .ok (List.zipWith f xs ys) := by
  unfold mapPairs?
  rw [if_pos h]

end Batches

namespace Fit

section Totals
variable {α : Type u} [Zero α] [One α] [Add α] [Sub α] [Mul α] [Neg α] [Div α] [NatCast α]
  [IntCast α] [Transcendental α] [BEq α]

/-- The reduced Helmholtz energy at a temperature and a density. -/
def totalAt (m : Fit α) (t d : α) (o : Order) : Jet2 α := m.idealGasAt t d o + m.residualAt t d o

theorem helmholtz?_of_length_eq (m : Fit α) {ts ds : List α} (h : ts.length = ds.length)
    (o : Order) : ∃ c, m.helmholtz? ts ds o = .ok c ∧
      c.total = .ofJets (List.zipWith (fun t d => m.totalAt t d o) ts ds) := by
  unfold helmholtz?
  rw [mapPairs?_of_length_eq _ h]
  refine ⟨_, rfl, ?_⟩
  dsimp only
  rw [List.map_zipWith]
  rfl

/-- One position of a batch, of the columns and of all properties. -/
theorem batch_entry (m : Fit α) {ts ds : List α} {i : ℕ} {t d : α} (ht : ts[i]? = some t)
    (hd : ds[i]? = some d) {c : HelmholtzColumns α} {o : Order}
    (hc : c.total = .ofJets (List.zipWith (fun t d => m.totalAt t d o) ts ds)) :
    c.total.jetAt? i = some (m.totalAt t d o) ∧
      ∀ q, (List.zipWith (m.propertyAt q) ts ds)[i]? = some (m.propertyAt q t d) := by
  constructor
  · rw [hc, Columns2.jetAt?_ofJets]
    exact List.getElem?_zipWith_eq_some.mpr ⟨t, d, ht, hd, rfl⟩
  · intro q
    exact List.getElem?_zipWith_eq_some.mpr ⟨t, d, ht, hd, rfl⟩

end Totals

section Slots
variable {α : Type u} [Field α] [Transcendental α] [BEq α] (m : Fit α) (t d : α)

omit [BEq α] in
theorem idealGasAt_agreeUpTo :
    (m.idealGasAt t d .first).AgreeUpTo .first (m.idealGasAt t d .second) := by
  have hle : Order.first ≤ Order.second := by decide
  exact m.idealGas.agreeUpTo_eval hle _ _

theorem residualAt_agreeUpTo :
    (m.residualAt t d .first).AgreeUpTo .first (m.residualAt t d .second) := by
  have hle : Order.first ≤ Order.second := by decide
  exact m.residual.agreeUpTo_eval hle _ _

theorem totalAt_f :
    (m.idealGasAt t d .first).f + (m.residualAt t d .first).f = (m.totalAt t d .second).f := by
  rw [(m.idealGasAt_agreeUpTo t d).f, (m.residualAt_agreeUpTo t d).f]
  rfl

theorem totalAt_fx :
    (m.idealGasAt t d .first).fx + (m.residualAt t d .first).fx = (m.totalAt t d .second).fx := by
  rw [(m.idealGasAt_agreeUpTo t d).fx rfl, (m.residualAt_agreeUpTo t d).fx rfl]
  rfl

/-- The ideal gas part contributes exactly one to the compressibility factor. -/
theorem compressibilityAt_eq (h : m.reducedDensity d ≠ 0) :
    m.compressibilityAt t d = m.reducedDensity d * (m.totalAt t d .second).fy := by
  have hideal : (m.idealGasAt t d .second).fy = 1 / m.reducedDensity d := rfl
  have hresidual : (m.residualAt t d .first).fy = (m.residualAt t d .second).fy :=
    (m.residualAt_agreeUpTo t d).fy rfl
  have htotal : (m.totalAt t d .second).fy =
      1 / m.reducedDensity d + (m.residualAt t d .second).fy := by
    rw [← hideal]
    rfl
  rw [compressibilityAt, hresidual, htotal, mul_add, mul_one_div_cancel h]

theorem energyAt_eq :
    m.energyAt t d = m.r * t * (m.reducedTemperature t * (m.totalAt t d .second).fx) := by
  rw [energyAt, totalAt_fx]
  ring

theorem enthalpyAt_eq : m.enthalpyAt t d = m.energyAt t d + m.r * t * m.compressibilityAt t d := by
  simp only [enthalpyAt, energyAt, compressibilityAt]
  ring

theorem entropyAt_eq : m.entropyAt t d = m.r *
    (m.reducedTemperature t * (m.totalAt t d .second).fx - (m.totalAt t d .second).f) := by
  rw [← totalAt_f, ← totalAt_fx]
  simp only [entropyAt]
  ring

theorem heatCapacityAt_eq : m.heatCapacityAt t d =
    -m.r * m.reducedTemperature t ^ 2 * (m.totalAt t d .second).fxx := by
  have htotal : (m.totalAt t d .second).fxx =
      (m.idealGasAt t d .second).fxx + (m.residualAt t d .second).fxx := rfl
  rw [heatCapacityAt, htotal]
  ring

end Slots

end Fit

/-- At every index of a batch, all properties are what thermodynamics makes of the reduced Helmholtz
energy `a` and its derivatives that the batch reports there. -/
theorem property_identities {α : Type u} [Field α] [Transcendental α] [BEq α] (m : Fit α)
    (hdc : m.dc ≠ 0) {ts ds : List α} (hlen : ts.length = ds.length) (ht : ∀ t ∈ ts, t ≠ 0)
    (hd : ∀ d ∈ ds, d ≠ 0) :
    ∃ (c : HelmholtzColumns α) (v : Property → List α),
      m.helmholtz? ts ds .second = .ok c ∧ (∀ q, m.property? q ts ds = .ok (v q)) ∧
      ∀ i < ts.length, ∃ (t d : α) (a : Jet2 α) (w : Property → α),
        ts[i]? = some t ∧ ds[i]? = some d ∧ c.total.jetAt? i = some a ∧
        (∀ q, (v q)[i]? = some (w q)) ∧
        w .pressure = m.r * t * d * (d / m.dc) * a.fy ∧
        w .pressure = w .compressibility * m.r * t * d ∧
        w .energy = m.r * t * (m.tc / t) * a.fx ∧
        w .enthalpy = w .energy + w .pressure / d ∧
        t * w .entropy = w .energy - m.r * t * a.f ∧
        w .heatCapacity = -m.r * (m.tc / t) ^ 2 * a.fxx := by
  obtain ⟨c, hc, htotal⟩ := m.helmholtz?_of_length_eq hlen .second
  refine ⟨c, fun q => List.zipWith (m.propertyAt q) ts ds, hc, ?_, ?_⟩
  · intro q
    exact mapPairs?_of_length_eq _ hlen
  · intro i hi
    have hi' : i < ds.length := hlen ▸ hi
    have hti : ts[i]? = some ts[i] := List.getElem?_eq_getElem hi
    have hdi : ds[i]? = some ds[i] := List.getElem?_eq_getElem hi'
    have ht₀ : ts[i] ≠ 0 := ht _ (List.getElem_mem hi)
    have hd₀ : ds[i] ≠ 0 := hd _ (List.getElem_mem hi')
    have hdd : m.reducedDensity ds[i] ≠ 0 := div_ne_zero hd₀ hdc
    obtain ⟨hentry, hproperties⟩ := m.batch_entry hti hdi htotal
    have hz := m.compressibilityAt_eq ts[i] ds[i] hdd
    have he := m.energyAt_eq ts[i] ds[i]
    refine ⟨ts[i], ds[i], _, fun q => m.propertyAt q ts[i] ds[i], hti, hdi, hentry, hproperties,
      ?pressure, ?compressibility, ?energy, ?enthalpy, ?entropy, ?heatCapacity⟩
    case pressure =>
      change m.pressureAt _ _ = m.r * ts[i] * ds[i] * m.reducedDensity ds[i] * _
      rw [Fit.pressureAt, hz]
      ring
    case compressibility =>
      change m.pressureAt _ _ = m.compressibilityAt _ _ * _ * _ * _
      rw [Fit.pressureAt]
      ring
    case energy =>
      change m.energyAt _ _ = m.r * ts[i] * m.reducedTemperature ts[i] * _
      rw [he]
      ring
    case enthalpy =>
      change m.enthalpyAt _ _ = m.energyAt _ _ + m.pressureAt _ _ / _
      rw [Fit.enthalpyAt_eq, Fit.pressureAt]
      field_simp
    case entropy =>
      change _ * m.entropyAt _ _ = m.energyAt _ _ - _
      rw [Fit.entropyAt_eq, he]
      ring
    case heatCapacity => exact m.heatCapacityAt_eq ts[i] ds[i]

noncomputable def sampleFit : Fit ℝ :=
  let m := sampleSubstance.record
  ⟨sampleSubstance.identifier, sampleSubstance.molarWeight, m.tc, m.dc, m.r, m.idealGas,
    .ofList sampleBlocks⟩

theorem sampleFit_identities : ∃ (c : HelmholtzColumns ℝ) (p : List ℝ) (a : Jet2 ℝ) (w : ℝ),
    sampleFit.helmholtz? [300, 450] [8, 2] .second = .ok c ∧
    sampleFit.property? .pressure [300, 450] [8, 2] = .ok p ∧
    c.total.jetAt? 1 = some a ∧ p[1]? = some w ∧ w = 8 * 450 * 2 * (2 / 4) * a.fy := by
  have hdc : sampleFit.dc ≠ 0 := by norm_num [sampleFit, sampleSubstance]
  have hlen : [(300 : ℝ), 450].length = [(8 : ℝ), 2].length := rfl
  have ht : ∀ t ∈ [(300 : ℝ), 450], t ≠ 0 := by simp
  have hd : ∀ d ∈ [(8 : ℝ), 2], d ≠ 0 := by simp
  obtain ⟨c, v, hc, hv, h⟩ := property_identities sampleFit hdc hlen ht hd
  obtain ⟨t, d, a, w, h₁, h₂, ha, hw, hpressure, -⟩ := h 1 (by decide)
  cases h₁
  cases h₂
  exact ⟨c, v .pressure, a, w .pressure, hc, hv _, ha, hw _, hpressure⟩

end Helmholtz
