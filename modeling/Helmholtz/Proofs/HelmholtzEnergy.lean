import Helmholtz.Proofs.BlockRows
import Helmholtz.Proofs.TrivialPowers

/-! The fit evaluates the documented Helmholtz energy and its derivatives. -/

namespace Helmholtz
universe u v

section Formulas
variable {α : Type u} [Zero α] [One α]

/-- `x ^ postX * y ^ postY` times the sum of `c * (x ^ preX) ^ i * (y ^ preY) ^ j`. -/
def Block.formula (b : Block α) : Formula α :=
  .pow (.var .x) b.postX * .pow (.var .y) b.postY *
    b.polynomial.formula (.pow (.var .x) b.preX) (.pow (.var .y) b.preY)

/-- The exponential function of `-y ^ k`. -/
def weightFormula (k : ℕ) : Formula α := .exp (-(Formula.var .y).npow k)

/-- The first block plus the sum of the `k`-th block after it times its weight. -/
def energyFormula : List (Block α) → Formula α
  | [] => .const 0
  | b :: rest => b.formula + .sum ((rest.zipIdx 1).map fun (b, k) => weightFormula k * b.formula)

/-- `c0 + c1 x + c2 ln x + c3 x ^ (-1/2) + c4 x ^ (-3/4) + ln y` -/
def IdealGas.formula [Neg α] [Div α] [NatCast α] (g : IdealGas α) : Formula α :=
  .const g.c0 + .const g.c1 * .var .x + .const g.c2 * .log (.var .x) +
    .const g.c3 * .pow (.var .x) (-(1 / (2 : ℕ))) +
    .const g.c4 * .pow (.var .x) (-((3 : ℕ) / (4 : ℕ))) + .log (.var .y)

end Formulas

/-- Neither variable is zero, unless no block transforms it. -/
def RegularAt {α : Type u} [Zero α] [One α] (bs : List (Block α)) (x y : α) : Prop :=
  (x ≠ 0 ∨ ∀ b ∈ bs, b.preX = 1 ∧ b.postX = 0) ∧ (y ≠ 0 ∨ ∀ b ∈ bs, b.preY = 1 ∧ b.postY = 0)

variable {α : Type u} [Field α] [Transcendental α]

section Weights
variable {k : Int32} {n : ℕ} (hk : k.toInt = n) (hn : 1 ≤ n) (x y : α)
include hk hn

/-- The weight of a block whose exponent fits into 32 bits follows the chain rule. Up to `k = 1` the
part of the second derivative that is passed over vanishes. -/
theorem WeightedBlock.weight_second : weight k y .second =
    (⟨exp (-y ^ n), exp (-y ^ n), exp (-y ^ n)⟩ : Jet1 α).compose (-.var y ^ n) .second := by
  have hcast : (k.toInt : α) = n := by rw [hk, Int.cast_natCast]
  have h₀ : intPow y k = y ^ n := intPow_of_toInt y hk
  have h₁ : intPow y (k - 1) = y ^ (n - 1) := intPow_of_toInt y (toInt_sub_natCast hk rfl hn)
  have hsecond : ∀ s : α,
      (if 1 < k then s - n * (n - 1) * intPow y (k - 2) else s) =
        s - n * (n - 1) * y ^ (n - 2) := by
    intro s
    have hlt : 1 < k ↔ 1 < n := by
      rw [Int32.lt_iff_toInt_lt, hk, Int32.toInt_one]
      omega
    by_cases h : 1 < n
    · rw [if_pos (hlt.2 h), intPow_of_toInt y (toInt_sub_natCast hk rfl h)]
    · obtain rfl : n = 1 := by omega
      rw [if_neg (fun h' => h (hlt.1 h'))]
      simp
  rw [Jet1.var_pow]
  simp only [weight, hcast, h₀, h₁, hsecond, Jet1.compose, Order.hasFirst, Order.hasSecond, if_true]
  ext
  · rfl
  · change _ = exp (-y ^ n) * -(n * y ^ (n - 1))
    ring
  · change _ = exp (-y ^ n) * -(n * y ^ (n - 1)) * -(n * y ^ (n - 1)) +
      exp (-y ^ n) * -(n * (n - 1) * y ^ (n - 2))
    ring

theorem jet_weightFormula :
    (weightFormula n).jet x y = .ofY (WeightedBlock.weight k y .second) := by
  have hinner : (-(Formula.var .y).npow n : Formula α).jet x y =
      Jet2.along .y (-.var y ^ n) := by
    rw [Formula.jet_neg, Formula.jet_npow, Formula.jet_var, ← map_pow, ← map_neg]
    rfl
  have hvalue : (-(Formula.var .y).npow n : Formula α).value x y = -y ^ n := by
    rw [← Formula.jet_f, hinner, Jet2.along_f, Jet1.var_pow]
    rfl
  rw [weightFormula, Formula.jet_exp, hinner, hvalue, Jet2.chainHom_along,
    WeightedBlock.weight_second hk hn]
  rfl

end Weights

section IdealGas
variable [CharZero α]

theorem IdealGas.eval_second (g : IdealGas α) (x y : α) : g.eval x y .second =
    .constant g.c0 + .constant g.c1 * .varX x +
      .constant g.c2 * .ofX (Elementary1.evalLog x .second) +
      .constant g.c3 * .ofX (Elementary1.evalPower (-(1 / (2 : ℕ))) x .second) +
      .constant g.c4 * .ofX (Elementary1.evalPower (-((3 : ℕ) / (4 : ℕ))) x .second) +
      .ofY (Elementary1.evalLog y .second) := by
  simp only [Elementary1.evalLog_second, Elementary1.evalPower_second]
  ext <;> simp [eval, Jet2.mul_def, Jet2.constant, Jet2.ofX, Jet2.ofY, Jet1.identity,
    Order.hasFirst, Order.hasSecond] <;> ring

theorem IdealGas.jet_formula (g : IdealGas α) (x y : α) :
    g.formula.jet x y = g.eval x y .second := by
  have hpow : ∀ p : α, (Formula.pow (.var .x) p).jet x y =
      .ofX (Elementary1.evalPower p x .second) := by
    intro p
    exact Elementary1.jet_formula_var x y (.power p) .x
  have hx : (Formula.log (.var .x)).jet x y = .ofX (Elementary1.evalLog x .second) :=
    Elementary1.jet_formula_var x y .log .x
  have hy : (Formula.log (.var .y)).jet x y = .ofY (Elementary1.evalLog y .second) :=
    Elementary1.jet_formula_var x y .log .y
  rw [eval_second, formula]
  simp only [Formula.jet_add, Formula.jet_mul, Formula.jet_const, Formula.jet_var, hx, hy, hpow]
  rfl

end IdealGas

section Blocks
variable [DecidableEq α]

omit [Transcendental α] in
theorem Polynomial2.reduce_formula (p : Polynomial2 α) (u v : Formula α) :
    (p.formula u v).reduce = p.formula u.reduce v.reduce := by
  rw [formula, formula, Formula.reduce_sum, List.map_map]
  congr 1
  refine List.map_congr_left fun t _ => ?_
  simp only [Function.comp_apply, Formula.reduce_mul, Formula.reduce_npow]
  rfl

omit [Transcendental α] in
theorem reduce_weightFormula (k : ℕ) : (weightFormula k : Formula α).reduce = weightFormula k := by
  change (Formula.exp (-((Formula.var .y).npow k).reduce) : Formula α) = _
  rw [Formula.reduce_npow]
  rfl

theorem Residual.eval_ofList_nil (x y : α) :
    (ofList ([] : List (Block α))).eval x y .second = 0 := by
  have hzero : Block.zero.eval x y .second = (.zero : Jet2 α) := by
    simp [Block.zero, Block.eval, Block.evalPre, Polynomial2.horner, Polynomial2.degreeX?,
      Polynomial2.empty]
  exact hzero

/-- The number of every block after the first one fits 32 bits with sign. -/
theorem Residual.FitsCounter.lt {β : Type v} {b : β} {rest : List β}
    (hcount : FitsCounter (b :: rest)) {k : ℕ} (hk : k < 1 + rest.length) : k < 2 ^ 31 := by
  have hlen : (b :: rest).length ≤ 2 ^ 31 := hcount
  rw [List.length_cons] at hlen
  omega

/-- The weighted blocks are added to the first one, each with its number in place of the exponent in
32 bits. -/
theorem Residual.eval_ofList_cons {b : Block α} {rest : List (Block α)}
    (hcount : FitsCounter (b :: rest)) {x y : α} {weighted : Block α × ℕ → Jet2 α}
    (h : ∀ c ∈ rest, ∀ k, 1 ≤ k → k < 2 ^ 31 →
      WeightedBlock.eval ⟨.ofNat k, c⟩ x y .second = weighted (c, k)) :
    (ofList (b :: rest)).eval x y .second =
      b.eval x y .second + ((rest.zipIdx 1).map weighted).sum := by
  rw [ofList, eval, foldl_add_eq_sum, WeightedBlock.numbered, List.map_map]
  congr 2
  refine List.map_congr_left fun ⟨c, k⟩ hk => ?_
  obtain ⟨hk₁, hk₂, -⟩ := List.mem_zipIdx hk
  exact h c (List.fst_mem_of_mem_zipIdx hk) k hk₁ (hcount.lt hk₂)

theorem Block.jet_formula (htrivial : TrivialPowers α) (b : Block α) {x y : α}
    (hx : x ≠ 0 ∨ b.postX = 0) (hy : y ≠ 0 ∨ b.postY = 0) :
    b.formula.reduce.jet x y = b.eval x y .second := by
  have hX : ∀ p : α, ((Formula.var .x).pow p).reduce.jet x y = .ofX (.reducedPower p x) := by
    intro p
    exact Formula.jet_reduce_pow_var .x p x y
  have hY : ∀ p : α, ((Formula.var .y).pow p).reduce.jet x y = .ofY (.reducedPower p y) := by
    intro p
    exact Formula.jet_reduce_pow_var .y p x y
  rw [formula, Formula.reduce_mul, Formula.reduce_mul, Polynomial2.reduce_formula, Formula.jet_mul,
    Formula.jet_mul, Polynomial2.jet_formula, hX, hX, hY, hY, eval_second htrivial b hx hy]
  ring

theorem WeightedBlock.jet_formula (htrivial : TrivialPowers α) (b : Block α) {k : ℕ} (hk : 1 ≤ k)
    (hlt : k < 2 ^ 31) {x y : α} (hx : x ≠ 0 ∨ b.postX = 0) (hy : y ≠ 0 ∨ b.postY = 0) :
    (weightFormula k * b.formula).reduce.jet x y =
      WeightedBlock.eval ⟨.ofNat k, b⟩ x y .second := by
  have hweight := jet_weightFormula (Int32.toInt_ofNat_of_lt hlt) hk x y
  rw [Formula.reduce_mul, reduce_weightFormula, Formula.jet_mul, b.jet_formula htrivial hx hy, eval,
    Jet2.product_second, hweight, mul_comm]

/-- The residual of a list of blocks, with the exponents of all weights in 32 bits. -/
theorem Residual.jet_formula
    (hpow : ∀ (v : α) (n : ℕ), Transcendental.pow v (n : α) = v ^ n) {bs : List (Block α)}
    (hcount : FitsCounter bs) {x y : α} (h : RegularAt bs x y) :
    (energyFormula bs).reduce.jet x y = (ofList bs).eval x y .second := by
  have htrivial := TrivialPowers.of_natCast hpow
  have hx : ∀ b ∈ bs, x ≠ 0 ∨ b.postX = 0 := fun b hb => h.1.imp_right fun h => (h b hb).2
  have hy : ∀ b ∈ bs, y ≠ 0 ∨ b.postY = 0 := fun b hb => h.2.imp_right fun h => (h b hb).2
  cases bs with
  | nil =>
    rw [eval_ofList_nil]
    rfl
  | cons b rest =>
    rw [energyFormula, Formula.reduce_add, Formula.reduce_sum, Formula.jet_add, Formula.jet_sum,
      List.map_map, List.map_map, b.jet_formula htrivial (hx b (by simp)) (hy b (by simp))]
    refine (eval_ofList_cons hcount fun c hc k hk hlt => ?_).symm
    have hc' : c ∈ b :: rest := List.mem_cons_of_mem b hc
    exact (WeightedBlock.jet_formula htrivial c hk hlt (hx c hc') (hy c hc')).symm

end Blocks

section BasesNonzero
variable {x y : α} (hx : x ≠ 0) (hy : y ≠ 0)
include hx hy

theorem Block.basesNonzero_formula (b : Block α) : b.formula.BasesNonzero x y := by
  have hX : ∀ p : α, ((Formula.var .x).pow p).BasesNonzero x y := fun _ => ⟨trivial, hx⟩
  have hY : ∀ p : α, ((Formula.var .y).pow p).BasesNonzero x y := fun _ => ⟨trivial, hy⟩
  refine ⟨⟨hX _, hY _⟩, Formula.basesNonzero_sum fun a ha => ?_⟩
  obtain ⟨t, -, rfl⟩ := List.mem_map.mp ha
  exact ⟨⟨trivial, Formula.basesNonzero_npow (hX _) _⟩, Formula.basesNonzero_npow (hY _) _⟩

theorem energyFormula_basesNonzero (bs : List (Block α)) :
    (energyFormula bs).BasesNonzero x y := by
  cases bs with
  | nil => trivial
  | cons b rest =>
    refine ⟨b.basesNonzero_formula hx hy, Formula.basesNonzero_sum fun a ha => ?_⟩
    obtain ⟨⟨c, k⟩, -, rfl⟩ := List.mem_map.mp ha
    have hy' : (Formula.var .y : Formula α).BasesNonzero x y := trivial
    exact ⟨Formula.basesNonzero_npow hy' k, c.basesNonzero_formula hx hy⟩

end BasesNonzero

/-- The values of a formula and of its partial derivatives at a list of points. -/
def Formula.columns (a : Formula α) (points : List (α × α)) : Columns2 α where
  f := points.map fun p => a.value p.1 p.2
  fx := points.map fun p => (a.deriv .x).value p.1 p.2
  fy := points.map fun p => (a.deriv .y).value p.1 p.2
  fxx := points.map fun p => ((a.deriv .x).deriv .x).value p.1 p.2
  fxy := points.map fun p => ((a.deriv .x).deriv .y).value p.1 p.2
  fyy := points.map fun p => ((a.deriv .y).deriv .y).value p.1 p.2

/-- Collecting the jets of a formula gives, slot by slot, the values of its derivatives. -/
theorem Formula.ofJets_jet (a : Formula α) (points : List (α × α)) :
    .ofJets (points.map fun p => a.jet p.1 p.2) = a.columns points := by
  simp only [Columns2.ofJets, List.map_map]
  rfl

/-- The reduced variables for pairs of temperatures and densities. -/
def reducedPoints (tc dc : α) (ts ds : List α) : List (α × α) :=
  (ts.zip ds).map fun p => (tc / p.1, p.2 / dc)

/-- A batch evaluates both parts at each of the reduced points. -/
theorem Fit.helmholtz?_second [DecidableEq α] (m : Fit α) {ts ds : List α}
    (hlen : ts.length = ds.length) {ideal residual : Formula α}
    (hideal : ∀ p ∈ reducedPoints m.tc m.dc ts ds,
      m.idealGas.eval p.1 p.2 .second = ideal.jet p.1 p.2)
    (hresidual : ∀ p ∈ reducedPoints m.tc m.dc ts ds,
      m.residual.eval p.1 p.2 .second = residual.jet p.1 p.2) :
    m.helmholtz? ts ds .second = .ok {
      idealGas := ideal.columns (reducedPoints m.tc m.dc ts ds)
      residual := residual.columns (reducedPoints m.tc m.dc ts ds)
      total := (ideal + residual).columns (reducedPoints m.tc m.dc ts ds) } := by
  have hpoints : List.zipWith (fun t d => (m.idealGasAt t d .second, m.residualAt t d .second))
      ts ds = (reducedPoints m.tc m.dc ts ds).map fun p =>
        (ideal.jet p.1 p.2, residual.jet p.1 p.2) := by
    rw [← List.map_uncurry_zip_eq_zipWith, reducedPoints, List.map_map]
    refine List.map_congr_left fun p hp => ?_
    have hp' : (m.tc / p.1, p.2 / m.dc) ∈ reducedPoints m.tc m.dc ts ds :=
      List.mem_map_of_mem hp
    have hi := hideal (m.tc / p.1, p.2 / m.dc) hp'
    have hr := hresidual (m.tc / p.1, p.2 / m.dc) hp'
    dsimp only at hi hr
    rw [Function.comp_apply, ← hi, ← hr]
    rfl
  unfold helmholtz? mapPairs?
  rw [if_pos hlen, hpoints]
  simp only [bind, Except.bind, List.map_map, ← Formula.ofJets_jet]
  rfl

/-- The fit evaluates the documented formula and its derivatives: the residual of every accepted
list of blocks, the ideal gas part, and both of them and their sum for every pair of a batch. Where
a variable that no block transforms is zero, its powers with the exponents 1 and 0 are read as the
base and one. The number of a block is the exponent of its weight as far as the counter goes. -/
theorem fit_eval_eq_derivatives {α : Type u} [Field α] [CharZero α] [DecidableEq α]
    [Transcendental α] [ReadsExponent α]
    (hpow : ∀ (v : α) (n : ℕ), Transcendental.pow v (n : α) = v ^ n)
    (hexp : ∀ (v : α) n, ReadsExponent.exponent? v = some n → v = n.toNat) :
    (∀ (blocks : List (List (List α))) r, Residual.ofBlocks? blocks = .ok r →
      Residual.FitsCounter blocks → ∃ bs : List (Block α), blocks = bs.map Block.rows ∧
        ∀ x y, RegularAt bs x y →
          (r.eval x y .second).f = (energyFormula bs).value x y ∧
          r.eval x y .second = (energyFormula bs).reduce.jet x y ∧
          (x ≠ 0 → y ≠ 0 → r.eval x y .second = (energyFormula bs).jet x y)) ∧
    (∀ (g : IdealGas α) x y, x ≠ 0 → y ≠ 0 → g.eval x y .second = g.formula.jet x y) ∧
    (∀ (s : Substance α) m, Fit.ofSubstance? s = .ok m → Residual.FitsCounter s.record.blocks →
      ∃ bs : List (Block α), s.record.blocks = bs.map Block.rows ∧
        ∀ ts ds, ts.length = ds.length →
          let points := reducedPoints s.record.tc s.record.dc ts ds
          (∀ p ∈ points, p.1 ≠ 0 ∧ p.2 ≠ 0) →
          m.helmholtz? ts ds .second = .ok {
            idealGas := s.record.idealGas.formula.columns points
            residual := (energyFormula bs).columns points
            total := (s.record.idealGas.formula + energyFormula bs).columns points }) := by
  have hreduced : ∀ (blocks : List (List (List α))) r, Residual.ofBlocks? blocks = .ok r →
      Residual.FitsCounter blocks → ∃ bs : List (Block α), blocks = bs.map Block.rows ∧
        ∀ x y, RegularAt bs x y → r.eval x y .second = (energyFormula bs).reduce.jet x y := by
    intro blocks r hr hcount
    obtain ⟨bs, hbs, rfl⟩ := Residual.ofBlocks?_ok hr
    have hrows : blocks = bs.map Block.rows :=
      eq_map_of_mapM_ok (fun _ _ => Block.ofRows?_ok hexp) hbs
    exact ⟨bs, hrows, fun x y h => (Residual.jet_formula hpow (hcount.of_mapM_ok hbs) h).symm⟩
  have hliteral : ∀ (bs : List (Block α)) x y, x ≠ 0 → y ≠ 0 →
      (energyFormula bs).reduce.jet x y = (energyFormula bs).jet x y := by
    intro bs x y hx hy
    exact Formula.jet_reduce hpow x y (energyFormula_basesNonzero hx hy bs)
  refine ⟨fun blocks r hr hcount => ?_, fun g x y _ _ => (g.jet_formula x y).symm,
    fun s m hm hcount => ?_⟩
  · obtain ⟨bs, hrows, hjet⟩ := hreduced blocks r hr hcount
    refine ⟨bs, hrows, fun x y h => ⟨?_, hjet x y h, fun hx hy => ?_⟩⟩
    · rw [hjet x y h, Formula.jet_f, Formula.value_reduce hpow]
    · rw [hjet x y h, hliteral bs x y hx hy]
  · obtain ⟨r, hr, rfl⟩ := Fit.ofSubstance?_ok hm
    obtain ⟨bs, hrows, hjet⟩ := hreduced _ r hr hcount
    refine ⟨bs, hrows, ?_⟩
    intro ts ds hts points hp
    refine Fit.helmholtz?_second _ hts ?_ ?_
    · intro p _
      exact (s.record.idealGas.jet_formula p.1 p.2).symm
    · intro p hp'
      obtain ⟨hx, hy⟩ := hp p hp'
      rw [hjet _ _ ⟨.inl hx, .inl hy⟩, hliteral bs _ _ hx hy]

/-- Three blocks that do not transform `x`, of which the last one has no terms. -/
noncomputable def sampleBlocks : List (Block ℝ) := [
  ⟨1, 1 / 4, 0, 4, ⟨[⟨⟨2, 1⟩, 6⟩, ⟨⟨0, 4⟩, 7⟩], by simp [Descending, Exponents.lt_def]⟩⟩,
  ⟨1, 4, 0, -1, ⟨[⟨⟨1, 1⟩, -6⟩], by simp [Descending]⟩⟩,
  ⟨1, 1, 0, 0, .empty⟩]

noncomputable def sampleSubstance : Substance ℝ where
  identifier := {}
  molarWeight := 18
  record := ⟨⟨1, 4, 6, 7, 8⟩, sampleBlocks.map Block.rows, 600, 4, 8⟩

theorem sampleSubstance_derivatives : ∃ m, Fit.ofSubstance? sampleSubstance = .ok m ∧
    m.residual.eval 0 2 .second = (energyFormula sampleBlocks).reduce.jet 0 2 ∧
    m.idealGas.eval 2 3 .second = m.idealGas.formula.jet 2 3 ∧
    m.helmholtz? [300] [8] .second = .ok {
      idealGas := m.idealGas.formula.columns [(600 / 300, 8 / 4)]
      residual := (energyFormula sampleBlocks).columns [(600 / 300, 8 / 4)]
      total := (m.idealGas.formula + energyFormula sampleBlocks).columns
        [(600 / 300, 8 / 4)] } := by
  have hexp := real_exponent?_natCast
  have hsame : ∀ bs : List (Block ℝ), sampleBlocks.map Block.rows = bs.map Block.rows →
      sampleBlocks = bs := by
    intro bs h
    exact List.map_injective_iff.mpr (Block.rows_injective hexp) h
  have hread := Residual.ofBlocks?_rows hexp sampleBlocks
  have hm : Fit.ofSubstance? sampleSubstance = .ok ⟨{}, 18, 600, 4, 8, ⟨1, 4, 6, 7, 8⟩,
      .ofList sampleBlocks⟩ := by
    unfold Fit.ofSubstance?
    simp only [sampleSubstance, hread]
    rfl
  have hcount : Residual.FitsCounter (sampleBlocks.map Block.rows) := by
    simp [Residual.FitsCounter, sampleBlocks]
  have hregular : RegularAt sampleBlocks 0 2 := by
    simp [RegularAt, sampleBlocks]
  obtain ⟨hresidual, hideal, hbatch⟩ := fit_eval_eq_derivatives (α := ℝ) real_pow_natCast
    fun v n => real_exponent?_eq_some.mp
  refine ⟨_, hm, ?_, hideal _ 2 3 two_ne_zero three_ne_zero, ?_⟩
  · obtain ⟨bs, hbs, h⟩ := hresidual _ _ hread hcount
    obtain rfl := hsame bs hbs
    exact (h 0 2 hregular).2.1
  · obtain ⟨bs, hbs, h⟩ := hbatch sampleSubstance _ hm hcount
    obtain rfl := hsame bs hbs
    exact h [300] [8] rfl (by simp [reducedPoints, sampleSubstance])

end Helmholtz
