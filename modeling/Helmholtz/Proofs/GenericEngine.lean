import Helmholtz.Proofs.HelmholtzEnergy

/-! The fit agrees with the expression trees of its formula. -/

namespace Helmholtz
universe u

section Trees
variable {α : Type u} [One α] [Neg α]

/-- An elementary function of `x` as a factor. -/
def Factor2.ofX (f : Elementary1 α) : Factor2 α := .expr (.node (.ofX f) none none)

/-- An elementary function of `y` as a factor. -/
def Factor2.ofY (f : Elementary1 α) : Factor2 α := .expr (.node (.ofY f) none none)

/-- Both powers of the variables, and the polynomial in powers of the variables. -/
def Block.factors (b : Block α) : List (Factor2 α) := [
  .ofX (.power b.postX),
  .ofY (.power b.postY),
  .expr (.node (.polynomial b.polynomial) (some (.node (.power b.preX) none))
    (some (.node (.power b.preY) none)))]

/-- The exponential function of `-y ^ k` as a factor. -/
def weightFactor [NatCast α] (k : ℕ) : Factor2 α :=
  .expr (.node (.ofY (.exponential (-1))) none (some (.node (.power k) none)))

/-- One term for each block, from the second one on with its weight. -/
def energyTree [NatCast α] : List (Block α) → Expr2 α
  | [] => .group []
  | b :: rest =>
    .group (b.factors :: (rest.zipIdx 1).map fun (b, k) => b.factors ++ [weightFactor k])

/-- One term for each coefficient, and the logarithm of `y`. -/
def IdealGas.tree [Div α] [NatCast α] (g : IdealGas α) : Expr2 α := .group [
  [.constant g.c0],
  [.constant g.c1, .ofX .identity],
  [.constant g.c2, .ofX .log],
  [.constant g.c3, .ofX (.power (-(1 / (2 : ℕ))))],
  [.constant g.c4, .ofX (.power (-((3 : ℕ) / (4 : ℕ))))],
  [.ofY .log]]

end Trees

variable {α : Type u} [Field α] [Transcendental α] (x y : α)

namespace Expr2

/-- The jet of a factor. -/
def factorJet : Factor2 α → Jet2 α
  | .constant c => .constant c
  | .expr e => e.eval x y .second

theorem evalTerm_second (factors : List (Factor2 α)) :
    evalTerm x y .second factors = (factors.map (factorJet x y)).prod := by
  induction factors with
  | nil => rfl
  | cons a rest ih =>
    rw [List.map_cons, List.prod_cons, ← ih]
    cases a with
    | constant c => exact mulFactors_constant x y c rest
    | expr e => exact mulFactors_expr x y e rest

theorem eval_group_second (terms : List (List (Factor2 α))) :
    (group terms).eval x y .second =
      (terms.map fun t => (t.map (factorJet x y)).prod).sum := by
  rw [eval_group, foldl_add_eq_sum, Jet2.zero_eq, zero_add]
  congr 1
  exact List.map_congr_left fun t _ => evalTerm_second x y t

theorem factorJet_constant (c : α) : factorJet x y (.constant c) = .constant c := rfl

theorem factorJet_ofX (f : Elementary1 α) : factorJet x y (.ofX f) = .ofX (f.eval x .second) := rfl

theorem factorJet_ofY (f : Elementary1 α) : factorJet x y (.ofY f) = .ofY (f.eval y .second) := rfl

end Expr2

theorem IdealGas.eval_tree [CharZero α] (g : IdealGas α) :
    g.eval x y .second = g.tree.eval x y .second := by
  rw [eval_second, tree, Expr2.eval_group_second]
  simp only [List.map_cons, List.map_nil, List.prod_cons, List.prod_nil, List.sum_cons,
    List.sum_nil, Expr2.factorJet_constant, Expr2.factorJet_ofX, Expr2.factorJet_ofY,
    Elementary1.eval]
  ring

section Nonzero
variable [DecidableEq α] (hpow : ∀ (v : α) (n : ℕ), Transcendental.pow v (n : α) = v ^ n)
  {x y : α} (hx : x ≠ 0) (hy : y ≠ 0)
include hpow hy

omit [DecidableEq α] in
theorem factorJet_weightFactor {k : ℕ} (hk : 1 ≤ k) (hlt : k < 2 ^ 31) :
    Expr2.factorJet x y (weightFactor k) = .ofY (WeightedBlock.weight (.ofNat k) y .second) := by
  have hneg : ∀ h : Jet1 α, (Elementary1.evalExponential (-1) h.f .second).compose h .second =
      (⟨exp (-h.f), exp (-h.f), exp (-h.f)⟩ : Jet1 α).compose (-h) .second := by
    intro h
    have hfx : (-h).fx = -h.fx := rfl
    have hfxx : (-h).fxx = -h.fxx := rfl
    rw [Elementary1.evalExponential_second, neg_one_mul]
    ext <;> simp [Jet1.compose, Order.hasFirst, Order.hasSecond, hfx, hfxx]
  have hvalue : (Jet1.var y ^ k).f = y ^ k := by rw [Jet1.var_pow]
  let h := Elementary1.evalPower (k : α) y .second
  have hnode : Expr2.factorJet x y (weightFactor k) =
      (Jet2.ofY (Elementary1.evalExponential (-1) h.f .second)).compose (.var x) h .second := rfl
  rw [hnode, ← Jet2.composeHom_apply, Jet2.composeHom_ofY, Jet1.composeHom_apply, hneg]
  simp only [h]
  rw [Elementary1.evalPower_natCast hpow hy, hvalue,
    WeightedBlock.weight_second (Int32.toInt_ofNat_of_lt hlt) hk]

include hx

theorem Block.eval_factors (b : Block α) :
    b.eval x y .second = (b.factors.map (Expr2.factorJet x y)).prod := by
  have hpoly : Expr2.factorJet x y (.expr (.node (.polynomial b.polynomial)
      (some (.node (.power b.preX) none)) (some (.node (.power b.preY) none)))) =
      b.polynomial.expand Jet2.constant (.ofX (Elementary1.evalPower b.preX x .second))
        (.ofY (Elementary1.evalPower b.preY y .second)) :=
    b.polynomial.horner_compose_second _ _
  have htrivial := TrivialPowers.of_natCast hpow
  rw [eval_second_product htrivial, factors]
  simp only [Jet1.reducedPower_of_ne_zero htrivial hx, Jet1.reducedPower_of_ne_zero htrivial hy,
    List.map_cons, List.map_nil, List.prod_cons, List.prod_nil, hpoly, Expr2.factorJet_ofX,
    Expr2.factorJet_ofY, Elementary1.eval]
  ring

theorem WeightedBlock.eval_factors (b : Block α) {k : ℕ} (hk : 1 ≤ k) (hlt : k < 2 ^ 31) :
    WeightedBlock.eval ⟨.ofNat k, b⟩ x y .second =
      ((b.factors ++ [weightFactor k]).map (Expr2.factorJet x y)).prod := by
  rw [List.map_append, List.prod_append, ← b.eval_factors hpow hx hy, List.map_singleton,
    List.prod_singleton, factorJet_weightFactor hpow hy hk hlt]
  rfl

theorem Residual.eval_tree {bs : List (Block α)} (hcount : FitsCounter bs) :
    (ofList bs).eval x y .second = (energyTree bs).eval x y .second := by
  cases bs with
  | nil => exact eval_ofList_nil x y
  | cons b rest =>
    rw [energyTree, Expr2.eval_group_second, List.map_cons, List.sum_cons, List.map_map,
      ← b.eval_factors hpow hx hy]
    exact eval_ofList_cons hcount fun c _ k hk hlt => WeightedBlock.eval_factors hpow hx hy c hk hlt

end Nonzero

/-- Away from zero the fit returns the same six numbers as the trees of its formula, the residual
for every accepted list of blocks whose weights can be counted. -/
theorem fit_eval_eq_tree_eval {α : Type u} [Field α] [CharZero α] [DecidableEq α]
    [Transcendental α] [ReadsExponent α]
    (hpow : ∀ (v : α) (n : ℕ), Transcendental.pow v (n : α) = v ^ n) :
    (∀ (blocks : List (List (List α))) r, Residual.ofBlocks? blocks = .ok r →
      Residual.FitsCounter blocks → ∃ bs : List (Block α), blocks.mapM Block.ofRows? = .ok bs ∧
        ∀ x y, x ≠ 0 → y ≠ 0 → r.eval x y .second = (energyTree bs).eval x y .second) ∧
    (∀ (g : IdealGas α) x y, x ≠ 0 → y ≠ 0 → g.eval x y .second = g.tree.eval x y .second) := by
  refine ⟨fun blocks r hr hcount => ?_, fun g x y _ _ => g.eval_tree x y⟩
  obtain ⟨bs, hbs, rfl⟩ := Residual.ofBlocks?_ok hr
  exact ⟨bs, hbs, fun x y hx hy => Residual.eval_tree hpow hx hy (hcount.of_mapM_ok hbs)⟩

/-- The fit of the sample blocks and its tree, at a point away from zero. -/
theorem sampleBlocks_eval_tree : ∃ r, Residual.ofBlocks? (sampleBlocks.map Block.rows) = .ok r ∧
    r.eval 3 2 .second = (energyTree sampleBlocks).eval 3 2 .second ∧
    (⟨1, 2, 3, 4, 5⟩ : IdealGas ℝ).eval 3 2 .second =
      (⟨1, 2, 3, 4, 5⟩ : IdealGas ℝ).tree.eval 3 2 .second := by
  have hcount : Residual.FitsCounter (sampleBlocks.map Block.rows) := by
    simp [Residual.FitsCounter, sampleBlocks]
  have hread := Residual.ofBlocks?_rows real_exponent?_natCast sampleBlocks
  obtain ⟨hresidual, hideal⟩ := fit_eval_eq_tree_eval (α := ℝ) real_pow_natCast
  refine ⟨_, hread, ?_, hideal _ 3 2 three_ne_zero two_ne_zero⟩
  obtain ⟨bs, hbs, h⟩ := hresidual _ _ hread hcount
  rw [mapM_map_ok (Block.ofRows?_rows real_exponent?_natCast)] at hbs
  cases hbs
  exact h 3 2 three_ne_zero two_ne_zero

end Helmholtz
