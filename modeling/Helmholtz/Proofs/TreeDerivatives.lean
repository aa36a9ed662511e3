import Helmholtz.Expr.Bivariate
import Helmholtz.Proofs.Formula
import Helmholtz.Proofs.RealScalars
import Helmholtz.Proofs.Substitution

/-! Expression trees return the derivatives of the formula they describe. -/

namespace Helmholtz
universe u

section Formulas
variable {α : Type u} [Zero α] [One α]

/-- The formula of a polynomial, with `u` for its variable. -/
def Polynomial1.formula (p : Polynomial1 α) (u : Formula α) : Formula α :=
  .sum (p.terms.map fun t => .const t.coefficient * u.npow t.exponent.toNat)

/-- The formula of a polynomial, with `u` and `v` for its variables. -/
def Polynomial2.formula (p : Polynomial2 α) (u v : Formula α) : Formula α :=
  .sum (p.terms.map fun t =>
    .const t.coefficient * u.npow t.exponents.x.toNat * v.npow t.exponents.y.toNat)

/-- The formula of an elementary function, with `u` for its variable. -/
def Elementary1.formula (u : Formula α) : Elementary1 α → Formula α
  | identity => u
  | linear a b => .const a + .const b * u
  | power p => .pow u p
  | inverse => .inv u
  | exponential p => .exp (.const p * u)
  | log => .log u
  | polynomial p => p.formula u

/-- The formula of an elementary function, with `u` and `v` for its variables. -/
def Elementary2.formula (u v : Formula α) : Elementary2 α → Formula α
  | ofX f => f.formula u
  | ofY f => f.formula v
  | linear a b c => .const a + .const b * u + .const c * v
  | polynomial p => p.formula u v
  | termwise p => p.formula u v

namespace Expr1

mutual

/-- The formula of a tree in the variable `v`. -/
def formula (v : Axis) : Expr1 α → Formula α
  | .node f none => f.formula (.var v)
  | .node f (some arg) => f.formula (arg.formula v)
  | .group terms => sumFormula v terms

def sumFormula (v : Axis) : List (List (Factor1 α)) → Formula α
  | [] => .const 0
  | t :: rest => productFormula v t + sumFormula v rest

def productFormula (v : Axis) : List (Factor1 α) → Formula α
  | [] => .const 1
  | .constant c :: rest => .const c * productFormula v rest
  | .expr e :: rest => e.formula v * productFormula v rest

end
end Expr1

namespace Expr2

/-- What stands for the variable `v` in a node: the variable itself if there is no argument. -/
def argumentFormula (v : Axis) (arg : Option (Expr1 α)) : Formula α :=
  arg.elim (.var v) (·.formula v)

mutual

/-- The formula of a tree. -/
def formula : Expr2 α → Formula α
  | .node f argx argy => f.formula (argumentFormula .x argx) (argumentFormula .y argy)
  | .group terms => sumFormula terms

def sumFormula : List (List (Factor2 α)) → Formula α
  | [] => .const 0
  | t :: rest => productFormula t + sumFormula rest

def productFormula : List (Factor2 α) → Formula α
  | [] => .const 1
  | .constant c :: rest => .const c * productFormula rest
  | .expr e :: rest => e.formula * productFormula rest

end
end Expr2
end Formulas

/-- The exponents of a polynomial that is summed term by term are below `2 ^ 31`. -/
def Elementary2.ExponentsInRange {α : Type u} : Elementary2 α → Prop
  | termwise p => ∀ t ∈ p.terms, t.exponents.x.toNat < 2 ^ 31 ∧ t.exponents.y.toNat < 2 ^ 31
  | _ => True

namespace Expr2
variable {α : Type u}

mutual

/-- The exponents of all polynomials in a tree that are summed term by term are below `2 ^ 31`. -/
def ExponentsInRange : Expr2 α → Prop
  | .node f _ _ => f.ExponentsInRange
  | .group terms => TermsInRange terms

def TermsInRange : List (List (Factor2 α)) → Prop
  | [] => True
  | t :: rest => FactorsInRange t ∧ TermsInRange rest

def FactorsInRange : List (Factor2 α) → Prop
  | [] => True
  | .constant _ :: rest => FactorsInRange rest
  | .expr e :: rest => e.ExponentsInRange ∧ FactorsInRange rest

end
end Expr2

variable {α : Type u} [Field α] [Transcendental α] (x y : α)

namespace Polynomial1

theorem jet_formula (p : Polynomial1 α) (u : Formula α) :
    (p.formula u).jet x y = p.expand Jet2.constant (u.jet x y) := by
  simp only [formula, Formula.jet_sum, List.map_map, expand]
  congr 1
  refine List.map_congr_left fun t _ => ?_
  simp only [Function.comp_apply, Formula.jet_mul, Formula.jet_const, Formula.jet_npow,
    Monomial1.expand]

end Polynomial1

namespace Polynomial2

theorem jet_formula (p : Polynomial2 α) (u v : Formula α) :
    (p.formula u v).jet x y = p.expand Jet2.constant (u.jet x y) (v.jet x y) := by
  simp only [formula, Formula.jet_sum, List.map_map, expand]
  congr 1
  refine List.map_congr_left fun t _ => ?_
  simp only [Function.comp_apply, Formula.jet_mul, Formula.jet_const, Formula.jet_npow,
    Monomial2.expand]

end Polynomial2

namespace Elementary1

theorem evalPower_second (p v : α) : evalPower p v .second =
    ⟨pow v p, p * pow v p * v⁻¹, (p - 1) * (p * pow v p * v⁻¹) * v⁻¹⟩ := by
  simp only [evalPower, Order.hasFirst, Order.hasSecond, if_true, div_eq_mul_inv]

omit [Transcendental α] in
theorem evalInverse_second (v : α) :
    evalInverse v .second = ⟨v⁻¹, -(v⁻¹ * v⁻¹), 2 * (v⁻¹ * v⁻¹ * v⁻¹)⟩ := by
  ext <;> simp [evalInverse, Order.hasFirst, Order.hasSecond] <;> ring

theorem evalExponential_second (p v : α) : evalExponential p v .second =
    ⟨exp (p * v), p * exp (p * v), p * (p * exp (p * v))⟩ := rfl

theorem evalLog_second (v : α) :
    evalLog v .second = ⟨Transcendental.log v, v⁻¹, -(v⁻¹ * v⁻¹)⟩ := by
  ext <;> simp [evalLog, Order.hasFirst, Order.hasSecond, div_eq_mul_inv]

/-- Every elementary function is differentiated by the chain rule. -/
theorem jet_formula (f : Elementary1 α) (u : Formula α) :
    (f.formula u).jet x y = Jet2.chainHom (u.jet x y) (f.eval (u.value x y) .second) := by
  cases f with
  | identity => exact (Jet2.chainHom_var _).symm
  | linear a b =>
    ext <;> simp [formula, eval, Formula.jet, Formula.deriv, Formula.value,
      Jet2.chainHom_apply, Order.hasFirst]
  | power p => rw [formula, eval, Formula.jet_pow, evalPower_second]
  | inverse => rw [formula, eval, Formula.jet_inv, evalInverse_second]
  | exponential p =>
    rw [formula, eval, Formula.jet_exp, Formula.jet_mul, Formula.jet_const, evalExponential_second]
    ext <;> simp [Formula.value, Jet2.chainHom_apply, Jet2.mul_def, Jet2.constant] <;> ring
  | log => rw [formula, eval, Formula.jet_log, evalLog_second]
  | polynomial p =>
    have hvar : Jet2.chainHom (u.jet x y) (Jet1.var (u.value x y)) = u.jet x y :=
      Jet2.chainHom_var _
    rw [formula, eval, Polynomial1.horner_second, Polynomial1.map_expand, hvar,
      Polynomial1.jet_formula]
    simp only [Jet2.chainHom_constant]

theorem jet_formula_var (f : Elementary1 α) (v : Axis) :
    (f.formula (.var v)).jet x y = Jet2.along v (f.eval (v.pick x y) .second) := by
  have hvalue : (Formula.var v).value x y = v.pick x y := rfl
  rw [jet_formula, Formula.jet_var, hvalue, Jet2.chainHom_along, Jet1.compose_identity]

end Elementary1

namespace Expr1

section Accumulators
variable (x : α)

theorem addTerms_second (s : Jet1 α) (terms : List (List (Factor1 α))) :
    addTerms x .second s terms = s + addTerms x .second 0 terms := by
  rw [addTerms_eq_foldl, addTerms_eq_foldl, foldl_add_eq_sum, foldl_add_eq_sum, zero_add]

theorem mulFactors_second (p : Jet1 α) (factors : List (Factor1 α)) :
    mulFactors x .second p factors = p * mulFactors x .second 1 factors := by
  induction factors generalizing p with
  | nil => exact (mul_one p).symm
  | cons a rest ih =>
    cases a with
    | constant c =>
      rw [mulFactors, mulFactors, ih, ih (Jet1.scale 1 c), Jet1.scale_eq_mul, Jet1.scale_eq_mul]
      ring
    | expr e =>
      rw [mulFactors, mulFactors, ih, ih (Jet1.product 1 _ _), Jet1.product_second,
        Jet1.product_second]
      ring

theorem addTerms_cons (t : List (Factor1 α)) (rest : List (List (Factor1 α))) :
    addTerms x .second 0 (t :: rest) =
      mulFactors x .second 1 t + addTerms x .second 0 rest := by
  rw [addTerms, addTerms_second, zero_add]
  rfl

theorem mulFactors_constant (c : α) (rest : List (Factor1 α)) :
    mulFactors x .second 1 (.constant c :: rest) =
      .constant c * mulFactors x .second 1 rest := by
  rw [mulFactors, mulFactors_second, Jet1.scale_eq_mul, one_mul]

theorem mulFactors_expr (e : Expr1 α) (rest : List (Factor1 α)) :
    mulFactors x .second 1 (.expr e :: rest) =
      e.eval x .second * mulFactors x .second 1 rest := by
  rw [mulFactors, mulFactors_second, Jet1.product_second, one_mul]

end Accumulators

mutual

/-- A tree in one variable, read on either axis. -/
theorem jet_formula (v : Axis) (e : Expr1 α) :
    (e.formula v).jet x y = Jet2.along v (e.eval (v.pick x y) .second) := by
  cases e with
  | node f arg =>
    cases arg with
    | none => rw [formula, Elementary1.jet_formula_var, eval]
    | some g =>
      have hg := jet_formula v g
      have hf : (g.formula v).value x y = (g.eval (v.pick x y) .second).f := by
        rw [← Formula.jet_f, hg, Jet2.along_f]
      rw [formula, Elementary1.jet_formula, hg, hf, Jet2.chainHom_along, eval]
  | group terms =>
    rw [formula, jet_sumFormula v terms, eval, Jet1.zero_eq]

theorem jet_sumFormula (v : Axis) (terms : List (List (Factor1 α))) :
    (sumFormula v terms).jet x y = Jet2.along v (addTerms (v.pick x y) .second 0 terms) := by
  cases terms with
  | nil => exact (map_zero (Jet2.along v)).symm
  | cons t rest =>
    rw [sumFormula, Formula.jet_add, jet_productFormula v t, jet_sumFormula v rest, addTerms_cons,
      map_add]

theorem jet_productFormula (v : Axis) (factors : List (Factor1 α)) :
    (productFormula v factors).jet x y =
      Jet2.along v (mulFactors (v.pick x y) .second 1 factors) := by
  cases factors with
  | nil => exact (map_one (Jet2.along v)).symm
  | cons a rest =>
    cases a with
    | constant c =>
      rw [productFormula, Formula.jet_mul, Formula.jet_const, jet_productFormula v rest,
        mulFactors_constant, map_mul, Jet2.along_constant]
    | expr e =>
      rw [productFormula, Formula.jet_mul, jet_formula v e, jet_productFormula v rest,
        mulFactors_expr, map_mul]

end
end Expr1

namespace Elementary2

theorem jet_formula {f : Elementary2 α} (hf : f.ExponentsInRange) {u v : Formula α} {g h : Jet1 α}
    (hu : u.jet x y = .ofX g) (hv : v.jet x y = .ofY h) :
    (f.formula u v).jet x y = (f.eval g.f h.f .second).compose g h .second := by
  have hug : u.value x y = g.f := by rw [← Formula.jet_f, hu, Jet2.ofX]
  have hvh : v.value x y = h.f := by rw [← Formula.jet_f, hv, Jet2.ofY]
  cases f with
  | ofX f =>
    rw [formula, Elementary1.jet_formula, hu, hug, eval, ← Jet2.composeHom_apply,
      Jet2.composeHom_ofX]
    exact Jet2.chainHom_along .x g _
  | ofY f =>
    rw [formula, Elementary1.jet_formula, hv, hvh, eval, ← Jet2.composeHom_apply,
      Jet2.composeHom_ofY]
    exact Jet2.chainHom_along .y h _
  | linear a b c =>
    rw [formula, Formula.jet_add, Formula.jet_add, Formula.jet_mul, Formula.jet_mul, hu, hv]
    ext <;> simp [eval, Formula.jet_const, Jet2.constant, Jet2.mul_def, Jet2.ofX, Jet2.ofY,
      Jet2.compose, Order.hasFirst, Order.hasSecond, mul_comm]
  | polynomial p =>
    rw [formula, Polynomial2.jet_formula, hu, hv, eval, Polynomial2.horner_compose_second]
  | termwise p =>
    rw [formula, Polynomial2.jet_formula, hu, hv, eval, Polynomial2.directSum_second p _ _ hf,
      ← Polynomial2.horner_second, Polynomial2.horner_compose_second]

end Elementary2

namespace Expr2

section Accumulators

theorem addTerms_second (s : Jet2 α) (terms : List (List (Factor2 α))) :
    addTerms x y .second s terms = s + addTerms x y .second 0 terms := by
  rw [addTerms_eq_foldl, addTerms_eq_foldl, foldl_add_eq_sum, foldl_add_eq_sum, zero_add]

theorem mulFactors_second (p : Jet2 α) (factors : List (Factor2 α)) :
    mulFactors x y .second p factors = p * mulFactors x y .second 1 factors := by
  induction factors generalizing p with
  | nil => exact (mul_one p).symm
  | cons a rest ih =>
    cases a with
    | constant c =>
      rw [mulFactors, mulFactors, ih, ih (Jet2.scale 1 c), Jet2.scale_eq_mul, Jet2.scale_eq_mul]
      ring
    | expr e =>
      rw [mulFactors, mulFactors, ih, ih (Jet2.product 1 _ _), Jet2.product_second,
        Jet2.product_second]
      ring

theorem addTerms_cons (t : List (Factor2 α)) (rest : List (List (Factor2 α))) :
    addTerms x y .second 0 (t :: rest) =
      mulFactors x y .second 1 t + addTerms x y .second 0 rest := by
  rw [addTerms, addTerms_second, zero_add]
  rfl

theorem mulFactors_constant (c : α) (rest : List (Factor2 α)) :
    mulFactors x y .second 1 (.constant c :: rest) =
      .constant c * mulFactors x y .second 1 rest := by
  rw [mulFactors, mulFactors_second, Jet2.scale_eq_mul, one_mul]

theorem mulFactors_expr (e : Expr2 α) (rest : List (Factor2 α)) :
    mulFactors x y .second 1 (.expr e :: rest) =
      e.eval x y .second * mulFactors x y .second 1 rest := by
  rw [mulFactors, mulFactors_second, Jet2.product_second, one_mul]

end Accumulators

theorem jet_argumentFormula (v : Axis) (arg : Option (Expr1 α)) :
    (argumentFormula v arg).jet x y =
      Jet2.along v (Expr1.evalArgument (v.pick x y) .second arg) := by
  cases arg with
  | none => exact Formula.jet_var x y v
  | some e => exact Expr1.jet_formula x y v e

mutual

theorem jet_formula (e : Expr2 α) (he : e.ExponentsInRange) :
    e.formula.jet x y = e.eval x y .second := by
  cases e with
  | node f argx argy =>
    have hx := jet_argumentFormula x y .x argx
    have hy := jet_argumentFormula x y .y argy
    rw [formula, Elementary2.jet_formula x y he hx hy, eval, evalNode_eq_compose]
    rfl
  | group terms =>
    rw [formula, jet_sumFormula terms he, eval, Jet2.zero_eq]

theorem jet_sumFormula (terms : List (List (Factor2 α))) (ht : TermsInRange terms) :
    (sumFormula terms).jet x y = addTerms x y .second 0 terms := by
  cases terms with
  | nil => rfl
  | cons t rest =>
    rw [sumFormula, Formula.jet_add, jet_productFormula t ht.1, jet_sumFormula rest ht.2,
      addTerms_cons]

theorem jet_productFormula (factors : List (Factor2 α)) (hf : FactorsInRange factors) :
    (productFormula factors).jet x y = mulFactors x y .second 1 factors := by
  cases factors with
  | nil => rfl
  | cons a rest =>
    cases a with
    | constant c =>
      rw [productFormula, Formula.jet_mul, Formula.jet_const, jet_productFormula rest hf,
        mulFactors_constant]
    | expr e =>
      rw [productFormula, Formula.jet_mul, jet_formula e hf.1, jet_productFormula rest hf.2,
        mulFactors_expr]

end
end Expr2

/-- Every tree returns the value of the formula it describes and the derivatives of that formula. No
argument has to be different from zero, as both sides divide by zero in the same way. -/
theorem tree_eval_eq_derivatives {α : Type u} [Field α] [Transcendental α] :
    (∀ (e : Expr1 α) (x y : α), e.eval x .second =
      ⟨(e.formula .x).value x y, ((e.formula .x).deriv .x).value x y,
        (((e.formula .x).deriv .x).deriv .x).value x y⟩) ∧
    (∀ e : Expr2 α, e.ExponentsInRange → ∀ x y, e.eval x y .second =
      ⟨e.formula.value x y, (e.formula.deriv .x).value x y, (e.formula.deriv .y).value x y,
        ((e.formula.deriv .x).deriv .x).value x y, ((e.formula.deriv .x).deriv .y).value x y,
        ((e.formula.deriv .y).deriv .y).value x y⟩) := by
  refine ⟨fun e x y => ?_, fun e he x y => (e.jet_formula x y he).symm⟩
  have h : (e.formula .x).jet x y = .ofX (e.eval x .second) := Expr1.jet_formula x y .x e
  ext
  · exact (congrArg Jet2.f h).symm
  · exact (congrArg Jet2.fx h).symm
  · exact (congrArg Jet2.fxx h).symm

/-- `2 (3 x + 5 y^4) ln (1 / y) + exp (-x)`, with the polynomial summed term by term in the square
of the square root of `x`. -/
noncomputable def sampleTree : Expr2 ℝ :=
  .group [
    [.constant 2,
      .expr (.node
        (.termwise ⟨[⟨⟨2, 0⟩, 3⟩, ⟨⟨0, 4⟩, 5⟩], by simp [Descending, Exponents.lt_def]⟩)
        (some (.node (.power (1 / 2)) none)) none),
      .expr (.group [[.expr (.node (.ofY .log) none (some (.node .inverse none)))]])],
    [.expr (.node (.ofX (.exponential (-1))) none none)]]

theorem sampleTree_exponentsInRange : sampleTree.ExponentsInRange := by
  simp [sampleTree, Expr2.ExponentsInRange, Expr2.TermsInRange, Expr2.FactorsInRange,
    Elementary2.ExponentsInRange]

theorem sampleTree_derivatives : sampleTree.ExponentsInRange ∧
    sampleTree.eval 4 3 .second = sampleTree.formula.jet 4 3 :=
  ⟨sampleTree_exponentsInRange,
    tree_eval_eq_derivatives.2 sampleTree sampleTree_exponentsInRange 4 3⟩

end Helmholtz
