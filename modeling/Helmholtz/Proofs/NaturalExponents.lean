import Helmholtz.Proofs.EngineAgreement
import Helmholtz.Proofs.NeutralExponents
import Helmholtz.Proofs.PolynomialSums
import Mathlib.Algebra.Polynomial.Eval.Defs

/-! Blocks whose exponents are natural numbers are polynomials.

Their powers are differentiated by dividing by the variable, which is the derivative of the
polynomial away from zero only. At zero the slots by the other variable are still right, since no
division enters them, and so are all slots if the variable is not transformed. -/

namespace Helmholtz
universe u

section Polynomials
variable {α : Type u} [CommRing α]

/-- The sum of the terms `c * x ^ (i * m + p) * y ^ (j * n + q)` and the sums of their
derivatives. -/
def plainSums (terms : List (Monomial2 α)) (m n p q : ℕ) (x y : α) : Jet2 α :=
  let sum (g : ℕ → ℕ → α → α) : α :=
    Polynomial2.sumOver terms fun i j c => g (i * m + p) (j * n + q) c
  { f := sum fun i j c => c * x ^ i * y ^ j
    fx := sum fun i j c => i * c * x ^ (i - 1) * y ^ j
    fy := sum fun i j c => j * c * x ^ i * y ^ (j - 1)
    fxx := sum fun i j c => i * (i - 1) * c * x ^ (i - 2) * y ^ j
    fxy := sum fun i j c => i * j * c * x ^ (i - 1) * y ^ (j - 1)
    fyy := sum fun i j c => j * (j - 1) * c * x ^ i * y ^ (j - 2) }

theorem plainSums_eq (a : Polynomial2 α) (m n p q : ℕ) (x y : α) :
    plainSums a.terms m n p q x y =
      a.expand Jet2.constant (Jet2.along .x (.var x ^ m)) (Jet2.along .y (.var y ^ n)) *
        Jet2.along .x (.var x ^ p) * Jet2.along .y (.var y ^ q) := by
  have hX : ∀ k, Jet2.along .x (.var x ^ k) = Jet2.varX x ^ k := map_pow Jet2.ofXHom (.var x)
  have hY : ∀ k, Jet2.along .y (.var y ^ k) = Jet2.varY y ^ k := map_pow Jet2.ofYHom (.var y)
  simp only [hX, hY, Polynomial2.expand]
  induction a.terms with
  | nil =>
    simp only [List.map_nil, List.sum_nil, zero_mul]
    rfl
  | cons t rest ih =>
    have hterm : t.expand Jet2.constant (.varX x ^ m) (.varY y ^ n) * .varX x ^ p * .varY y ^ q =
        Jet2.constant t.coefficient * .varX x ^ (t.exponents.x.toNat * m + p) *
          .varY y ^ (t.exponents.y.toNat * n + q) := by
      rw [Monomial2.expand]
      ring
    rw [List.map_cons, List.sum_cons, add_mul, add_mul, ← ih, hterm, Jet2.monomial_var]
    rfl

/-- The polynomial in `x` and `y`, which are the inner and the outer variable. -/
noncomputable def Polynomial2.toPolynomial (a : Polynomial2 α) : Polynomial (Polynomial α) :=
  a.expand (fun c => .C (.C c)) (.C .X) .X

/-- The polynomial with powers in place of the variables, times powers of the variables. -/
noncomputable def Polynomial2.transformed (a : Polynomial2 α) (m n p q : ℕ) :
    Polynomial (Polynomial α) :=
  a.expand (fun c => .C (.C c)) (.C .X ^ m) (.X ^ n) * .C .X ^ p * .X ^ q

/-- The jet of a constant. -/
def Jet2.constantHom : α →+* Jet2 α where
  toFun := constant
  map_zero' := rfl
  map_one' := rfl
  map_add' a b := by ext <;> simp [constant]
  map_mul' a b := by ext <;> simp [constant, mul_def]

/-- The jet of a polynomial at the point `(x, y)`. -/
noncomputable def Jet2.evalHom (x y : α) : Polynomial (Polynomial α) →+* Jet2 α :=
  Polynomial.eval₂RingHom (Polynomial.eval₂RingHom constantHom (varX x)) (varY y)

theorem Jet2.evalHom_expand (a : Polynomial2 α) (x y : α) (u v : Polynomial (Polynomial α)) :
    evalHom x y (a.expand (fun c => .C (.C c)) u v) =
      a.expand constant (evalHom x y u) (evalHom x y v) := by
  have hconstant : ∀ c : α, evalHom x y (.C (.C c)) = constantHom c := by
    intro c
    simp [evalHom]
  simp only [Polynomial2.map_expand, hconstant]
  rfl

/-- Horner evaluation depends on the polynomial only. -/
theorem Polynomial2.horner_of_transformed {e a : Polynomial2 α} {m n p q : ℕ}
    (he : e.toPolynomial = a.transformed m n p q) (x y : α) :
    e.horner x y .second = plainSums a.terms m n p q x y := by
  have hX : Jet2.evalHom x y (.C .X) = .varX x := by simp [Jet2.evalHom]
  have hY : Jet2.evalHom x y .X = .varY y := by simp [Jet2.evalHom]
  have h := congrArg (Jet2.evalHom x y) he
  simp only [toPolynomial, transformed, map_mul, map_pow, Jet2.evalHom_expand, hX, hY] at h
  rw [horner_second, h, plainSums_eq]
  simp only [Jet2.varX_pow, Jet2.varY_pow]
  rfl

end Polynomials

namespace Jet2
variable {α : Type u} [CommRing α]

/-- The rules for sums and products, seen along one variable. -/
def slotsHom (v : Axis) : Jet2 α →+* Jet1 α where
  toFun := slots v
  map_zero' := by cases v <;> rfl
  map_one' := by cases v <;> rfl
  map_add' := slots_add v
  map_mul' a b := slots_product v a b .second

/-- Along one variable only the value of a function of the other one matters. -/
theorem slotsHom_along_congr {v w : Axis} {a b : Jet1 α} (hf : a.f = b.f) (h : v = w → a = b) :
    slotsHom v (along w a) = slotsHom v (along w b) := by
  have halong : ∀ c : Jet1 α, slotsHom v (along w c) = if v = w then c else .constant c.f := by
    intro c
    cases v <;> cases w <;> rfl
  rw [halong, halong]
  by_cases hvw : v = w
  · rw [if_pos hvw, if_pos hvw, h hvw]
  · rw [if_neg hvw, if_neg hvw, hf]

end Jet2

section Natural
variable {α : Type u} [Field α] [DecidableEq α] [Transcendental α]
  (hpow : ∀ (v : α) (n : ℕ), Transcendental.pow v (n : α) = v ^ n)
include hpow

omit [DecidableEq α] in
theorem Elementary1.evalPower_natCast_f (v : α) (n : ℕ) :
    (evalPower (n : α) v .second).f = (Jet1.var v ^ n).f := by
  rw [Jet1.var_pow]
  exact hpow v n

theorem Jet1.reducedPower_natCast_f (v : α) (n : ℕ) :
    (reducedPower (n : α) v).f = (var v ^ n).f := by
  rw [reducedPower_f (.of_natCast hpow), Elementary1.evalPower_natCast_f hpow]

/-- A pre exponent may be passed over at zero. -/
theorem Jet1.reducedPower_natCast {v : α} {n : ℕ} (h : v ≠ 0 ∨ n = 1) :
    reducedPower (n : α) v = var v ^ n := by
  rcases h with hv | rfl
  · rw [reducedPower_of_ne_zero (.of_natCast hpow) hv, Elementary1.evalPower_natCast hpow hv]
  · simp [reducedPower]

omit [DecidableEq α] in
/-- A post exponent may be passed over at zero. -/
theorem Elementary1.evalPower_natCast_of {v : α} {n : ℕ} (h : v ≠ 0 ∨ n = 0) :
    evalPower (n : α) v .second = .var v ^ n := by
  rcases h with hv | rfl
  · exact evalPower_natCast hpow hv n
  · rw [Nat.cast_zero, evalPower_zero (.of_natCast hpow), pow_zero]
    rfl

namespace Block
variable {b : Block α} {m n p q : ℕ} (hpre : b.preX = m ∧ b.preY = n)
  (hpost : b.postX = p ∧ b.postY = q) (x y : α)
include hpre hpost

theorem eval_natCast :
    b.eval x y .second = b.polynomial.expand Jet2.constant
        (Jet2.along .x (.reducedPower (m : α) x)) (Jet2.along .y (.reducedPower (n : α) y)) *
      Jet2.along .x (Elementary1.evalPower (p : α) x .second) *
      Jet2.along .y (Elementary1.evalPower (q : α) y .second) := by
  rw [eval_second_product (.of_natCast hpow), hpre.1, hpre.2, hpost.1, hpost.2]
  rfl

theorem eval_natCast_f :
    (b.eval x y .second).f = (plainSums b.polynomial.terms m n p q x y).f := by
  have hvalue : ∀ (v : Axis) (a : Jet1 α), Jet2.valueHom (Jet2.along v a) = a.f := Jet2.along_f
  have h : Jet2.valueHom (b.eval x y .second) =
      Jet2.valueHom (plainSums b.polynomial.terms m n p q x y) := by
    rw [eval_natCast hpow hpre hpost, plainSums_eq]
    simp only [map_mul, Polynomial2.map_expand, hvalue, Jet1.reducedPower_natCast_f hpow,
      Elementary1.evalPower_natCast_f hpow]
  exact h

/-- Along one variable the powers of the other one are constants, so that nothing is divided by a
variable but along itself. -/
theorem slots_eval_natCast (v : Axis)
    (hv : v.pick x y ≠ 0 ∨ v.pick m n = 1 ∧ v.pick p q = 0) :
    (b.eval x y .second).slots v = (plainSums b.polynomial.terms m n p q x y).slots v := by
  have hpower : ∀ w : Axis,
      Jet2.slotsHom v (Jet2.along w (.reducedPower ((w.pick m n : ℕ) : α) (w.pick x y))) =
        Jet2.slotsHom v (Jet2.along w (.var (w.pick x y) ^ w.pick m n)) := by
    intro w
    refine Jet2.slotsHom_along_congr (Jet1.reducedPower_natCast_f hpow _ _) ?_
    rintro rfl
    exact Jet1.reducedPower_natCast hpow (hv.imp_right And.left)
  have hfactor : ∀ w : Axis,
      Jet2.slotsHom v (Jet2.along w
          (Elementary1.evalPower ((w.pick p q : ℕ) : α) (w.pick x y) .second)) =
        Jet2.slotsHom v (Jet2.along w (.var (w.pick x y) ^ w.pick p q)) := by
    intro w
    refine Jet2.slotsHom_along_congr (Elementary1.evalPower_natCast_f hpow _ _) ?_
    rintro rfl
    exact Elementary1.evalPower_natCast_of hpow (hv.imp_right And.right)
  have hpowerX := hpower .x
  have hpowerY := hpower .y
  have hfactorX := hfactor .x
  have hfactorY := hfactor .y
  simp only [Axis.pick] at hpowerX hpowerY hfactorX hfactorY
  have h : Jet2.slotsHom v (b.eval x y .second) =
      Jet2.slotsHom v (plainSums b.polynomial.terms m n p q x y) := by
    rw [eval_natCast hpow hpre hpost, plainSums_eq]
    simp only [map_mul, Polynomial2.map_expand, hpowerX, hpowerY, hfactorX, hfactorY]
  exact h

theorem eval_natCast_eq (hx : x ≠ 0 ∨ m = 1 ∧ p = 0) (hy : y ≠ 0 ∨ n = 1 ∧ q = 0) :
    b.eval x y .second = plainSums b.polynomial.terms m n p q x y := by
  rw [eval_natCast hpow hpre hpost, plainSums_eq,
    Jet1.reducedPower_natCast hpow (hx.imp_right And.left),
    Jet1.reducedPower_natCast hpow (hy.imp_right And.left),
    Elementary1.evalPower_natCast_of hpow (hx.imp_right And.right),
    Elementary1.evalPower_natCast_of hpow (hy.imp_right And.right)]

end Block
end Natural

/-- A block is accepted with natural exponents, pre `m` and `n`, post `p` and `q`. Its value is that
of the polynomial with the terms `c x ^ (i m + p) y ^ (j n + q)` everywhere, zero included, and so
are the derivatives by a variable that is not zero, or that is transformed neither before nor after;
the mixed derivative takes this of both variables. These sums over the rows are also what Horner
evaluation returns for any list of terms that makes the same polynomial. -/
theorem block_eval_eq_plainSums {α : Type u} [Field α] [DecidableEq α] [Transcendental α]
    [ReadsExponent α] (hpow : ∀ (v : α) (n : ℕ), Transcendental.pow v (n : α) = v ^ n)
    (hexp : ∀ (v : α) n, ReadsExponent.exponent? v = some n → v = n.toNat)
    {m n p q : ℕ} {rest : List (List α)} {b : Block α}
    (h : Block.ofRows? ([(m : α), (n : α)] :: [(p : α), (q : α)] :: rest) = .ok b) (x y : α) :
    let a := b.eval x y .second
    let s := plainSums b.polynomial.terms m n p q x y
    rest = b.polynomial.terms.map Block.termRow ∧
    a.f = s.f ∧
    (x ≠ 0 ∨ m = 1 ∧ p = 0 → a.fx = s.fx ∧ a.fxx = s.fxx) ∧
    (y ≠ 0 ∨ n = 1 ∧ q = 0 → a.fy = s.fy ∧ a.fyy = s.fyy) ∧
    (x ≠ 0 ∨ m = 1 ∧ p = 0 → y ≠ 0 ∨ n = 1 ∧ q = 0 → a = s) ∧
    (∀ e : Polynomial2 α, e.toPolynomial = b.polynomial.transformed m n p q →
      e.horner x y .second = s) := by
  intro a s
  have hrows := Block.ofRows?_ok hexp h
  simp only [Block.rows, List.cons.injEq, and_true] at hrows
  obtain ⟨⟨hm, hn⟩, ⟨hp, hq⟩, hrest⟩ := hrows
  have hpre : b.preX = m ∧ b.preY = n := ⟨hm.symm, hn.symm⟩
  have hpost : b.postX = p ∧ b.postY = q := ⟨hp.symm, hq.symm⟩
  refine ⟨hrest, Block.eval_natCast_f hpow hpre hpost x y, fun hx => ?_, fun hy => ?_,
    Block.eval_natCast_eq hpow hpre hpost x y, fun e he => Polynomial2.horner_of_transformed he x y⟩
  · have hslots : a.slots .x = s.slots .x :=
      Block.slots_eval_natCast hpow hpre hpost x y .x hx
    exact ⟨congrArg Jet1.fx hslots, congrArg Jet1.fxx hslots⟩
  · have hslots : a.slots .y = s.slots .y :=
      Block.slots_eval_natCast hpow hpre hpost x y .y hy
    exact ⟨congrArg Jet1.fx hslots, congrArg Jet1.fxx hslots⟩

/-- `3 x (x ^ 2) y ^ 2 + 5 x y`, in which only `x` is transformed. -/
noncomputable def sampleNatural : Block ℝ :=
  ⟨(2 : ℕ), 1, 1, 0,
    ⟨[⟨⟨1, 2⟩, (3 : ℕ)⟩, ⟨⟨0, 1⟩, (5 : ℕ)⟩], by simp [Descending, Exponents.lt_def]⟩⟩

/-- The same polynomial, as it is multiplied out. -/
noncomputable def sampleExpanded : Polynomial2 ℝ :=
  ⟨[⟨⟨3, 2⟩, (3 : ℕ)⟩, ⟨⟨1, 1⟩, (5 : ℕ)⟩], by simp [Descending, Exponents.lt_def]⟩

theorem sampleNatural_plainSums :
    Block.ofRows? [[2, 1], [1, 0], [1, 2, 3], [0, 1, 5]] = .ok sampleNatural ∧
    sampleNatural.eval 2 0 .second = ⟨0, 0, 10, 0, 5, 48⟩ ∧
    sampleExpanded.horner 2 0 .second = ⟨0, 0, 10, 0, 5, 48⟩ ∧
    (sampleNatural.eval 0 3 .second).fyy = 0 := by
  have hread := Block.ofRows?_rows real_exponent?_natCast sampleNatural
  have hrows : sampleNatural.rows = [((2 : ℕ) : ℝ), ((1 : ℕ) : ℝ)] ::
      [((1 : ℕ) : ℝ), ((0 : ℕ) : ℝ)] :: [[1, 2, 3], [0, 1, 5]] := by
    simp [sampleNatural, Block.rows, Block.termRow]
  have hexpanded : sampleExpanded.toPolynomial = sampleNatural.polynomial.transformed 2 1 1 0 := by
    simp [sampleExpanded, sampleNatural, Polynomial2.toPolynomial, Polynomial2.transformed,
      Polynomial2.expand, Monomial2.expand]
    ring
  have hsums : plainSums sampleNatural.polynomial.terms 2 1 1 0 (2 : ℝ) 0 =
      ⟨0, 0, 10, 0, 5, 48⟩ := by
    simp [sampleNatural, plainSums, Polynomial2.sumOver]
    norm_num
  have hzero : (plainSums sampleNatural.polynomial.terms 2 1 1 0 (0 : ℝ) 3).fyy = 0 := by
    simp [sampleNatural, plainSums, Polynomial2.sumOver]
  rw [hrows] at hread
  have hpoint := block_eval_eq_plainSums real_pow_natCast (fun v n => real_exponent?_eq_some.mp)
    hread
  obtain ⟨-, -, -, -, hall, hhorner⟩ := hpoint 2 0
  obtain ⟨-, -, -, hfy, -⟩ := hpoint 0 3
  refine ⟨by simpa using hread, ?_, ?_, ?_⟩
  · rw [← hsums]
    exact hall (.inl two_ne_zero) (.inr ⟨rfl, rfl⟩)
  · rw [← hsums]
    exact hhorner sampleExpanded hexpanded
  · exact (hfy (.inl three_ne_zero)).2.trans hzero

/-- The polynomial `y`, which is the power of `y` with the post exponent 1. -/
noncomputable def sampleLinear : Block ℝ :=
  ⟨1, 1, 0, 1, .constant 1⟩

/-- The power of zero is divided by zero, which does not give its derivative. -/
theorem sampleLinear_at_zero :
    Block.ofRows? [[1, 1], [0, 1], [0, 0, 1]] = .ok sampleLinear ∧
    (sampleLinear.eval 1 0 .second).fy = 0 ∧
    (plainSums sampleLinear.polynomial.terms 1 1 0 1 (1 : ℝ) 0).fy = 1 := by
  have hread := Block.ofRows?_rows real_exponent?_natCast sampleLinear
  have hrows : sampleLinear.rows = [[1, 1], [0, 1], [0, 0, 1]] := by
    simp [sampleLinear, Polynomial2.constant, Block.rows, Block.termRow]
  have htrivial : TrivialPowers ℝ := .of_natCast real_pow_natCast
  refine ⟨hrows ▸ hread, ?_, ?_⟩
  · rw [Block.eval_second_product htrivial]
    simp [sampleLinear, Elementary1.evalPower_second, Polynomial2.expand_constant, Jet2.mul_def,
      Jet2.constant, Jet2.ofX, Jet2.ofY]
  · simp [sampleLinear, Polynomial2.constant, plainSums, Polynomial2.sumOver]

end Helmholtz
