import Helmholtz.Proofs.DirectSum
import Helmholtz.Proofs.NamedFunctions

/-! Horner evaluation, in one and in two variables, computes the polynomial that the list of terms
writes.

Value and derivatives are sums over the list, with the factors that differentiation brings down from
the exponents. The steps share one list of terms: each takes off what belongs to its power of `x`,
so that no term is left over, and none is met again. -/

namespace Helmholtz
universe u

namespace Polynomial1
variable {α : Type u}

/-- The terms with an exponent below `n`. -/
def termsBelow (n : ℕ) (terms : List (Monomial1 α)) : List (Monomial1 α) :=
  terms.filter (·.exponent.toNat < n)

theorem mem_termsBelow {n : ℕ} {terms : List (Monomial1 α)} {t : Monomial1 α} :
    t ∈ termsBelow n terms ↔ t ∈ terms ∧ t.exponent.toNat < n := by
  rw [termsBelow, List.mem_filter, decide_eq_true_iff]

theorem termsBelow_eq_self {n : ℕ} {terms : List (Monomial1 α)}
    (h : ∀ t ∈ terms, t.exponent.toNat < n) : termsBelow n terms = terms :=
  List.filter_eq_self.mpr fun t ht => decide_eq_true (h t ht)

theorem termsBelow_cons_of_le {n : ℕ} {t : Monomial1 α} {rest : List (Monomial1 α)}
    (h : n ≤ t.exponent.toNat) : termsBelow n (t :: rest) = termsBelow n rest := by
  simp [termsBelow, h]

theorem termsBelow_termsBelow (n : ℕ) (terms : List (Monomial1 α)) :
    termsBelow n (termsBelow (n + 1) terms) = termsBelow n terms := by
  rw [termsBelow, termsBelow, List.filter_filter]
  refine List.filter_congr fun t _ => ?_
  by_cases h : t.exponent.toNat < n
  · simp [h, Nat.lt_succ_of_lt h]
  · simp [h]

theorem termsBelow_succ_degree {p : Polynomial1 α} {n : UInt32} (h : p.degree? = some n) :
    termsBelow (n.toNat + 1) p.terms = p.terms := by
  apply termsBelow_eq_self
  intro t ht
  exact Nat.lt_succ_of_le (exponent_le_degree h ht)

/-- The step for the power `n` takes the term with this exponent off the list, if there is one, and
leaves the terms for the steps that follow. -/
theorem popIf_termsBelow (p : Polynomial1 α) (n : ℕ) : ∃ taken : Option (Monomial1 α),
    popIf (·.exponent.toNat == n) (termsBelow (n + 1) p.terms) = (taken, termsBelow n p.terms) ∧
      ∀ t, taken = some t ↔ t ∈ p.terms ∧ t.exponent.toNat = n := by
  have hmem : ∀ t, t ∈ termsBelow (n + 1) p.terms ↔ t ∈ p.terms ∧ t.exponent.toNat < n + 1 :=
    fun _ => mem_termsBelow
  have hbelow := termsBelow_termsBelow n p.terms
  have hd : Descending ((termsBelow (n + 1) p.terms).map (·.exponent)) :=
    p.descending.sublist (List.filter_sublist.map _)
  rcases popIf_cases (·.exponent.toNat == n) (termsBelow (n + 1) p.terms) with
    ⟨t, rest, hl, ht, hpop⟩ | ⟨hne, hpop⟩
  · have hn : t.exponent.toNat = n := by simpa using ht
    rw [hl] at hmem hbelow hd
    have hrest : ∀ s ∈ rest, s.exponent.toNat < n := fun s hs => hn ▸ exponent_lt hd hs
    have hleft : termsBelow n p.terms = rest := by
      rw [← hbelow, termsBelow_cons_of_le hn.ge, termsBelow_eq_self hrest]
    refine ⟨some t, by rw [hpop, hleft], fun s => ⟨?_, ?_⟩⟩
    · rintro ⟨⟩
      exact ⟨((hmem t).mp List.mem_cons_self).1, hn⟩
    · rintro ⟨hs, hsn⟩
      have hs : s ∈ t :: rest := (hmem s).mpr ⟨hs, by omega⟩
      rcases List.mem_cons.mp hs with rfl | hs
      · rfl
      · have hlt := hrest s hs
        omega
  · have hlt : ∀ t ∈ termsBelow (n + 1) p.terms, t.exponent.toNat < n :=
      exponent_lt_of_head_ne hd (fun t ht => ((hmem t).mp ht).2) hne
    have hleft : termsBelow (n + 1) p.terms = termsBelow n p.terms := by
      rw [← hbelow]
      exact (termsBelow_eq_self hlt).symm
    refine ⟨none, by rw [hpop, hleft], fun s => ⟨nofun, ?_⟩⟩
    rintro ⟨hs, hsn⟩
    have hsn' := hlt s ((hmem s).mpr ⟨hs, by omega⟩)
    omega

variable [CommRing α]

/-- The sum over a list of terms of what `g` makes of the exponent and the coefficient. -/
def sumOver (terms : List (Monomial1 α)) (g : ℕ → α → α) : α :=
  (terms.map fun t => g t.exponent.toNat t.coefficient).sum

theorem expand_var (p : Polynomial1 α) (x : α) :
    p.expand Jet1.constant (Jet1.var x) =
      { f := sumOver p.terms fun n c => c * x ^ n
        fx := sumOver p.terms fun n c => n * c * x ^ (n - 1)
        fxx := sumOver p.terms fun n c => n * (n - 1) * c * x ^ (n - 2) } := by
  unfold expand
  induction p.terms with
  | nil => rfl
  | cons t rest ih =>
    rw [List.map_cons, List.sum_cons, ih, Monomial1.expand_var]
    rfl

end Polynomial1

open Polynomial1 in
/-- Over every commutative ring and at every point, Horner evaluation of a list of terms that makes
a polynomial in one variable returns the sum of the terms and the sums of their derivatives; a
factor of zero makes up for an exponent that would fall below zero. The step for every power takes
the term with this exponent and no other off the list, which is complete before the first step and
empty after the last one. -/
theorem univariate_horner_eq_sumOver {α : Type u} [CommRing α] {terms : List (Monomial1 α)}
    {p : Polynomial1 α} (h : ofTerms? terms = .ok p) (x : α) :
    p.horner x .second =
      { f := sumOver terms fun n c => c * x ^ n
        fx := sumOver terms fun n c => n * c * x ^ (n - 1)
        fxx := sumOver terms fun n c => n * (n - 1) * c * x ^ (n - 2) } ∧
    (∀ n, p.degree? = some n → termsBelow (n.toNat + 1) terms = terms) ∧
    (∀ n, ∃ taken : Option (Monomial1 α),
      (∀ t, taken = some t ↔ t ∈ terms ∧ t.exponent.toNat = n) ∧
      ∀ o q, hornerFrom x o (n + 1) (termsBelow (n + 1) terms) q =
        hornerFrom x o n (termsBelow n terms) (hornerStep x o q (taken.elim 0 (·.coefficient)))) ∧
    termsBelow 0 terms = [] := by
  obtain rfl := ofTerms?_eq_ok_iff.mp h
  refine ⟨?_, fun n hn => termsBelow_succ_degree hn, fun n => ?_, ?_⟩
  · rw [horner_second, expand_var]
  · obtain ⟨taken, hpop, htaken⟩ := p.popIf_termsBelow n
    refine ⟨taken, htaken, fun o q => ?_⟩
    rw [hornerFrom, hpop]
  · exact List.filter_eq_nil_iff.mpr fun t _ => by simp

/-- `2 x^5 - 3 x^2 + 7`: the powers in between are not listed. -/
def sampleUnivariateTerms : List (Monomial1 ℤ) := [⟨5, 2⟩, ⟨2, -3⟩, ⟨0, 7⟩]

theorem sampleUnivariateTerms_horner : ∃ p, Polynomial1.ofTerms? sampleUnivariateTerms = .ok p ∧
    p.horner (-2) .second = ⟨-69, 172, -326⟩ := by
  have hd : Descending (sampleUnivariateTerms.map (·.exponent)) := by
    simp [sampleUnivariateTerms, Descending, UInt32.lt_iff_toNat_lt]
  have hp : Polynomial1.ofTerms? sampleUnivariateTerms = .ok ⟨sampleUnivariateTerms, hd⟩ :=
    Polynomial1.ofTerms?_eq_ok_iff.mpr rfl
  refine ⟨_, hp, ?_⟩
  rw [(univariate_horner_eq_sumOver hp (-2)).1]
  simp [Polynomial1.sumOver, sampleUnivariateTerms]

namespace Polynomial2
variable {α : Type u}

/-- The terms with a power of `x` below the `n`-th. -/
def termsBelow (n : ℕ) (terms : List (Monomial2 α)) : List (Monomial2 α) :=
  terms.filter (·.exponents.x.toNat < n)

theorem descending_termsBelow (p : Polynomial2 α) (n : ℕ) :
    Descending ((termsBelow n p.terms).map (·.exponents)) := by
  have hsub : (termsBelow n p.terms).Sublist p.terms := List.filter_sublist
  exact p.descending.sublist (hsub.map _)

theorem termsBelow_succ_degreeX {p : Polynomial2 α} {n : UInt32} (h : p.degreeX? = some n) :
    termsBelow (n.toNat + 1) p.terms = p.terms := by
  apply List.filter_eq_self.mpr
  intro t ht
  exact decide_eq_true (Nat.lt_succ_of_le (exponents_le_degreeX h ht))

theorem termsBelow_termsBelow (n : ℕ) (terms : List (Monomial2 α)) :
    termsBelow n (termsBelow (n + 1) terms) = termsBelow n terms := by
  rw [termsBelow, termsBelow, List.filter_filter]
  refine List.filter_congr fun t _ => ?_
  by_cases h : t.exponents.x.toNat < n
  · simp [h, Nat.lt_succ_of_lt h]
  · simp [h]

variable [CommRing α]

/-- Which terms are left over depends neither on the order nor on what has been summed up. -/
theorem innerFrom_rest (y : α) (o o' : Order) (i n : ℕ) (terms : List (Monomial2 α))
    (q q' : Jet1 α) : (innerFrom y o i n terms q).2 = (innerFrom y o' i n terms q').2 := by
  induction n generalizing terms q q' with
  | zero => rfl
  | succ n ih => exact ih _ _ _

/-- Every pass goes on from where the one before it has stopped. -/
theorem inner_termsBelow (p : Polynomial2 α) (y : α) (o : Order) (i : ℕ) :
    (inner y o i (termsBelow (i + 1) p.terms)).2 = termsBelow i p.terms := by
  have horder : (inner y o i (termsBelow (i + 1) p.terms)).2 =
      (inner y .second i (termsBelow (i + 1) p.terms)).2 := by
    unfold inner
    split
    · exact innerFrom_rest y o .second i _ _ _ _
    · rfl
  have hbound : ∀ t ∈ termsBelow (i + 1) p.terms, t.exponents.x.toNat < i + 1 := by
    intro t ht
    exact of_decide_eq_true (List.mem_filter.mp ht).2
  rw [horder, inner_second_rest y (p.descending_termsBelow _) hbound]
  exact termsBelow_termsBelow i p.terms

/-- The sum over a list of terms of what `g` makes of both exponents and the coefficient. -/
def sumOver (terms : List (Monomial2 α)) (g : ℕ → ℕ → α → α) : α :=
  (terms.map fun t => g t.exponents.x.toNat t.exponents.y.toNat t.coefficient).sum

theorem expand_var (p : Polynomial2 α) (x y : α) :
    p.expand Jet2.constant (Jet2.varX x) (Jet2.varY y) =
      { f := sumOver p.terms fun i j c => c * x ^ i * y ^ j
        fx := sumOver p.terms fun i j c => i * c * x ^ (i - 1) * y ^ j
        fy := sumOver p.terms fun i j c => j * c * x ^ i * y ^ (j - 1)
        fxx := sumOver p.terms fun i j c => i * (i - 1) * c * x ^ (i - 2) * y ^ j
        fxy := sumOver p.terms fun i j c => i * j * c * x ^ (i - 1) * y ^ (j - 1)
        fyy := sumOver p.terms fun i j c => j * (j - 1) * c * x ^ i * y ^ (j - 2) } := by
  unfold expand
  induction p.terms with
  | nil => rfl
  | cons t rest ih =>
    rw [List.map_cons, List.sum_cons, ih, Monomial2.expand_var]
    rfl

end Polynomial2

open Polynomial2 in
/-- Over every commutative ring and at every point, Horner evaluation of a list of terms that makes
a polynomial returns the sum of the terms and the sums of their derivatives; a factor of zero makes
up for an exponent that would fall below zero. The pass for every power of `x` takes the terms with
this power and no others off the list, which is complete before the first pass and empty after the
last one. -/
theorem horner_eq_sumOver {α : Type u} [CommRing α] {terms : List (Monomial2 α)}
    {p : Polynomial2 α} (h : ofTerms? terms = .ok p) (x y : α) :
    p.horner x y .second =
      { f := sumOver terms fun i j c => c * x ^ i * y ^ j
        fx := sumOver terms fun i j c => i * c * x ^ (i - 1) * y ^ j
        fy := sumOver terms fun i j c => j * c * x ^ i * y ^ (j - 1)
        fxx := sumOver terms fun i j c => i * (i - 1) * c * x ^ (i - 2) * y ^ j
        fxy := sumOver terms fun i j c => i * j * c * x ^ (i - 1) * y ^ (j - 1)
        fyy := sumOver terms fun i j c => j * (j - 1) * c * x ^ i * y ^ (j - 2) } ∧
    (∀ n, p.degreeX? = some n → termsBelow (n.toNat + 1) terms = terms) ∧
    (∀ o i, (inner y o i (termsBelow (i + 1) terms)).2 = termsBelow i terms) ∧
    termsBelow 0 terms = [] := by
  obtain rfl := terms_of_ofTerms? h
  refine ⟨?_, fun n hn => termsBelow_succ_degreeX hn, p.inner_termsBelow y, ?_⟩
  · rw [horner_second, expand_var]
  · exact List.filter_eq_nil_iff.mpr fun t _ => by simp

/-- `5 x^3 y^2 - x^3 + 2 x y^4`: no term has the power `x^2`, and only one has no power of `y`. -/
def sampleTerms : List (Monomial2 ℤ) := [⟨⟨3, 2⟩, 5⟩, ⟨⟨3, 0⟩, -1⟩, ⟨⟨1, 4⟩, 2⟩]

theorem sampleTerms_horner : ∃ p, Polynomial2.ofTerms? sampleTerms = .ok p ∧
    p.horner 0 (-1) .second = ⟨0, 2, 0, 0, -8, 0⟩ := by
  have hd : Descending (sampleTerms.map (·.exponents)) := by
    simp [sampleTerms, Descending, Exponents.lt_def]
  have hp : Polynomial2.ofTerms? sampleTerms = .ok ⟨sampleTerms, hd⟩ :=
    Polynomial2.ofTerms?_terms ⟨sampleTerms, hd⟩
  refine ⟨_, hp, ?_⟩
  rw [(horner_eq_sumOver hp 0 (-1)).1]
  simp [Polynomial2.sumOver, sampleTerms]

end Helmholtz
