import Helmholtz.Proofs.HigherSlots
import Helmholtz.Proofs.OrderIndependence
import Helmholtz.Proofs.PowerExponents

/-! Summation term by term and Horner evaluation agree.

Both expand the polynomial in the ring of jets, so that all slots agree when all of them are asked
for. At a lower order each evaluation returns the slots that are asked for as they are at the second
order, and zeros above. -/

namespace Helmholtz
universe u

/-- A ring has one zero, and all of its elements are finite. -/
instance instSignedZerosOfRing {α : Type u} [Ring α] : SignedZeros α where
  IsZero a := a = 0
  IsFinite _ := True
  isZero_zero := rfl
  isZero_add ha hb := by rw [ha, hb, add_zero]
  isZero_mul ha _ := by rw [ha, zero_mul]

theorem Order.le_second (o : Order) : o ≤ .second := by
  cases o <;> decide

section Slots
variable {α : Type u} [Ring α]

/-- A slot that agrees with a third one where it is asked for, and is zero where it is not. -/
theorem slot_eq {asked : Bool} {a b c : α} (ha : asked = true → a = c) (hb : asked = true → b = c)
    (ha₀ : asked = false → a = 0) (hb₀ : asked = false → b = 0) : a = b := by
  cases asked with
  | true => rw [ha rfl, hb rfl]
  | false => rw [ha₀ rfl, hb₀ rfl]

variable {o : Order}

theorem Jet1.eq_of_agreeUpTo {a b c : Jet1 α} (ha : a.AgreeUpTo o c) (hb : b.AgreeUpTo o c)
    (ha₀ : a.ZeroAbove o) (hb₀ : b.ZeroAbove o) : a = b := by
  apply Jet1.ext
  · rw [ha.f, hb.f]
  · exact slot_eq ha.fx hb.fx ha₀.fx hb₀.fx
  · exact slot_eq ha.fxx hb.fxx ha₀.fxx hb₀.fxx

theorem Jet2.eq_of_agreeUpTo {a b c : Jet2 α} (ha : a.AgreeUpTo o c) (hb : b.AgreeUpTo o c)
    (ha₀ : a.ZeroAbove o) (hb₀ : b.ZeroAbove o) : a = b := by
  apply Jet2.ext
  · rw [ha.f, hb.f]
  · exact slot_eq ha.fx hb.fx ha₀.fx hb₀.fx
  · exact slot_eq ha.fy hb.fy ha₀.fy hb₀.fy
  · exact slot_eq ha.fxx hb.fxx ha₀.fxx hb₀.fxx
  · exact slot_eq ha.fxy hb.fxy ha₀.fxy hb₀.fxy
  · exact slot_eq ha.fyy hb.fyy ha₀.fyy hb₀.fyy

end Slots

section Guards

/-- The exponent that is left of a power is not negative. -/
def NonnegativeExponent (n : UInt32) (k : Int32) : Prop := 0 ≤ loweredExponent n k

instance (n : UInt32) (k : Int32) : Decidable (NonnegativeExponent n k) :=
  inferInstanceAs (Decidable (_ ≤ _))

theorem givesPowers_nonnegativeExponent {α : Type u} [One α] [Mul α] [Div α] {n : UInt32}
    (hn : n.toNat < 2 ^ 31) : GivesPowers (guardedPower (α := α) NonnegativeExponent) n := by
  refine givesPowers_guardedPower fun k h₀ hk => ?_
  have hexact : ExactExponent n k := (exactExponent_iff h₀ hk).mpr hn
  exact Int32.le_iff_toInt_le.mpr hexact.2.2

end Guards

section Polynomials
variable {α : Type u} [CommRing α] [Div α]

theorem Polynomial1.directSum_eq_horner {p : Polynomial1 α}
    (hp : ∀ t ∈ p.terms, t.exponent.toNat < 2 ^ 31) (x : α) (o : Order) :
    p.directSum x o = p.horner x o := by
  have hsecond : p.directSum x .second = p.horner x .second := by
    rw [p.directSum_second x hp, p.horner_second]
  have hdirect := p.agreeUpTo_directSum o.le_second x
  have hhorner := p.agreeUpTo_horner o.le_second x
  rw [hsecond] at hdirect
  exact Jet1.eq_of_agreeUpTo hdirect hhorner (p.zeroAbove_directSum o x) (p.zeroAbove_horner o x)

theorem Polynomial2.directSum_eq_horner {p : Polynomial2 α}
    (hp : ∀ t ∈ p.terms, t.exponents.x.toNat < 2 ^ 31 ∧ t.exponents.y.toNat < 2 ^ 31) (x y : α)
    (o : Order) : p.directSum x y o = p.horner x y o := by
  have hsecond : p.directSum x y .second = p.horner x y .second := by
    rw [p.directSum_second x y hp, p.horner_second]
  have hdirect := p.agreeUpTo_directSum o.le_second x y
  have hhorner := p.agreeUpTo_horner o.le_second x y
  rw [hsecond] at hdirect
  exact Jet2.eq_of_agreeUpTo hdirect hhorner (p.zeroAbove_directSum o x y)
    (p.zeroAbove_horner o x y)

end Polynomials

/-- Over every commutative ring, at every point and at every order, summation term by term returns
the slots that Horner evaluation returns, for all lists of terms that make a polynomial and have no
exponent from `2 ^ 31` upwards. Refusing powers with a negative exponent changes nothing, so none is
ever taken. -/
theorem directSum_agrees_horner {α : Type u} [CommRing α] [Div α] :
    (∀ (terms : List (Monomial1 α)) (p : Polynomial1 α), Polynomial1.ofTerms? terms = .ok p →
      (∀ t ∈ terms, t.exponent.toNat ≤ 2 ^ 31 - 1) → ∀ (x : α) (o : Order),
        p.directSum x o = p.horner x o ∧
        p.directSumWith (guardedPower NonnegativeExponent) x o = some (p.directSum x o)) ∧
    (∀ (terms : List (Monomial2 α)) (p : Polynomial2 α), Polynomial2.ofTerms? terms = .ok p →
      (∀ t ∈ terms, t.exponents.x.toNat ≤ 2 ^ 31 - 1 ∧ t.exponents.y.toNat ≤ 2 ^ 31 - 1) →
      ∀ (x y : α) (o : Order),
        p.directSum x y o = p.horner x y o ∧
        p.directSumWith (guardedPower NonnegativeExponent) x y o = some (p.directSum x y o)) := by
  constructor
  · intro terms p hp hterms x o
    obtain rfl := Polynomial1.ofTerms?_eq_ok_iff.mp hp
    have hlt : ∀ t ∈ p.terms, t.exponent.toNat < 2 ^ 31 := by
      intro t ht
      have hle := hterms t ht
      omega
    refine ⟨Polynomial1.directSum_eq_horner hlt x o, ?_⟩
    exact Polynomial1.directSumWith_eq_pure x o fun t ht =>
      givesPowers_nonnegativeExponent (hlt t ht)
  · intro terms p hp hterms x y o
    obtain rfl := Polynomial2.ofTerms?_eq_ok_iff.mp hp
    have hlt : ∀ t ∈ p.terms, t.exponents.x.toNat < 2 ^ 31 ∧ t.exponents.y.toNat < 2 ^ 31 := by
      intro t ht
      have hle := hterms t ht
      omega
    refine ⟨Polynomial2.directSum_eq_horner hlt x y o, ?_⟩
    exact Polynomial2.directSumWith_eq_pure x y o fun t ht =>
      ⟨givesPowers_nonnegativeExponent (hlt t ht).1, givesPowers_nonnegativeExponent (hlt t ht).2⟩

/-- The largest exponent that is allowed, and a term without `x`. -/
def sampleLargeTerms : List (Monomial2 ℤ) := [⟨⟨2147483647, 1⟩, 5⟩, ⟨⟨0, 3⟩, -2⟩]

theorem sampleLargeTerms_agrees :
    (∀ t ∈ sampleLargeTerms, t.exponents.x.toNat ≤ 2 ^ 31 - 1 ∧ t.exponents.y.toNat ≤ 2 ^ 31 - 1) ∧
    ∃ p, Polynomial2.ofTerms? sampleLargeTerms = .ok p ∧
      p.horner 0 (-1) .first = ⟨2, 0, -6, 0, 0, 0⟩ ∧
      p.directSumWith (guardedPower NonnegativeExponent) 0 (-1) .first =
        some ⟨2, 0, -6, 0, 0, 0⟩ := by
  have hterms : ∀ t ∈ sampleLargeTerms,
      t.exponents.x.toNat ≤ 2 ^ 31 - 1 ∧ t.exponents.y.toNat ≤ 2 ^ 31 - 1 := by
    simp [sampleLargeTerms]
  have hd : Descending (sampleLargeTerms.map (·.exponents)) := by
    simp [sampleLargeTerms, Descending, Exponents.lt_def]
  have hp : Polynomial2.ofTerms? sampleLargeTerms = .ok ⟨sampleLargeTerms, hd⟩ :=
    Polynomial2.ofTerms?_eq_ok_iff.mpr rfl
  obtain ⟨hhorner, hguarded⟩ := directSum_agrees_horner.2 _ _ hp hterms 0 (-1) .first
  have hpower : ∀ (x : ℤ) (n : UInt32) (k : Int32) (m : ℕ), n.toNat < 2 ^ 31 → k.toInt = m →
      m ≤ n.toNat → intPow x (loweredExponent n k) = x ^ (n.toNat - m) :=
    fun x n k m hn hk hm => intPow_loweredExponent x hn hk hm
  have hx := hpower 0 2147483647 0 0 (by decide) rfl (by decide)
  have hx' := hpower 0 2147483647 1 1 (by decide) rfl (by decide)
  have hone := hpower 0 0 0 0 (by decide) rfl (by decide)
  have hy := hpower (-1) 1 0 0 (by decide) rfl (by decide)
  have hy' := hpower (-1) 1 1 1 (by decide) rfl (by decide)
  have hcube := hpower (-1) 3 0 0 (by decide) rfl (by decide)
  have hcube' := hpower (-1) 3 1 1 (by decide) rfl (by decide)
  have hvalue : (⟨sampleLargeTerms, hd⟩ : Polynomial2 ℤ).directSum 0 (-1) .first =
      ⟨2, 0, -6, 0, 0, 0⟩ := by
    simp [Polynomial2.directSum, sampleLargeTerms, Polynomial2.addTerm, Jet2.zero, Order.hasFirst,
      Order.hasSecond, hx, hx', hone, hy, hy', hcube, hcube']
  refine ⟨hterms, _, hp, ?_, ?_⟩
  · rw [← hhorner, hvalue]
  · rw [hguarded, hvalue]

end Helmholtz
