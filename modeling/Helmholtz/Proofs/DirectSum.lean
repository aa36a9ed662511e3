import Helmholtz.Proofs.Horner
import Mathlib.Tactic.IntervalCases

/-! Summation term by term computes the same sum of the listed terms as the Horner passes, as long
as no exponent leaves the range of the integer powers. -/

namespace Helmholtz
universe u

/-- Adding up from the left, starting with `s`. -/
theorem foldl_add_eq_sum {ι : Type*} {R : Type u} [AddMonoid R] (f : ι → R) (s : R) (l : List ι) :
    l.foldl (fun a b => a + f b) s = s + (l.map f).sum := by
  have h : (l.map f).foldl (· + ·) (s + 0) = s + (l.map f).foldl (· + ·) 0 := List.foldl_assoc
  rw [List.sum_eq_foldl, ← h, add_zero, List.foldl_map]

section IntegerPowers
variable {α : Type u}

theorem powBySquaring_eq [Monoid α] (x r : α) (n : ℕ) : powBySquaring x r n = r * x ^ n := by
  induction n using Nat.strong_induction_on generalizing x r with
  | _ n ih =>
    have hn : n = 2 * (n / 2) + n % 2 := (Nat.div_add_mod n 2).symm
    have hr : (if n % 2 = 1 then r * x else r) = r * x ^ (n % 2) := by
      rcases Nat.mod_two_eq_zero_or_one n with h | h <;> simp [h]
    rw [powBySquaring]
    simp only [hr]
    split
    · next h => rw [hn, h]; simp
    · next h =>
      rw [ih (n / 2) (by omega), mul_assoc, ← pow_two, ← pow_mul, ← pow_add]
      congr 2
      omega

theorem intPow_of_toInt [Monoid α] [Div α] (x : α) {n : Int32} {m : ℕ} (h : n.toInt = m) :
    intPow x n = x ^ m := by
  have hn : ¬n < 0 := by
    rw [Int32.lt_iff_toInt_lt, h]
    simp
  simp only [intPow, hn, if_false, h, Int.natAbs_natCast, powBySquaring_eq, one_mul]

end IntegerPowers

/-- A difference that does not leave 32 bits is exact. -/
theorem toInt_sub_of_le {a b : Int32} (hlow : -2 ^ 31 ≤ a.toInt - b.toInt) (hb : 0 ≤ b.toInt) :
    (a - b).toInt = a.toInt - b.toInt := by
  have hlt : a.toInt < 2 ^ 31 := a.toInt_lt
  rw [Int32.toInt_sub]
  exact Int.bmod_eq_of_le (by omega) (by omega)

theorem toInt_sub_natCast {a b : Int32} {n m : ℕ} (ha : a.toInt = n) (hb : b.toInt = m)
    (hm : m ≤ n) : (a - b).toInt = (n - m : ℕ) := by
  rw [toInt_sub_of_le (by omega) (by omega), ha, hb, Nat.cast_sub hm]

/-- An exponent of 32 bits keeps its bits when it gets a sign. -/
theorem toInt_toInt32 (n : UInt32) : n.toInt32.toInt = (n.toNat : ℤ).bmod (2 ^ 32) := by
  have hbits : n.toInt32 = Int32.ofNat n.toNat := by
    rw [← UInt32.toInt32_ofNat', UInt32.ofNat_toNat]
  rw [hbits, Int32.toInt_ofNat']
  rfl

theorem toInt_toInt32_eq_ite (n : UInt32) :
    n.toInt32.toInt = if n.toNat < 2 ^ 31 then (n.toNat : ℤ) else n.toNat - 2 ^ 32 := by
  have hlt : n.toNat < 2 ^ 32 := n.toNat_lt
  rw [toInt_toInt32, Int.bmod_def]
  split <;> split <;> omega

/-- Lowering an exponent by at most its own size is exact below `2 ^ 31`. -/
theorem loweredExponent_toInt {n : UInt32} {k : Int32} {m : ℕ} (hn : n.toNat < 2 ^ 31)
    (hk : k.toInt = m) (hm : m ≤ n.toNat) :
    (loweredExponent n k).toInt = (n.toNat - m : ℕ) := by
  have hc : n.toInt32.toInt = n.toNat := by
    rw [toInt_toInt32_eq_ite, if_pos hn]
  exact toInt_sub_natCast hc hk hm

theorem intPow_loweredExponent {α : Type u} [Monoid α] [Div α] (x : α) {n : UInt32} {k : Int32}
    {m : ℕ} (hn : n.toNat < 2 ^ 31) (hk : k.toInt = m) (hm : m ≤ n.toNat) :
    intPow x (loweredExponent n k) = x ^ (n.toNat - m) :=
  intPow_of_toInt x (loweredExponent_toInt hn hk hm)

section Terms
variable {α : Type u} [CommRing α]

theorem Jet1.var_pow (x : α) (n : ℕ) :
    var x ^ n = ⟨x ^ n, n * x ^ (n - 1), n * (n - 1) * x ^ (n - 2)⟩ := by
  induction n with
  | zero => ext <;> simp [one_def]
  | succ n ih =>
    rw [pow_succ, ih]
    rcases n with - | - | n <;> ext <;>
      simp [mul_def, identity, Order.hasFirst, pow_succ] <;> ring

theorem Monomial1.expand_var (x : α) (t : Monomial1 α) :
    t.expand Jet1.constant (Jet1.var x) =
      let n := t.exponent.toNat
      let c := t.coefficient
      ⟨c * x ^ n, n * c * x ^ (n - 1), n * (n - 1) * c * x ^ (n - 2)⟩ := by
  rw [expand, Jet1.var_pow]
  ext <;> simp [Jet1.mul_def, Jet1.constant] <;> ring

theorem Jet2.monomial_var (c x y : α) (i j : ℕ) :
    constant c * varX x ^ i * varY y ^ j =
      ⟨c * x ^ i * y ^ j, i * c * x ^ (i - 1) * y ^ j, j * c * x ^ i * y ^ (j - 1),
        i * (i - 1) * c * x ^ (i - 2) * y ^ j, i * j * c * x ^ (i - 1) * y ^ (j - 1),
        j * (j - 1) * c * x ^ i * y ^ (j - 2)⟩ := by
  rw [varX_pow, varY_pow, Jet1.var_pow, Jet1.var_pow]
  ext <;> simp [mul_def, constant, ofX, ofY] <;> ring

theorem Monomial2.expand_var (x y : α) (t : Monomial2 α) :
    t.expand Jet2.constant (Jet2.varX x) (Jet2.varY y) =
      let i := t.exponents.x.toNat
      let j := t.exponents.y.toNat
      let c := t.coefficient
      ⟨c * x ^ i * y ^ j, i * c * x ^ (i - 1) * y ^ j, j * c * x ^ i * y ^ (j - 1),
        i * (i - 1) * c * x ^ (i - 2) * y ^ j, i * j * c * x ^ (i - 1) * y ^ (j - 1),
        j * (j - 1) * c * x ^ i * y ^ (j - 2)⟩ :=
  Jet2.monomial_var _ x y _ _

variable [Div α]

theorem Polynomial1.addTerm_second (x : α) (p : Jet1 α) {t : Monomial1 α}
    (ht : t.exponent.toNat < 2 ^ 31) :
    addTerm x .second p t = p + t.expand Jet1.constant (Jet1.var x) := by
  have h0 := intPow_loweredExponent x (k := 0) (m := 0) ht rfl (Nat.zero_le _)
  have h1 := fun h => intPow_loweredExponent x (k := 1) (m := 1) ht rfl h
  have h2 := fun h => intPow_loweredExponent x (k := 2) (m := 2) ht rfl h
  rw [Monomial1.expand_var]
  simp only [addTerm, Order.hasFirst, Order.hasSecond, UInt32.lt_iff_toNat_lt, UInt32.toNat_zero,
    UInt32.toNat_one, true_and, h0]
  ext
  · rfl
  · rcases Nat.eq_zero_or_pos t.exponent.toNat with h | h
    · simp [h]
    · simp [h, h1 h]
  · rcases Nat.lt_or_ge 1 t.exponent.toNat with h | h
    · simp [h, h2 h]
    · interval_cases hn : t.exponent.toNat <;> simp

theorem Polynomial2.addTerm_second (x y : α) (p : Jet2 α) {t : Monomial2 α}
    (hx : t.exponents.x.toNat < 2 ^ 31) (hy : t.exponents.y.toNat < 2 ^ 31) :
    addTerm x y .second p t = p + t.expand Jet2.constant (Jet2.varX x) (Jet2.varY y) := by
  have x0 := intPow_loweredExponent x (k := 0) (m := 0) hx rfl (Nat.zero_le _)
  have x1 := fun h => intPow_loweredExponent x (k := 1) (m := 1) hx rfl h
  have x2 := fun h => intPow_loweredExponent x (k := 2) (m := 2) hx rfl h
  have y0 := intPow_loweredExponent y (k := 0) (m := 0) hy rfl (Nat.zero_le _)
  have y1 := fun h => intPow_loweredExponent y (k := 1) (m := 1) hy rfl h
  have y2 := fun h => intPow_loweredExponent y (k := 2) (m := 2) hy rfl h
  rw [Monomial2.expand_var]
  simp only [addTerm, Order.hasFirst, Order.hasSecond, UInt32.lt_iff_toNat_lt, UInt32.toNat_zero,
    UInt32.toNat_one, Bool.true_and, x0, y0]
  generalize t.exponents.x.toNat = i at x1 x2 ⊢
  generalize t.exponents.y.toNat = j at y1 y2 ⊢
  ext
  · rfl
  · rcases Nat.eq_zero_or_pos i with h | h
    · simp [h]
    · simp [h, x1 h]
  · rcases Nat.eq_zero_or_pos j with h | h
    · simp [h]
    · simp [h, y1 h]
  · rcases Nat.lt_or_ge 1 i with h | h
    · simp [h, x2 h]
    · interval_cases i <;> simp
  · rcases Nat.eq_zero_or_pos i with h | h
    · simp [h]
    · rcases Nat.eq_zero_or_pos j with h' | h'
      · simp [h']
      · simp [h, h', x1 h, y1 h']
  · rcases Nat.lt_or_ge 1 j with h | h
    · simp [h, y2 h]
    · interval_cases j <;> simp

theorem Polynomial1.directSum_second (p : Polynomial1 α) (x : α)
    (hp : ∀ t ∈ p.terms, t.exponent.toNat < 2 ^ 31) :
    p.directSum x .second = p.expand Jet1.constant (Jet1.var x) := by
  have hterm : ∀ (s : Jet1 α), ∀ t ∈ p.terms, addTerm x .second s t =
      s + t.expand Jet1.constant (Jet1.var x) := by
    intro s t ht
    exact addTerm_second x s (hp t ht)
  rw [directSum, List.foldl_ext _ _ _ hterm, foldl_add_eq_sum, Jet1.zero_eq, zero_add, expand]

theorem Polynomial2.directSum_second (p : Polynomial2 α) (x y : α)
    (hp : ∀ t ∈ p.terms, t.exponents.x.toNat < 2 ^ 31 ∧ t.exponents.y.toNat < 2 ^ 31) :
    p.directSum x y .second = p.expand Jet2.constant (Jet2.varX x) (Jet2.varY y) := by
  have hterm : ∀ (s : Jet2 α), ∀ t ∈ p.terms, addTerm x y .second s t =
      s + t.expand Jet2.constant (Jet2.varX x) (Jet2.varY y) := by
    intro s t ht
    exact addTerm_second x y s (hp t ht).1 (hp t ht).2
  rw [directSum, List.foldl_ext _ _ _ hterm, foldl_add_eq_sum, Jet2.zero_eq, zero_add, expand]

end Terms
end Helmholtz
