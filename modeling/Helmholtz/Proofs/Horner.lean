import Helmholtz.Polynomial.Bivariate
import Helmholtz.Proofs.JetRing
import Mathlib.Algebra.BigOperators.Group.List.Basic
import Mathlib.Algebra.BigOperators.Ring.List
import Mathlib.Data.List.TakeWhile

/-! The Horner passes over the listed powers compute the sum of the listed terms.

The sum is taken in the ring of jets, where the variable stands for its own jet, so that one
identity covers the value and all derivatives. -/

namespace Helmholtz
universe u v w

section Expand
variable {α : Type u} {R : Type v} [CommRing R] {S : Type w} [CommRing S]

/-- A term in the ring `R`, with `u` for the variable. -/
def Monomial1.expand (c : α → R) (u : R) (t : Monomial1 α) : R :=
  c t.coefficient * u ^ t.exponent.toNat

/-- The sum of the terms in the ring `R`, with `u` for the variable. -/
def Polynomial1.expand (c : α → R) (u : R) (p : Polynomial1 α) : R :=
  (p.terms.map (·.expand c u)).sum

/-- A term in the ring `R`, with `u` and `v` for the variables. -/
def Monomial2.expand (c : α → R) (u v : R) (t : Monomial2 α) : R :=
  c t.coefficient * u ^ t.exponents.x.toNat * v ^ t.exponents.y.toNat

/-- The sum of the terms in the ring `R`, with `u` and `v` for the variables. -/
def Polynomial2.expand (c : α → R) (u v : R) (p : Polynomial2 α) : R :=
  (p.terms.map (·.expand c u v)).sum

/-- The polynomial without powers of the variables. -/
def Polynomial2.constant (a : α) : Polynomial2 α :=
  ⟨[⟨⟨0, 0⟩, a⟩], List.pairwise_singleton _ _⟩

theorem Polynomial2.expand_constant (c : α → R) (u v : R) (a : α) :
    (constant a).expand c u v = c a := by
  simp [constant, expand, Monomial2.expand]

theorem Polynomial1.map_expand (φ : R →+* S) (c : α → R) (u : R) (p : Polynomial1 α) :
    φ (p.expand c u) = p.expand (fun a => φ (c a)) (φ u) := by
  simp only [expand, map_list_sum, List.map_map]
  congr 1
  exact List.map_congr_left fun t _ => by simp [Monomial1.expand]

theorem Polynomial2.map_expand (φ : R →+* S) (c : α → R) (u v : R) (p : Polynomial2 α) :
    φ (p.expand c u v) = p.expand (fun a => φ (c a)) (φ u) (φ v) := by
  simp only [expand, map_list_sum, List.map_map]
  congr 1
  exact List.map_congr_left fun t _ => by simp [Monomial2.expand]

end Expand

/-- The next element is taken if it satisfies the condition, and nothing changes if not. -/
theorem popIf_cases {τ : Type u} (p : τ → Bool) (l : List τ) :
    (∃ t rest, l = t :: rest ∧ p t = true ∧ popIf p l = (some t, rest)) ∨
      (∀ t rest, l = t :: rest → p t = false) ∧ popIf p l = (none, l) := by
  cases l with
  | nil => exact .inr ⟨by simp, rfl⟩
  | cons t rest =>
    cases h : p t with
    | true => exact .inl ⟨t, rest, rfl, h, by simp [popIf, h]⟩
    | false => exact .inr ⟨by simp [h], by simp [popIf, h]⟩

namespace Polynomial1
variable {α : Type u}

theorem exponent_lt {t : Monomial1 α} {rest : List (Monomial1 α)}
    (hd : Descending ((t :: rest).map (·.exponent))) {s : Monomial1 α} (hs : s ∈ rest) :
    s.exponent.toNat < t.exponent.toNat :=
  UInt32.lt_iff_toNat_lt.mp (List.rel_of_pairwise_cons hd (List.mem_map_of_mem hs))

theorem exponent_le_degree {p : Polynomial1 α} {n : UInt32} (h : p.degree? = some n)
    {t : Monomial1 α} (ht : t ∈ p.terms) : t.exponent.toNat ≤ n.toNat := by
  obtain ⟨terms, hd⟩ := p
  cases terms with
  | nil => cases ht
  | cons s rest =>
    cases h
    rcases List.mem_cons.mp ht with rfl | ht
    · exact le_rfl
    · exact (exponent_lt hd ht).le

theorem exponent_lt_of_head_ne {n : ℕ} {terms : List (Monomial1 α)}
    (hd : Descending (terms.map (·.exponent))) (hn : ∀ t ∈ terms, t.exponent.toNat < n + 1)
    (hne : ∀ t rest, terms = t :: rest → (t.exponent.toNat == n) = false) :
    ∀ t ∈ terms, t.exponent.toNat < n := by
  cases terms with
  | nil => simp
  | cons t rest =>
    have ht : t.exponent.toNat < n := by
      have h₁ := hn t (by simp)
      have h₂ : t.exponent.toNat ≠ n := by simpa using hne t rest rfl
      omega
    intro s hs
    rcases List.mem_cons.mp hs with rfl | hs
    · exact ht
    · exact (exponent_lt hd hs).trans ht

variable [CommRing α]

theorem hornerStep_second (x : α) (p : Jet1 α) (c : α) :
    hornerStep x .second p c = .var x * p + .constant c := by
  ext <;> simp [hornerStep, Jet1.mul_def, Jet1.identity, Jet1.constant, Order.hasFirst,
    Order.hasSecond] <;> ring

/-- Every listed row is consumed by the step for its power, and by no other. -/
theorem hornerFrom_second (x : α) {n : ℕ} {terms : List (Monomial1 α)} (p : Jet1 α)
    (hd : Descending (terms.map (·.exponent))) (hn : ∀ t ∈ terms, t.exponent.toNat < n) :
    hornerFrom x .second n terms p = .var x ^ n * p +
      (terms.map (·.expand Jet1.constant (Jet1.var x))).sum := by
  induction n generalizing terms p with
  | zero =>
    have : terms = [] := List.eq_nil_iff_forall_not_mem.mpr fun t ht => by simpa using hn t ht
    simp [this, hornerFrom]
  | succ n ih =>
    rcases popIf_cases (·.exponent.toNat == n) terms with ⟨t, rest, rfl, ht, hpop⟩ | ⟨hne, hpop⟩
    · have he : t.exponent.toNat = n := by simpa using ht
      simp only [hornerFrom, hpop, Option.elim, hornerStep_second]
      rw [ih _ (List.Pairwise.of_cons hd) (fun s hs => he ▸ exponent_lt hd hs)]
      simp only [List.map_cons, List.sum_cons, Monomial1.expand, he]
      ring
    · have hc : (Jet1.constant 0 : Jet1 α) = 0 := rfl
      simp only [hornerFrom, hpop, Option.elim, hornerStep_second, hc]
      rw [ih _ hd (exponent_lt_of_head_ne hd hn hne)]
      ring

theorem horner_second (p : Polynomial1 α) (x : α) :
    p.horner x .second = p.expand Jet1.constant (Jet1.var x) := by
  rcases p with ⟨terms, hd⟩
  cases terms with
  | nil => rfl
  | cons t rest =>
    have hn : ∀ s ∈ t :: rest, s.exponent.toNat < t.exponent.toNat + 1 := by
      intro s hs
      exact Nat.lt_succ_of_le (exponent_le_degree (p := ⟨t :: rest, hd⟩) rfl hs)
    change hornerFrom x .second (t.exponent.toNat + 1) (t :: rest) .zero = _
    rw [hornerFrom_second x _ hd hn, Jet1.zero_eq, mul_zero, zero_add]
    rfl

end Polynomial1

namespace Polynomial2
variable {α : Type u}

private theorem exponents_lt {t : Monomial2 α} {rest : List (Monomial2 α)}
    (hd : Descending ((t :: rest).map (·.exponents))) {s : Monomial2 α} (hs : s ∈ rest) :
    s.exponents.x.toNat < t.exponents.x.toNat ∨
      s.exponents.x.toNat = t.exponents.x.toNat ∧ s.exponents.y.toNat < t.exponents.y.toNat := by
  have h : s.exponents < t.exponents := List.rel_of_pairwise_cons hd (List.mem_map_of_mem hs)
  simpa only [Exponents.lt_def, UInt32.lt_iff_toNat_lt, ← UInt32.toNat_inj] using h

theorem exponents_le_degreeX {p : Polynomial2 α} {n : UInt32} (h : p.degreeX? = some n)
    {t : Monomial2 α} (ht : t ∈ p.terms) : t.exponents.x.toNat ≤ n.toNat := by
  obtain ⟨terms, hd⟩ := p
  cases terms with
  | nil => cases ht
  | cons s rest =>
    cases h
    show t.exponents.x.toNat ≤ s.exponents.x.toNat
    rcases List.mem_cons.mp ht with rfl | ht
    · exact le_rfl
    · have hlt := exponents_lt hd ht
      omega

/-- The next term goes with the power `i` of `x`. -/
private abbrev inRow (i : ℕ) (t : Monomial2 α) : Bool := t.exponents.x.toNat == i

private theorem row_lt {i : ℕ} {t : Monomial2 α} {rest : List (Monomial2 α)}
    (hd : Descending ((t :: rest).map (·.exponents))) (ht : inRow i t = true) :
    ∀ s ∈ rest.takeWhile (inRow i), s.exponents.y.toNat < t.exponents.y.toNat := by
  intro s hs
  have hi : t.exponents.x.toNat = i := by simpa [inRow] using ht
  have hsi : s.exponents.x.toNat = i := by simpa [inRow] using List.mem_takeWhile_imp hs
  have := exponents_lt hd ((List.takeWhile_sublist _).mem hs)
  omega

/-- A row of `x` ends where the next power of `x` is smaller. -/
private theorem afterRow_lt {i : ℕ} {terms : List (Monomial2 α)}
    (hd : Descending (terms.map (·.exponents))) (hi : ∀ t ∈ terms, t.exponents.x.toNat < i + 1) :
    ∀ t ∈ terms.dropWhile (inRow i), t.exponents.x.toNat < i := by
  induction terms with
  | nil => simp
  | cons t rest ih =>
    by_cases ht : inRow i t = true
    · rw [List.dropWhile_cons_of_pos ht]
      exact ih (List.Pairwise.of_cons hd) fun s hs => hi s (List.mem_cons_of_mem _ hs)
    · rw [List.dropWhile_cons_of_neg ht]
      have hti : t.exponents.x.toNat < i := by
        have h₁ := hi t (by simp)
        have h₂ : t.exponents.x.toNat ≠ i := by simpa [inRow] using ht
        omega
      intro s hs
      rcases List.mem_cons.mp hs with rfl | hs
      · exact hti
      · have := exponents_lt hd hs
        omega

variable [CommRing α]

/-- A row of `x` as a function of `y`. -/
private def row (y : α) (terms : List (Monomial2 α)) : Jet1 α :=
  (terms.map fun t => .constant t.coefficient * .var y ^ t.exponents.y.toNat).sum

private theorem innerFrom_second (y : α) {i n : ℕ} {terms : List (Monomial2 α)} (q : Jet1 α)
    (hd : Descending (terms.map (·.exponents)))
    (hn : ∀ t ∈ terms.takeWhile (inRow i), t.exponents.y.toNat < n) :
    innerFrom y .second i n terms q =
      (.var y ^ n * q + row y (terms.takeWhile (inRow i)),
        terms.dropWhile (inRow i)) := by
  induction n generalizing terms q with
  | zero =>
    have hr : terms.takeWhile (inRow i) = [] :=
      List.eq_nil_iff_forall_not_mem.mpr fun t ht => by simpa using hn t ht
    have hdrop : terms.dropWhile (inRow i) = terms := by
      have := List.takeWhile_append_dropWhile (p := inRow i) (l := terms)
      rwa [hr, List.nil_append] at this
    simp [innerFrom, hr, hdrop, row]
  | succ n ih =>
    rcases popIf_cases (fun t => t.exponents.x.toNat == i && t.exponents.y.toNat == n) terms with
      ⟨t, rest, rfl, ht, hpop⟩ | ⟨hne, hpop⟩
    · simp only [Bool.and_eq_true] at ht
      have hrow : inRow i t = true := ht.1
      have hy : t.exponents.y.toNat = n := by simpa using ht.2
      simp only [innerFrom, hpop, Option.elim, Polynomial1.hornerStep_second]
      rw [ih _ (List.Pairwise.of_cons hd) (hy ▸ row_lt hd hrow),
        List.takeWhile_cons_of_pos hrow, List.dropWhile_cons_of_pos hrow]
      simp only [row, List.map_cons, List.sum_cons, hy]
      congr 1
      ring
    · have hlt : ∀ t ∈ terms.takeWhile (inRow i), t.exponents.y.toNat < n := by
        cases terms with
        | nil => simp
        | cons t rest =>
          by_cases hrow : inRow i t = true
          · rw [List.takeWhile_cons_of_pos hrow] at hn ⊢
            have hty : t.exponents.y.toNat < n := by
              have h₁ := hn t (by simp)
              have h₂ := hne t rest rfl
              have h₃ : t.exponents.x.toNat = i := by simpa [inRow] using hrow
              simp [h₃] at h₂
              omega
            intro s hs
            rcases List.mem_cons.mp hs with rfl | hs
            · exact hty
            · exact (row_lt hd hrow s hs).trans hty
          · rw [List.takeWhile_cons_of_neg hrow]
            simp
      have hc : (Jet1.constant 0 : Jet1 α) = 0 := rfl
      simp only [innerFrom, hpop, Option.elim, Polynomial1.hornerStep_second, hc]
      rw [ih _ hd hlt]
      congr 1
      ring

private theorem inner_second (y : α) {i : ℕ} {terms : List (Monomial2 α)}
    (hd : Descending (terms.map (·.exponents))) :
    inner y .second i terms =
      (row y (terms.takeWhile (inRow i)), terms.dropWhile (inRow i)) := by
  cases terms with
  | nil => rfl
  | cons t rest =>
    by_cases hrow : inRow i t = true
    · have hn : ∀ s ∈ (t :: rest).takeWhile (inRow i),
          s.exponents.y.toNat < t.exponents.y.toNat + 1 := by
        rw [List.takeWhile_cons_of_pos hrow]
        intro s hs
        rcases List.mem_cons.mp hs with rfl | hs
        · omega
        · exact (row_lt hd hrow s hs).trans (Nat.lt_succ_self _)
      have hh : (t :: rest).head?.filter (·.exponents.x.toNat == i) = some t := by
        simpa [Option.filter] using hrow
      simp only [inner, hh]
      rw [innerFrom_second y _ hd hn, Jet1.zero_eq, mul_zero, zero_add]
    · have hh : (t :: rest).head?.filter (·.exponents.x.toNat == i) = none := by
        simpa [Option.filter] using hrow
      simp only [inner, hh]
      rw [List.takeWhile_cons_of_neg hrow, List.dropWhile_cons_of_neg hrow]
      rfl

/-- The pass for `x ^ i` takes all terms with this power, and leaves all others. -/
theorem inner_second_rest (y : α) {i : ℕ} {terms : List (Monomial2 α)}
    (hd : Descending (terms.map (·.exponents))) (hi : ∀ t ∈ terms, t.exponents.x.toNat < i + 1) :
    (inner y .second i terms).2 = terms.filter (·.exponents.x.toNat < i) := by
  have htaken : (terms.takeWhile (inRow i)).filter (·.exponents.x.toNat < i) = [] := by
    apply List.filter_eq_nil_iff.mpr
    intro t ht
    have hti : t.exponents.x.toNat = i := by simpa [inRow] using List.mem_takeWhile_imp ht
    simp [hti]
  have hleft : (terms.dropWhile (inRow i)).filter (·.exponents.x.toNat < i) =
      terms.dropWhile (inRow i) := by
    apply List.filter_eq_self.mpr
    intro t ht
    simpa using afterRow_lt hd hi t ht
  have hsplit := List.takeWhile_append_dropWhile (p := inRow i) (l := terms)
  rw [inner_second y hd]
  conv_rhs => rw [← hsplit, List.filter_append, htaken, hleft, List.nil_append]

theorem hornerStep_second (x : α) (p : Jet2 α) (q : Jet1 α) :
    hornerStep x .second p q = .varX x * p + .ofY q := by
  ext <;> simp [hornerStep, Jet2.mul_def, Jet1.identity, Jet2.ofX, Jet2.ofY, Order.hasFirst,
    Order.hasSecond] <;> ring

private theorem sum_row (x y : α) (i : ℕ) (terms : List (Monomial2 α)) :
    ((terms.takeWhile (inRow i)).map
        (·.expand Jet2.constant (Jet2.varX x) (Jet2.varY y))).sum =
      .varX x ^ i * .ofY (row y (terms.takeWhile (inRow i))) := by
  rw [← Jet2.ofYHom_apply, row, map_list_sum, List.map_map, ← List.sum_map_mul_left]
  congr 1
  refine List.map_congr_left fun t ht => ?_
  have hi : t.exponents.x.toNat = i := by simpa [inRow] using List.mem_takeWhile_imp ht
  simp only [Monomial2.expand, Function.comp_apply, map_mul, map_pow, hi,
    Jet2.ofYHom_apply, Jet2.ofY_constant]
  ring

/-- Every listed row is consumed by the steps for its powers, and by no others. -/
theorem hornerFrom_second (x y : α) {n : ℕ} {terms : List (Monomial2 α)} (p : Jet2 α)
    (hd : Descending (terms.map (·.exponents))) (hn : ∀ t ∈ terms, t.exponents.x.toNat < n) :
    hornerFrom x y .second n terms p = .varX x ^ n * p +
      (terms.map
        (·.expand Jet2.constant (Jet2.varX x) (Jet2.varY y))).sum := by
  induction n generalizing terms p with
  | zero =>
    have : terms = [] := List.eq_nil_iff_forall_not_mem.mpr fun t ht => by simpa using hn t ht
    simp [this, hornerFrom]
  | succ n ih =>
    have hd' : Descending ((terms.dropWhile (inRow n)).map (·.exponents)) :=
      hd.sublist ((List.dropWhile_sublist _).map _)
    have hsplit := List.takeWhile_append_dropWhile (p := inRow n) (l := terms)
    simp only [hornerFrom, inner_second y hd, hornerStep_second]
    rw [ih _ hd' (afterRow_lt hd hn)]
    conv_rhs => rw [← hsplit, List.map_append, List.sum_append, sum_row]
    ring

theorem horner_second (p : Polynomial2 α) (x y : α) :
    p.horner x y .second =
      p.expand Jet2.constant (Jet2.varX x) (Jet2.varY y) := by
  rcases p with ⟨terms, hd⟩
  cases terms with
  | nil => rfl
  | cons t rest =>
    have hn : ∀ s ∈ t :: rest, s.exponents.x.toNat < t.exponents.x.toNat + 1 := by
      intro s hs
      exact Nat.lt_succ_of_le (exponents_le_degreeX (p := ⟨t :: rest, hd⟩) rfl hs)
    change hornerFrom x y .second (t.exponents.x.toNat + 1) (t :: rest) .zero = _
    rw [hornerFrom_second x y _ hd hn, Jet2.zero_eq, mul_zero, zero_add]
    rfl

/-- Evaluation at the values of inner functions and composition with them puts these in for the
variables. -/
theorem horner_compose_second (p : Polynomial2 α) (g h : Jet1 α) :
    (p.horner g.f h.f .second).compose g h .second =
      p.expand Jet2.constant (.ofX g) (.ofY h) := by
  rw [horner_second, ← Jet2.composeHom_apply, map_expand, Jet2.composeHom_ofX, Jet2.composeHom_ofY,
    Jet1.composeHom_var, Jet1.composeHom_var]
  simp only [Jet2.composeHom_constant]

end Polynomial2
end Helmholtz
