import Helmholtz.Polynomial.Bivariate
import Mathlib.Logic.Basic

/-! The neighbours that a list of terms is rejected for: the first ones of which the second is not
smaller. All terms up to the former one are in order. -/

namespace Helmholtz
universe u

section Keys
variable {κ : Type u} [LT κ]

/-- `a` and `b` are the first neighbours that are out of order. -/
def FirstUnsorted (keys : List κ) (a b : κ) : Prop :=
  ∃ before after, keys = before ++ a :: b :: after ∧ Descending (before ++ [a]) ∧ ¬b < a

variable {a b c d : κ} {rest : List κ}

theorem firstUnsorted_cons_of_lt (trans : ∀ {a b c : κ}, a < b → b < c → a < c) (hb : b < a) :
    FirstUnsorted (a :: b :: rest) c d ↔ FirstUnsorted (b :: rest) c d := by
  constructor
  · rintro ⟨before, after, hkeys, hd, hlt⟩
    cases before with
    | nil =>
      cases hkeys
      exact absurd hb hlt
    | cons k before => exact ⟨before, after, (List.cons.inj hkeys).2, hd.of_cons, hlt⟩
  · rintro ⟨before, after, hkeys, hd, hlt⟩
    have hfirst : ∀ k ∈ before ++ [c], k = b ∨ k < b := by
      intro k hk
      cases before with
      | nil =>
        cases hkeys
        exact .inl (List.mem_singleton.mp hk)
      | cons k' before =>
        obtain rfl := (List.cons.inj hkeys).1
        rcases List.mem_cons.mp hk with rfl | hk
        · exact .inl rfl
        · exact .inr (List.rel_of_pairwise_cons hd hk)
    refine ⟨a :: before, after, congrArg (a :: ·) hkeys, ?_, hlt⟩
    refine List.pairwise_cons.mpr ⟨fun k hk => ?_, hd⟩
    rcases hfirst k hk with rfl | hk
    · exact hb
    · exact trans hk hb

theorem firstUnsorted_cons_of_not_lt (hb : ¬b < a) :
    FirstUnsorted (a :: b :: rest) c d ↔ a = c ∧ b = d := by
  constructor
  · rintro ⟨before, after, hkeys, hd, hlt⟩
    cases before with
    | nil =>
      cases hkeys
      exact ⟨rfl, rfl⟩
    | cons k before =>
      obtain ⟨rfl, hrest⟩ := List.cons.inj hkeys
      have hmem : b ∈ before ++ [c] := by
        cases before with
        | nil => exact List.mem_singleton.mpr (List.cons.inj hrest).1
        | cons k' before => exact (List.cons.inj hrest).1 ▸ List.mem_cons_self
      exact absurd (List.rel_of_pairwise_cons hd hmem) hb
  · rintro ⟨rfl, rfl⟩
    exact ⟨[], rest, rfl, List.pairwise_singleton _ a, hb⟩

theorem firstUnsorted?_eq_some_iff [DecidableLT κ] (trans : ∀ {a b c : κ}, a < b → b < c → a < c)
    {keys : List κ} : firstUnsorted? keys = some (c, d) ↔ FirstUnsorted keys c d := by
  fun_induction firstUnsorted? keys with
  | case1 a b rest hb ih => rw [ih, firstUnsorted_cons_of_lt trans hb]
  | case2 a b rest hb =>
    rw [firstUnsorted_cons_of_not_lt hb, Option.some.injEq, Prod.mk.injEq]
  | case3 keys hkeys =>
    constructor
    · intro h
      cases h
    · rintro ⟨before, after, rfl, -, -⟩
      cases before with
      | nil => exact (hkeys c d after rfl).elim
      | cons k before =>
        cases before with
        | nil => exact (hkeys k c (d :: after) rfl).elim
        | cons k' before => exact (hkeys k k' _ rfl).elim

end Keys

section Terms
variable {α : Type u}

theorem Polynomial1.ofTerms?_eq_error_iff {terms : List (Monomial1 α)} {e : UnsortedTerms} :
    ofTerms? terms = .error e ↔
      ∃ a b, FirstUnsorted (terms.map (·.exponent)) a b ∧ e = .univariate a b := by
  simp only [← firstUnsorted?_eq_some_iff UInt32.lt_trans]
  unfold ofTerms?
  split
  · next h => simp [h]
  · next a b h =>
    simp only [h, Option.some.injEq, Prod.mk.injEq, Except.error.injEq]
    constructor
    · rintro rfl
      exact ⟨a, b, ⟨rfl, rfl⟩, rfl⟩
    · rintro ⟨_, _, ⟨rfl, rfl⟩, rfl⟩
      rfl

theorem Polynomial2.ofTerms?_eq_error_iff {terms : List (Monomial2 α)} {e : UnsortedTerms} :
    ofTerms? terms = .error e ↔
      ∃ a b, FirstUnsorted (terms.map (·.exponents)) a b ∧ e = .bivariate a b := by
  simp only [← firstUnsorted?_eq_some_iff Exponents.lt_trans]
  unfold ofTerms?
  split
  · next h => simp [h]
  · next a b h =>
    simp only [h, Option.some.injEq, Prod.mk.injEq, Except.error.injEq]
    constructor
    · rintro rfl
      exact ⟨a, b, ⟨rfl, rfl⟩, rfl⟩
    · rintro ⟨_, _, ⟨rfl, rfl⟩, rfl⟩
      rfl

end Terms
end Helmholtz
