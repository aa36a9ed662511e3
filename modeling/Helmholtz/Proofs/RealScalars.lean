import Helmholtz.Fit.Block
import Mathlib.Analysis.SpecialFunctions.Pow.Real

/-! The real numbers as scalars. -/

namespace Helmholtz

noncomputable instance : Transcendental ℝ := ⟨Real.exp, Real.log, fun v p => v ^ p⟩

/-- The natural numbers below `2 ^ 32` among the real numbers stand for exponents. -/
noncomputable instance : ReadsExponent ℝ where
  exponent? v := if v = ⌊v⌋₊ ∧ ⌊v⌋₊ < 2 ^ 32 then some (.ofNat ⌊v⌋₊) else none

theorem real_pow_natCast (v : ℝ) (n : ℕ) : Transcendental.pow v (n : ℝ) = v ^ n :=
  Real.rpow_natCast v n

theorem real_exponent?_eq_some {v : ℝ} {n : UInt32} :
    ReadsExponent.exponent? v = some n ↔ v = n.toNat := by
  constructor
  · intro h
    change (if v = ⌊v⌋₊ ∧ ⌊v⌋₊ < 2 ^ 32 then some (.ofNat ⌊v⌋₊) else none) = some n at h
    split at h
    · next hv =>
      obtain ⟨hv, hlt⟩ := hv
      cases h
      rw [UInt32.toNat_ofNat_of_lt' hlt]
      exact hv
    · cases h
  · rintro rfl
    change (if _ = _ ∧ _ then _ else _) = some n
    rw [Nat.floor_natCast, if_pos ⟨rfl, n.toNat_lt⟩, UInt32.ofNat_toNat]

theorem real_exponent?_natCast (n : UInt32) : ReadsExponent.exponent? (n.toNat : ℝ) = some n :=
  real_exponent?_eq_some.mpr rfl

end Helmholtz
