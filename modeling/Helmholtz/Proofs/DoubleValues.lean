import Helmholtz.Fit.Block
import Mathlib.Algebra.Order.Field.Basic
import Mathlib.Data.Rat.Cast.Order
import Mathlib.Tactic.Linarith
import Mathlib.Tactic.Positivity
import Mathlib.Tactic.Ring

/-! The numbers that doubles stand for. The fields of the bits give the number, and a double reads as
an exponent exactly if its number is an integer from 0 up to `2 ^ 32 - 1`. -/

namespace Helmholtz
open Float.Model
open Float.Model.UnpackedFloat

namespace Double

def unpackedValue? : UnpackedFloat → Option ℚ
  | .zero _ => some 0
  | .finite s m e _ => some (s.apply m * 2 ^ e)
  | .infinity _ => none
  | .notANumber => none

theorem unpackedValue?_finite (s : Sign) {m : ℕ} (e : ℤ) (hm : 0 < m) :
    unpackedValue? (.finite s m e hm) = some (((s.apply m : ℤ) : ℚ) * 2 ^ e) := rfl

/-- The number that a double stands for, if it stands for one. Both zeros stand for 0. -/
def value? (x : Float) : Option ℚ := unpackedValue? x.toModel.unpack

end Double

namespace Binary

/-- The number that the fields of a double stand for. -/
def value? : Binary → Option ℚ
  | finite negative m e => some ((if negative then -(m : ℚ) else m) * 2 ^ e)
  | infinite _ => none
  | nan => none

theorem value?_finite (negative : Bool) (m : ℕ) (e : ℤ) :
    (finite negative m e).value? = some ((if negative then -(m : ℚ) else m) * 2 ^ e) := rfl

section Fields
variable (b : BitVec Format.binary64.numBits)

theorem toNat_unpackMantissa : (unpackMantissa b : BitVec 52).toNat = b.toNat % 2 ^ 52 := by
  unfold unpackMantissa
  rw [BitVec.toNat_cast, BitVec.extractLsb_toNat]
  simp

theorem toNat_unpackExponent :
    (unpackExponent b : BitVec 11).toNat = b.toNat / 2 ^ 52 % 2 ^ 11 := by
  unfold unpackExponent
  rw [BitVec.toNat_cast, BitVec.extractLsb_toNat, Nat.shiftRight_eq_div_pow]
  rfl

theorem toNat_unpackSign : (unpackSign b).toNat = b.toNat / 2 ^ 63 % 2 := by
  unfold unpackSign
  rw [BitVec.toNat_cast, BitVec.extractLsb_toNat, Nat.shiftRight_eq_div_pow]
  rfl

theorem toNat_append_implicit (m : BitVec 52) : (1#1 ++ m).toNat = 2 ^ 52 + m.toNat := by
  rw [BitVec.toNat_append, ← Nat.shiftLeft_add_eq_or_of_lt m.isLt]
  rfl

theorem apply_ofBitVec (m : ℕ) : (((Sign.ofBitVec (unpackSign b)).apply m : ℤ) : ℚ) =
    if b.toNat / 2 ^ 63 % 2 = 1 then -(m : ℚ) else m := by
  have hsign := toNat_unpackSign b
  unfold Sign.ofBitVec
  by_cases h : unpackSign b = 0#1
  · have hbit : b.toNat / 2 ^ 63 % 2 ≠ 1 := by
      rw [← hsign, h]
      decide
    rw [if_pos h, if_neg hbit]
    rfl
  · have hbit : b.toNat / 2 ^ 63 % 2 = 1 := by
      have hne : (unpackSign b).toNat ≠ 0 := fun h' => h (BitVec.eq_of_toNat_eq h')
      omega
    rw [if_neg h, if_pos hbit]
    simp [Sign.apply]

/-- The fields that are read as natural numbers are those that are cut out of the bits. -/
theorem ofBits_toNat : ofBits b.toNat =
    if unpackExponent b = -1#11 then
      if unpackMantissa b = 0#52 then infinite (decide (b.toNat / 2 ^ 63 % 2 = 1)) else nan
    else if unpackExponent b = 0#11 then
      finite (decide (b.toNat / 2 ^ 63 % 2 = 1)) (unpackMantissa b).toNat minExponent
    else
      finite (decide (b.toNat / 2 ^ 63 % 2 = 1)) (2 ^ 52 + (unpackMantissa b).toNat)
        ((unpackExponent b).toNat - 1 + minExponent) := by
  have hall : (unpackExponent b : BitVec 11).toNat = 2 ^ 11 - 1 ↔ unpackExponent b = -1#11 :=
    BitVec.toNat_inj (y := -1#11)
  have hexponent : (unpackExponent b : BitVec 11).toNat = 0 ↔ unpackExponent b = 0#11 :=
    BitVec.toNat_inj (y := 0#11)
  have hmantissa : (unpackMantissa b : BitVec 52).toNat = 0 ↔ unpackMantissa b = 0#52 :=
    BitVec.toNat_inj (y := 0#52)
  unfold ofBits
  simp only [Nat.pow_eq, ← toNat_unpackExponent, ← toNat_unpackMantissa, hall, hexponent, hmantissa]

theorem value?_ofBits : (ofBits b.toNat).value? = Double.unpackedValue? (unpack _ b) := by
  have hbias : (Format.binary64.exponentBias : ℤ) = 1023 := rfl
  rw [ofBits_toNat]
  unfold UnpackedFloat.unpack
  by_cases hspecial : unpackExponent b = -1#11
  · rw [if_pos hspecial, if_pos hspecial]
    by_cases hm : unpackMantissa b = 0#52
    · rw [if_pos hm, if_pos hm]
      rfl
    · rw [if_neg hm, if_neg hm]
      rfl
  rw [if_neg hspecial, if_neg hspecial]
  by_cases hsub : unpackExponent b = 0#11
  · rw [if_pos hsub, if_pos hsub]
    by_cases hm : unpackMantissa b = 0#52
    · rw [dif_pos hm, hm, value?_finite]
      change _ = some 0
      simp
    · rw [dif_neg hm, value?_finite, Double.unpackedValue?_finite, apply_ofBitVec, hsub, hbias]
      simp [minExponent]
  · rw [if_neg hsub, if_neg hsub, value?_finite, Double.unpackedValue?_finite, apply_ofBitVec,
      toNat_append_implicit, hbias]
    have he : ((unpackExponent b : BitVec 11).toNat : ℤ) - 1 + minExponent =
        (unpackExponent b : BitVec 11).toNat - (1023 + (52 : ℕ)) := by
      unfold minExponent
      omega
    rw [he]
    simp only [decide_eq_true_eq]

end Fields

theorem value?_ofFloat (x : Float) : (ofFloat x).value? = Double.value? x :=
  value?_ofBits x.toModel.toBits.toBitVec

section Naturals
variable {m n : ℕ} {e : ℤ}

theorem neg_mul_zpow_ne_natCast (hm : m ≠ 0) : -(m : ℚ) * 2 ^ e ≠ n := by
  have hm' : (0 : ℚ) < m := by positivity
  have hneg : -(m : ℚ) * 2 ^ e < 0 :=
    mul_neg_of_neg_of_pos (neg_lt_zero.mpr hm') (zpow_pos two_pos e)
  have hn : (0 : ℚ) ≤ n := Nat.cast_nonneg n
  exact (hneg.trans_le hn).ne

theorem mul_zpow_eq_natCast_iff_of_nonneg (he : 0 ≤ e) :
    (m : ℚ) * 2 ^ e = n ↔ m * 2 ^ e.toNat = n := by
  have hpow : (2 : ℚ) ^ e = (2 ^ e.toNat : ℕ) := by
    rw [Nat.cast_pow, ← zpow_natCast, Int.toNat_of_nonneg he]
    rfl
  rw [hpow]
  exact_mod_cast Iff.rfl

theorem mul_zpow_eq_natCast_iff_of_neg (he : e < 0) :
    (m : ℚ) * 2 ^ e = n ↔ m = n * 2 ^ (-e).toNat := by
  have hpow : (2 : ℚ) ^ e = (2 ^ (-e).toNat)⁻¹ := by
    rw [← zpow_natCast, ← zpow_neg]
    congr 1
    omega
  have hne : (2 : ℚ) ^ (-e).toNat ≠ 0 := by positivity
  rw [hpow, ← div_eq_mul_inv, div_eq_iff hne]
  exact_mod_cast Iff.rfl

theorem div_eq_some_iff {d : ℕ} (hd : 0 < d) :
    (if m % d = 0 then some (m / d) else none) = some n ↔ m = n * d := by
  by_cases hdvd : m % d = 0
  · rw [if_pos hdvd, Option.some.injEq, Nat.div_eq_iff_eq_mul_left hd (Nat.dvd_of_mod_eq_zero hdvd)]
  · have hne : m ≠ n * d := by
      rintro rfl
      exact hdvd (Nat.mul_mod_left n d)
    rw [if_neg hdvd]
    simp [hne]

theorem toNat?_eq_some_iff {b : Binary} : b.toNat? = some n ↔ b.value? = some (n : ℚ) := by
  cases b with
  | nan => simp [toNat?, value?]
  | infinite negative => simp [toNat?, value?]
  | finite negative m e =>
    unfold toNat? value?
    dsimp only
    rw [Option.some.injEq]
    by_cases hm : m = 0
    · rw [if_pos hm, hm]
      simp [eq_comm]
    rw [if_neg hm]
    cases negative with
    | true =>
      have hne : -(m : ℚ) * 2 ^ e ≠ n := neg_mul_zpow_ne_natCast hm
      simpa using hne
    | false =>
      simp only [Bool.false_eq_true, if_false]
      by_cases he : 0 ≤ e
      · rw [if_pos he, mul_zpow_eq_natCast_iff_of_nonneg he, Option.some.injEq]
        rfl
      · rw [if_neg he, mul_zpow_eq_natCast_iff_of_neg (not_le.mp he)]
        exact div_eq_some_iff (Nat.two_pow_pos _)

end Naturals
end Binary

namespace Double

/-- The double is an integer from 0 up to `2 ^ 32 - 1`. -/
def IsExponent (v : Float) (n : ℕ) : Prop := value? v = some (n : ℚ) ∧ n < 2 ^ 32

theorem IsExponent.unique {v : Float} {m n : ℕ} (hm : IsExponent v m) (hn : IsExponent v n) :
    m = n := by
  have h : (m : ℚ) = n := Option.some.inj (hm.1.symm.trans hn.1)
  exact_mod_cast h

theorem exponent?_eq_some_iff {v : Float} {n : UInt32} :
    ReadsExponent.exponent? v = some n ↔ IsExponent v n.toNat := by
  have hsize : n.toNat < 2 ^ 32 := n.toNat_lt
  change ((Binary.ofFloat v).toNat?.bind fun k => if k < 2 ^ 32 then
    some (UInt32.ofNat k) else none) = some n ↔ _
  unfold IsExponent
  rw [Option.bind_eq_some_iff, ← Binary.value?_ofFloat, ← Binary.toNat?_eq_some_iff]
  constructor
  · rintro ⟨k, hk, h⟩
    split at h
    · next hlt =>
      cases h
      have hnat : (UInt32.ofNat k).toNat = k := UInt32.toNat_ofNat_of_lt' hlt
      rw [hnat]
      exact ⟨hk, hlt⟩
    · cases h
  · rintro ⟨h, -⟩
    refine ⟨n.toNat, h, ?_⟩
    rw [if_pos hsize, UInt32.ofNat_toNat]

theorem exists_exponent?_iff {v : Float} :
    (∃ n, ReadsExponent.exponent? v = some n) ↔ ∃ n, IsExponent v n := by
  constructor
  · rintro ⟨n, h⟩
    exact ⟨n.toNat, exponent?_eq_some_iff.mp h⟩
  · rintro ⟨n, h⟩
    have hnat : (UInt32.ofNat n).toNat = n := UInt32.toNat_ofNat_of_lt' h.2
    exact ⟨.ofNat n, exponent?_eq_some_iff.mpr (hnat.symm ▸ h)⟩

example : value? (-0.0) = some 0 := rfl

end Double
end Helmholtz
