import Mathlib
import Helmholtz.Json.Token

/-! Zeros and finite numbers among the doubles.

A sum of zeros and a product of a zero and a finite number are zeros again. An integer of 64 bits and
the double that is nearest to a decimal are finite, as follows from bounds on the exponents that
rounding leaves. -/

namespace Helmholtz
namespace Double
open Float.Model
open Float.Model.UnpackedFloat

section Packing

theorem unpack_pack_zero (s : Sign) : (Float.Model.pack (.zero s)).unpack = .zero s := by
  cases s <;> rfl

theorem unpack_packedInfinity (s : Sign) :
    unpack Format.binary64 (packedInfinity Format.binary64 s) = .infinity s := by
  cases s <;> rfl

/-- A zero, or a number with a mantissa below `2 ^ n` and an exponent of at most `k`. -/
def Within (n : ℕ) (k : ℤ) : UnpackedFloat → Prop
  | .zero _ => True
  | .finite _ m e _ => m < 2 ^ n ∧ e ≤ k
  | _ => False

theorem Within.isFinite {n : ℕ} {k : ℤ} {u : UnpackedFloat} (h : Within n k u) :
    u.isFinite = true := by
  cases u with
  | zero s => rfl
  | finite s m e hm => rfl
  | infinity s => exact h.elim
  | notANumber => exact h.elim

theorem Within.mono {n : ℕ} {k k' : ℤ} {u : UnpackedFloat} (h : Within n k u) (hk : k ≤ k') :
    Within n k' u := by
  cases u with
  | zero s => trivial
  | finite s m e hm => exact ⟨h.1, h.2.trans hk⟩
  | infinity s => exact h
  | notANumber => exact h

/-- The largest biased exponent is kept for what is not finite. -/
theorem within_unpack {b : BitVec Format.binary64.numBits} {biased : BitVec 11}
    (hb : unpackExponent b = biased) (hne : biased ≠ -1#11) :
    Within 53 (max ((biased.toNat : ℤ) - 1075) (-1074)) (unpack Format.binary64 b) := by
  have hbias : (Format.binary64.exponentBias : ℤ) = 1023 := rfl
  have hmantissa : ∀ m : BitVec 52, m.toNat < 2 ^ 52 := fun m => m.isLt
  have hnormal : ∀ m : BitVec 52, (1#1 ++ m).toNat < 2 ^ 53 := fun m => (1#1 ++ m).isLt
  unfold Float.Model.UnpackedFloat.unpack
  simp only [hb, hbias]
  rw [if_neg hne]
  split
  · next h₀ =>
    split
    · trivial
    · have hm := hmantissa (unpackMantissa b)
      refine ⟨by omega, ?_⟩
      rw [h₀]
      simp
  · exact ⟨hnormal (unpackMantissa b), by omega⟩

/-- Packing makes nothing infinite whose exponent fits. -/
theorem within_unpack_pack {n : ℕ} {k : ℤ} {u : UnpackedFloat} (h : Within n k u) (h₀ : 0 ≤ k)
    (hk : k ≤ 971) : Within 53 k (Float.Model.pack u).unpack := by
  cases u with
  | zero s =>
    rw [unpack_pack_zero]
    trivial
  | finite s m e hm =>
    obtain ⟨-, he⟩ := h
    have hbias : (Format.binary64.exponentBias : ℤ) = 1023 := rfl
    have hfits : ¬2 ^ 11 ≤ (e + 1023 + 52).toNat + 1 := by omega
    have hnormal : (BitVec.ofNat 11 (e + 1023 + 52).toNat) ≠ -1#11 := by
      intro h
      have hnat := congrArg BitVec.toNat h
      rw [BitVec.toNat_ofNat] at hnat
      change _ = 2047 at hnat
      omega
    have hsubnormal : 0#11 ≠ -1#11 := by decide
    have hexponent : (BitVec.ofNat 11 (e + 1023 + 52).toNat).toNat = (e + 1023 + 52).toNat := by
      rw [BitVec.toNat_ofNat]
      omega
    change Within 53 k (unpack Format.binary64 (pack Format.binary64 (.finite s m e hm)))
    unfold Float.Model.UnpackedFloat.pack
    simp only [hbias, Nat.cast_ofNat]
    rw [if_neg hfits]
    split
    · refine (within_unpack unpackExponent_packComponents hnormal).mono ?_
      rw [hexponent]
      omega
    · refine (within_unpack unpackExponent_packComponents hsubnormal).mono ?_
      rw [BitVec.toNat_zero]
      omega
  | infinity s => exact h.elim
  | notANumber => exact h.elim

theorem within_of_isFinite_unpack {b : BitVec Format.binary64.numBits}
    (h : (unpack Format.binary64 b).isFinite = true) : Within 53 971 (unpack Format.binary64 b) := by
  have hne : (unpackExponent b : BitVec 11) ≠ -1#11 := by
    intro hb
    unfold Float.Model.UnpackedFloat.unpack at h
    simp only [hb, if_true] at h
    split at h <;> cases h
  have hlt : (unpackExponent b : BitVec 11).toNat < 2048 := (unpackExponent b : BitVec 11).isLt
  have hnat : (unpackExponent b : BitVec 11).toNat ≠ 2047 := by
    intro hb
    exact hne (BitVec.eq_of_toNat_eq hb)
  refine (within_unpack rfl hne).mono ?_
  omega

end Packing

section Rounding

theorem mantissa_shiftRight_le (em : ExtendedMantissa) (n : ℕ) :
    (em >>> n).mantissa ≤ em.mantissa := by
  induction n with
  | zero => exact le_rfl
  | succ n ih =>
    change (em >>> n).mantissa / 2 ≤ em.mantissa
    omega

theorem roundedMantissa_le (em : ExtendedMantissa) : em.roundedMantissa ≤ em.mantissa + 1 := by
  rcases em with ⟨m, r, s⟩
  cases r <;> cases s <;> simp [ExtendedMantissa.roundedMantissa, ExtendedMantissa.accuracy,
    Accuracy.roundToNearestEven]
  omega

theorem mantissa_ofMantissaAndAccuracy (m : ℕ) (a : Accuracy) :
    (ExtendedMantissa.ofMantissaAndAccuracy m a).mantissa = m := by
  cases a with
  | exact => rfl
  | inexact o => cases o <;> rfl

/-- A shift to the target exponent makes no mantissa larger, and no exponent by more than the
mantissa has digits. -/
theorem shiftToTargetExponent_le {m n : ℕ} {e k : ℤ} (a : Accuracy) (hm : m < 2 ^ n) (he : e ≤ k)
    (hk : 0 ≤ k) : (shiftToTargetExponent Format.binary64 m e a).1.mantissa ≤ m ∧
      (shiftToTargetExponent Format.binary64 m e a).2 ≤ k + n := by
  have hlog : m.log2 ≤ n := by
    rcases Nat.eq_zero_or_pos m with rfl | hpos
    · rw [Nat.log2_zero]
      omega
    · exact ((Nat.log2_lt hpos.ne').mpr hm).le
  constructor
  · have hshift := mantissa_shiftRight_le (ExtendedMantissa.ofMantissaAndAccuracy m a)
    rw [mantissa_ofMantissaAndAccuracy] at hshift
    exact hshift _
  · simp only [shiftToTargetExponent, shiftToExponent, Format.targetExponent, totalExponent,
      Format.mantissaBits, Format.minExponent]
    omega

theorem within_roundWithAccuracy (s : Sign) {m n : ℕ} {e k : ℤ} (a : Accuracy) (hm : m < 2 ^ n)
    (he : e ≤ k) (hk : 0 ≤ k) :
    Within (n + 1) (k + 2 * n + 1) (roundWithAccuracy Format.binary64 s m e a) := by
  obtain ⟨hm₁, he₁⟩ := shiftToTargetExponent_le a hm he hk
  have hrounded : (shiftToTargetExponent Format.binary64 m e a).1.roundedMantissa < 2 ^ (n + 1) := by
    have hle := roundedMantissa_le (shiftToTargetExponent Format.binary64 m e a).1
    rw [pow_succ]
    omega
  obtain ⟨hm₂, he₂⟩ := shiftToTargetExponent_le .exact hrounded he₁ (by omega)
  unfold roundWithAccuracy
  dsimp only
  split
  · trivial
  · refine ⟨lt_of_le_of_lt hm₂ hrounded, ?_⟩
    push_cast at he₂
    omega

theorem within_mul {n n' : ℕ} {k k' : ℤ} {a b : UnpackedFloat} (ha : Within n k a)
    (hb : Within n' k' b) (hk : 0 ≤ k) (hk' : 0 ≤ k') :
    Within (n + n' + 1) (k + k' + 2 * (n + n') + 1) (mul Format.binary64 a b) := by
  cases a with
  | infinity s => exact ha.elim
  | notANumber => exact ha.elim
  | zero s =>
    cases b with
    | infinity s' => exact hb.elim
    | notANumber => exact hb.elim
    | zero s' => trivial
    | finite s' m' e' hm' => trivial
  | finite s m e hm =>
    cases b with
    | infinity s' => exact hb.elim
    | notANumber => exact hb.elim
    | zero s' => trivial
    | finite s' m' e' hm' =>
      have hlt : m * m' < 2 ^ (n + n') := by
        rw [pow_add]
        exact Nat.mul_lt_mul'' ha.1 hb.1
      have hround := within_roundWithAccuracy (s * s') .exact hlt (add_le_add ha.2 hb.2) (by omega)
      push_cast at hround
      exact hround

/-- An integer gets a mantissa of full length before it is rounded. -/
theorem within_round_natCast (s : Sign) {m n : ℕ} (hm : m < 2 ^ n) :
    Within (n + 54) (2 * n + 107) (UnpackedFloat.round Format.binary64 s m 0) := by
  have hshift : (0 - Format.binary64.targetExponent (totalExponent m 0)).toNat ≤ 53 := by
    simp only [Format.targetExponent, totalExponent, Format.mantissaBits, Format.minExponent]
    omega
  have hlt : m <<< (0 - Format.binary64.targetExponent (totalExponent m 0)).toNat < 2 ^ (n + 53) := by
    rw [Nat.shiftLeft_eq, pow_add]
    exact Nat.mul_lt_mul_of_lt_of_le hm (Nat.pow_le_pow_right (by omega) hshift) (by positivity)
  have hround := within_roundWithAccuracy s .exact hlt
    (e := 0 - (0 - Format.binary64.targetExponent (totalExponent m 0)).toNat) (k := 0) (by omega) le_rfl
  push_cast at hround
  refine hround.mono ?_
  omega

theorem isNaN_roundWithAccuracy (s : Sign) (m : ℕ) (e : ℤ) (a : Accuracy) :
    (roundWithAccuracy Format.binary64 s m e a).isNaN = false := by
  unfold roundWithAccuracy
  dsimp only
  split <;> rfl

end Rounding

section Zeros

theorem eq_zero_iff {x : Float} : (x == 0) = true ↔ ∃ s, x.toModel.unpack = .zero s := by
  change (x.toModel.unpack.compare (.zero .positive) == some .eq) = true ↔ _
  cases x.toModel.unpack with
  | zero s => simp [UnpackedFloat.compare]
  | infinity s => cases s <;> simp [UnpackedFloat.compare]
  | notANumber => simp [UnpackedFloat.compare]
  | finite s m e hm => cases s <;> simp [UnpackedFloat.compare]

theorem add_eq_zero {x y : Float} (hx : (x == 0) = true) (hy : (y == 0) = true) :
    (x + y == 0) = true := by
  obtain ⟨s, hs⟩ := eq_zero_iff.mp hx
  obtain ⟨s', hs'⟩ := eq_zero_iff.mp hy
  rw [eq_zero_iff]
  change ∃ s, (Float.Model.pack (add Format.binary64 x.toModel.unpack y.toModel.unpack)).unpack = _
  rw [hs, hs', UnpackedFloat.add]
  split
  · exact ⟨_, unpack_pack_zero _⟩
  · exact ⟨_, unpack_pack_zero _⟩

/-- A zero times an infinity is no number, but no other product of a zero is. -/
theorem mul_eq_zero {x c : Float} (hx : (x == 0) = true) (hc : c.isFinite = true) :
    (x * c == 0) = true := by
  obtain ⟨s, hs⟩ := eq_zero_iff.mp hx
  rw [eq_zero_iff]
  change c.toModel.unpack.isFinite = true at hc
  change ∃ s, (Float.Model.pack (mul Format.binary64 x.toModel.unpack c.toModel.unpack)).unpack = _
  rw [hs]
  cases hu : c.toModel.unpack with
  | infinity s' =>
    rw [hu] at hc
    cases hc
  | notANumber =>
    rw [hu] at hc
    cases hc
  | zero s' => exact ⟨_, unpack_pack_zero _⟩
  | finite s' m e hm => exact ⟨_, unpack_pack_zero _⟩

end Zeros

section Finite

theorem isFinite_iff {x : Float} : x.isFinite = true ↔ x.isInf = false ∧ x.isNaN = false := by
  change x.toModel.unpack.isFinite = true ↔
    x.toModel.unpack.isInf = false ∧ x.toModel.unpack.isNaN = false
  cases x.toModel.unpack with
  | infinity s => simp [UnpackedFloat.isFinite, UnpackedFloat.isInf]
  | notANumber => simp [UnpackedFloat.isFinite, UnpackedFloat.isNaN]
  | zero s => exact ⟨fun _ => ⟨rfl, rfl⟩, fun _ => rfl⟩
  | finite s m e hm => exact ⟨fun _ => ⟨rfl, rfl⟩, fun _ => rfl⟩

theorem isFinite_neg {x : Float} (h : x.isFinite = true) : (-x).isFinite = true := by
  have hx : Within 53 971 x.toModel.unpack := within_of_isFinite_unpack h
  have hneg : Within 53 971 x.toModel.unpack.neg := by
    cases hu : x.toModel.unpack <;> rw [hu] at hx <;> exact hx
  exact (within_unpack_pack hneg (by omega) le_rfl).isFinite

theorem within_normalize_natCast {m n : ℕ} (hm : m < 2 ^ n) :
    Within (n + 54) (2 * n + 107) (UnpackedFloat.normalize Format.binary64 m 0 .positive) := by
  unfold UnpackedFloat.normalize
  split
  · next h => exact absurd (Int.compare_eq_lt.mp h) (by omega)
  · trivial
  · exact within_round_natCast .positive hm

theorem within_toUInt64_toFloat {n : ℕ} (h : n < 2 ^ 53) :
    Within 53 213 n.toUInt64.toFloat.toModel.unpack := by
  have hsize : n < UInt64.size := by
    change n < 2 ^ 64
    omega
  have hnat : n.toUInt64.toNat = n := UInt64.toNat_ofNat_of_lt' hsize
  have hnormal := within_normalize_natCast h
  rw [← hnat] at hnormal
  exact within_unpack_pack hnormal (by omega) (by omega)

/-- Without a power of ten the decimal is the integer itself. -/
theorem ofScientific_zero {n : ℕ} (hn : 0 < n) (hshift : 0 < n <<< 53) :
    UnpackedFloat.ofScientific Format.binary64 n 0 = mul Format.binary64
      (.finite .positive (n <<< 53) (-53) hshift) (.finite .positive (10 ^ 0) 0 (by decide)) := by
  have hlarge : ¬(0 : ℤ) > 2 ^ Format.binary64.exponentBits := by simp
  have hsmall : ¬(0 : ℤ) < -(2 ^ Format.binary64.exponentBits + (n.log2 : ℤ)) := by
    have hpow : (0 : ℤ) ≤ 2 ^ Format.binary64.exponentBits := by positivity
    omega
  unfold UnpackedFloat.ofScientific
  rw [dif_neg hn.ne', if_neg hlarge, if_neg hsmall, if_pos le_rfl]
  rfl

theorem isFinite_unpack_pack_mul {n n' : ℕ} {k k' : ℤ} {a b : UnpackedFloat} (ha : Within n k a)
    (hb : Within n' k' b) (hk : 0 ≤ k) (hk' : 0 ≤ k') (hfits : k + k' + 2 * (n + n') + 1 ≤ 971) :
    (Float.Model.pack (mul Format.binary64 a b)).unpack.isFinite = true := by
  have hmul := within_mul ha hb hk hk'
  exact (within_unpack_pack hmul (by omega) hfits).isFinite

theorem isFinite_ofNat {n : ℕ} (h : n ≤ 2 ^ 64) : (Float.ofNat n).isFinite = true := by
  change (Float.ofScientific n false 0).isFinite = true
  unfold Float.ofScientific
  split
  · next hfast =>
    have hone : Within 53 0 (Float.ofBits 0x3FF0000000000000).toModel.unpack :=
      ⟨by decide, by decide⟩
    have hn := within_toUInt64_toFloat hfast.1
    exact isFinite_unpack_pack_mul hn hone (by norm_num) le_rfl (by norm_num)
  · next hslow =>
    have hn : 0 < n := by omega
    have hshift : n <<< 53 = n * 2 ^ 53 := Nat.shiftLeft_eq n 53
    have hpos : 0 < n <<< 53 := by omega
    have hn' : Within 118 0 (.finite .positive (n <<< 53) (-53) hpos) := ⟨by omega, by omega⟩
    have hone : Within 1 0 (.finite .positive (10 ^ 0) 0 (by decide)) := ⟨by decide, le_rfl⟩
    change (Float.Model.pack (UnpackedFloat.ofScientific Format.binary64 n 0)).unpack.isFinite = true
    rw [ofScientific_zero hn hpos]
    exact isFinite_unpack_pack_mul hn' hone le_rfl le_rfl (by norm_num)

/-- Every integer that fits 64 bits, with or without sign. -/
theorem isFinite_ofInt {n : ℤ} (h : n.natAbs ≤ 2 ^ 64) : (Float.ofInt n).isFinite = true := by
  cases n with
  | ofNat n => exact isFinite_ofNat h
  | negSucc n => exact isFinite_neg (isFinite_ofNat h)

end Finite

section Decimals

theorem Within.isNaN {n : ℕ} {k : ℤ} {u : UnpackedFloat} (h : Within n k u) : u.isNaN = false := by
  cases u with
  | zero s => rfl
  | finite s m e hm => rfl
  | infinity s => rfl
  | notANumber => exact h.elim

theorem isNaN_unpack_pack {u : UnpackedFloat} (h : u.isNaN = false) :
    (Float.Model.pack u).unpack.isNaN = false := by
  cases u with
  | notANumber => cases h
  | zero s => cases s <;> rfl
  | infinity s => cases s <;> rfl
  | finite s m e hm =>
    by_cases he : e ≤ 971
    · have hu : Within (m.log2 + 1) 971 (.finite s m e hm) := ⟨Nat.lt_log2_self, he⟩
      exact (within_unpack_pack hu (by omega) le_rfl).isNaN
    · have hlarge : 2 ^ 11 ≤ (e + 1023 + 52).toNat + 1 := by omega
      have hbias : (Format.binary64.exponentBias : ℤ) = 1023 := rfl
      change (unpack Format.binary64 (pack Format.binary64 (.finite s m e hm))).isNaN = false
      unfold Float.Model.UnpackedFloat.pack
      simp only [hbias, Nat.cast_ofNat]
      rw [if_pos hlarge, unpack_packedInfinity]
      rfl

section Operations
variable {u : UnpackedFloat} (hu : u.isNaN = false) (s : Sign) (m : ℕ) (e : ℤ) (hm : 0 < m)
include hu

theorem isNaN_mul : (mul Format.binary64 u (.finite s m e hm)).isNaN = false := by
  cases u with
  | notANumber => cases hu
  | zero s' => rfl
  | infinity s' => rfl
  | finite s' m' e' hm' => exact isNaN_roundWithAccuracy _ _ _ _

theorem isNaN_div : (div Format.binary64 u (.finite s m e hm)).isNaN = false := by
  cases u with
  | notANumber => cases hu
  | zero s' => rfl
  | infinity s' => rfl
  | finite s' m' e' hm' => exact isNaN_roundWithAccuracy _ _ _ _

end Operations

theorem unpack_of_mem_powers {p : Float} (h : p ∈ Float.exactlyRepresentablePowersOfTen.toList) :
    ∃ s m e hm, p.toModel.unpack = .finite s m e hm := by
  have hall : (Float.exactlyRepresentablePowersOfTen.toList.all fun p =>
      match p.toModel.unpack with
      | .finite .. => true
      | _ => false) = true := by
    decide +kernel
  have hp := List.all_eq_true.mp hall p h
  cases hu : p.toModel.unpack with
  | finite s m e hm => exact ⟨s, m, e, hm, rfl⟩
  | zero s => simp [hu] at hp
  | infinity s => simp [hu] at hp
  | notANumber => simp [hu] at hp

theorem isNaN_unpacked_ofScientific (m : ℕ) (e : ℤ) :
    (UnpackedFloat.ofScientific Format.binary64 m e).isNaN = false := by
  unfold UnpackedFloat.ofScientific
  split
  · rfl
  · split
    · rfl
    · split
      · rfl
      · split
        · exact isNaN_mul rfl _ _ _ _
        · exact isNaN_div rfl _ _ _ _

/-- A decimal may be too large for a double, but always is a number. -/
theorem isNaN_ofScientific (m : ℕ) (s : Bool) (e : ℕ) :
    (Float.ofScientific m s e).isNaN = false := by
  unfold Float.ofScientific
  split
  · next hfast =>
    have hm : m.toUInt64.toFloat.toModel.unpack.isNaN = false :=
      (within_toUInt64_toFloat hfast.1).isNaN
    have he : e < Float.exactlyRepresentablePowersOfTen.size := by
      change e < 23
      omega
    obtain ⟨s', m', e', hm', hp⟩ := unpack_of_mem_powers (Array.getElem_mem_toList he)
    dsimp only
    split
    · change (Float.Model.pack (div Format.binary64 _ _)).unpack.isNaN = false
      rw [hp]
      exact isNaN_unpack_pack (isNaN_div hm _ _ _ _)
    · change (Float.Model.pack (mul Format.binary64 _ _)).unpack.isNaN = false
      rw [hp]
      exact isNaN_unpack_pack (isNaN_mul hm _ _ _ _)
  · exact isNaN_unpack_pack (isNaN_unpacked_ofScientific m _)

theorem isFinite_nearestFloat? {negative : Bool} {coefficient : ℕ} {exponent : ℤ} {x : Float}
    (h : nearestFloat? negative coefficient exponent = some x) : x.isFinite = true := by
  have hzero : (0 : Float).isFinite = true := by decide
  unfold nearestFloat? at h
  obtain ⟨y, hy, rfl⟩ := Option.map_eq_some_iff.mp h
  have hfinite : y.isFinite = true := by
    split at hy
    · cases hy
      exact hzero
    · split at hy
      · cases hy
      · split at hy
        · cases hy
          exact hzero
        · dsimp only at hy
          split at hy
          · cases hy
          · next hinf =>
            cases hy
            exact isFinite_iff.mpr ⟨Bool.not_eq_true _ ▸ hinf, isNaN_ofScientific _ _ _⟩
  split
  · exact isFinite_neg hfinite
  · exact hfinite

end Decimals
end Double
end Helmholtz
