import Helmholtz.Proofs.DirectSum
import Helmholtz.Proofs.NamedFunctions

/-! The exponents that summation term by term hands to the integer power.

Here the summation is written once more with the power as a hook into a monad. If the hook is the
power itself, it is the summation term by term. If the hook refuses some exponents, it has a result
only if none of them is ever asked for. The exponents that the integer power gets can thus be told
from a result. They are exact and not negative as long as no exponent of the polynomial reaches
`2 ^ 31`; from there on the power is taken with the exponent less `2 ^ 32`. -/

namespace Helmholtz
universe u

section Hook
variable {α : Type u} {m : Type u → Type u} [Monad m]

/-- Adds what has to be asked for to a sum, if it is needed. -/
def addIf [Add α] (needed : Prop) [Decidable needed] (s : α) (v : m α) : m α :=
  if needed then (s + ·) <$> v else pure s

section Definitions
variable [Zero α] [One α] [Add α] [Sub α] [Mul α] [NatCast α]

/-- Adds one term to a sum of terms. The powers of `x` are asked for by the exponent of the term and
the number of derivatives. -/
def Polynomial1.addTermWith (power : α → UInt32 → Int32 → m α) (x : α) (o : Order) (p : Jet1 α)
    (t : Monomial1 α) : m (Jet1 α) := do
  let n : α := t.exponent.toNat
  let c := t.coefficient
  let f ← (fun v => p.f + c * v) <$> power x t.exponent 0
  let fx ← addIf (o.hasFirst ∧ 0 < t.exponent) p.fx ((n * c * ·) <$> power x t.exponent 1)
  let fxx ← addIf (o.hasSecond ∧ 1 < t.exponent) p.fxx
    ((n * (n - 1) * c * ·) <$> power x t.exponent 2)
  return ⟨f, fx, fxx⟩

/-- The sum of the listed terms, with the powers that are asked for. -/
def Polynomial1.directSumWith (power : α → UInt32 → Int32 → m α) (p : Polynomial1 α) (x : α)
    (o : Order) : m (Jet1 α) :=
  p.terms.foldlM (addTermWith power x o) .zero

/-- A factor times what is left of the powers in a term after `k` derivatives by `x` and `l`
derivatives by `y`. -/
def Monomial2.askPowers (power : α → UInt32 → Int32 → m α) (x y : α) (t : Monomial2 α) (a : α)
    (k l : Int32) : m α := do
  return a * (← power x t.exponents.x k) * (← power y t.exponents.y l)

/-- Adds one term to a sum of terms. The powers of `x` and `y` are asked for by the exponents of the
term and the numbers of derivatives. -/
def Polynomial2.addTermWith (power : α → UInt32 → Int32 → m α) (x y : α) (o : Order) (p : Jet2 α)
    (t : Monomial2 α) : m (Jet2 α) := do
  let i : α := t.exponents.x.toNat
  let j : α := t.exponents.y.toNat
  let c := t.coefficient
  let hasX := decide (0 < t.exponents.x)
  let hasY := decide (0 < t.exponents.y)
  let f ← (p.f + ·) <$> t.askPowers power x y c 0 0
  let fx ← addIf (o.hasFirst && hasX) p.fx (t.askPowers power x y (i * c) 1 0)
  let fy ← addIf (o.hasFirst && hasY) p.fy (t.askPowers power x y (j * c) 0 1)
  let fxx ← addIf (o.hasSecond && 1 < t.exponents.x) p.fxx
    (t.askPowers power x y (i * (i - 1) * c) 2 0)
  let fxy ← addIf (o.hasSecond && hasX && hasY) p.fxy (t.askPowers power x y (i * j * c) 1 1)
  let fyy ← addIf (o.hasSecond && 1 < t.exponents.y) p.fyy
    (t.askPowers power x y (j * (j - 1) * c) 0 2)
  return ⟨f, fx, fy, fxx, fxy, fyy⟩

/-- The sum of the listed terms, with the powers that are asked for. -/
def Polynomial2.directSumWith (power : α → UInt32 → Int32 → m α) (p : Polynomial2 α) (x y : α)
    (o : Order) : m (Jet2 α) :=
  p.terms.foldlM (addTermWith power x y o) .zero

end Definitions

/-- The hook gives the power itself after every number of derivatives that leaves something of a
power with the exponent `n`. -/
def GivesPowers [One α] [Mul α] [Div α] (power : α → UInt32 → Int32 → m α) (n : UInt32) : Prop :=
  ∀ (x : α) (k : Int32), 0 ≤ k.toInt → k.toInt ≤ n.toNat →
    power x n k = pure (intPow x (loweredExponent n k))

namespace GivesPowers
variable [One α] [Mul α] [Div α] {power : α → UInt32 → Int32 → m α} {n : UInt32}
  (h : GivesPowers power n) (x : α)
include h

theorem zero : power x n 0 = pure (intPow x (loweredExponent n 0)) :=
  h x 0 (by decide) (Int.natCast_nonneg n.toNat)

theorem one (hn : 0 < n) : power x n 1 = pure (intPow x (loweredExponent n 1)) := by
  have hlt : 0 < n.toNat := UInt32.lt_iff_toNat_lt.mp hn
  have hle : (1 : Int32).toInt ≤ n.toNat := by
    change (1 : ℤ) ≤ n.toNat
    omega
  exact h x 1 (by decide) hle

theorem two (hn : 1 < n) : power x n 2 = pure (intPow x (loweredExponent n 2)) := by
  have hlt : 1 < n.toNat := UInt32.lt_iff_toNat_lt.mp hn
  have hle : (2 : Int32).toInt ≤ n.toNat := by
    change (2 : ℤ) ≤ n.toNat
    omega
  exact h x 2 (by decide) hle

end GivesPowers

variable [LawfulMonad m]

theorem addIf_eq_pure [Add α] {needed : Prop} [Decidable needed] {s a : α} {v : m α}
    (h : needed → v = pure a) : addIf needed s v = pure (if needed then s + a else s) := by
  unfold addIf
  by_cases hn : needed
  · rw [if_pos hn, if_pos hn, h hn, map_pure]
  · rw [if_neg hn, if_neg hn]

theorem foldlM_eq_pure {σ τ : Type u} {f : σ → τ → m σ} {g : σ → τ → σ} {l : List τ}
    (h : ∀ s, ∀ t ∈ l, f s t = pure (g s t)) (s : σ) : l.foldlM f s = pure (l.foldl g s) := by
  induction l generalizing s with
  | nil => rfl
  | cons t rest ih =>
    have ht : f s t = pure (g s t) := h s t List.mem_cons_self
    have hrest : ∀ s, ∀ t ∈ rest, f s t = pure (g s t) :=
      fun s t ht => h s t (List.mem_cons_of_mem _ ht)
    rw [List.foldlM_cons, ht, pure_bind, ih hrest, List.foldl_cons]

section Sums
variable [Zero α] [One α] [Add α] [Sub α] [Mul α] [Div α] [NatCast α]
  {power : α → UInt32 → Int32 → m α}

omit [Zero α] in
theorem Polynomial1.addTermWith_eq_pure (x : α) (o : Order) (p : Jet1 α) {t : Monomial1 α}
    (h : GivesPowers power t.exponent) : addTermWith power x o p t = pure (addTerm x o p t) := by
  have hx : ∀ b : α, o.hasFirst ∧ 0 < t.exponent →
      (b * ·) <$> power x t.exponent 1 = pure (b * intPow x (loweredExponent t.exponent 1)) := by
    intro b hn
    rw [h.one x hn.2, map_pure]
  have hxx : ∀ b : α, o.hasSecond ∧ 1 < t.exponent →
      (b * ·) <$> power x t.exponent 2 = pure (b * intPow x (loweredExponent t.exponent 2)) := by
    intro b hn
    rw [h.two x hn.2, map_pure]
  unfold addTermWith
  dsimp only
  rw [h.zero x, map_pure, addIf_eq_pure (hx _), addIf_eq_pure (hxx _)]
  simp only [pure_bind]
  rfl

/-- A hook that gives all the powers gives the summation term by term. -/
theorem Polynomial1.directSumWith_eq_pure {p : Polynomial1 α} (x : α) (o : Order)
    (h : ∀ t ∈ p.terms, GivesPowers power t.exponent) :
    p.directSumWith power x o = pure (p.directSum x o) :=
  foldlM_eq_pure (fun s _ ht => addTermWith_eq_pure x o s (h _ ht)) .zero

omit [Zero α] [Add α] [Sub α] [NatCast α] in
theorem Monomial2.askPowers_eq_pure {x y : α} {t : Monomial2 α} {k l : Int32}
    (hx : power x t.exponents.x k = pure (intPow x (loweredExponent t.exponents.x k)))
    (hy : power y t.exponents.y l = pure (intPow y (loweredExponent t.exponents.y l))) (a : α) :
    t.askPowers power x y a k l = pure (a * intPow x (loweredExponent t.exponents.x k) *
      intPow y (loweredExponent t.exponents.y l)) := by
  unfold askPowers
  rw [hx, pure_bind, hy, pure_bind]

omit [Zero α] in
theorem Polynomial2.addTermWith_eq_pure (x y : α) (o : Order) (p : Jet2 α) {t : Monomial2 α}
    (hx : GivesPowers power t.exponents.x) (hy : GivesPowers power t.exponents.y) :
    addTermWith power x y o p t = pure (addTerm x y o p t) := by
  have hf := Monomial2.askPowers_eq_pure (hx.zero x) (hy.zero y)
  have hfx : 0 < t.exponents.x → _ := fun h =>
    Monomial2.askPowers_eq_pure (hx.one x h) (hy.zero y)
  have hfy : 0 < t.exponents.y → _ := fun h =>
    Monomial2.askPowers_eq_pure (hx.zero x) (hy.one y h)
  have hfxx : 1 < t.exponents.x → _ := fun h =>
    Monomial2.askPowers_eq_pure (hx.two x h) (hy.zero y)
  have hfxy : 0 < t.exponents.x → 0 < t.exponents.y → _ := fun h h' =>
    Monomial2.askPowers_eq_pure (hx.one x h) (hy.one y h')
  have hfyy : 1 < t.exponents.y → _ := fun h =>
    Monomial2.askPowers_eq_pure (hx.zero x) (hy.two y h)
  unfold addTermWith
  dsimp only
  rw [hf, map_pure, addIf_eq_pure fun h => hfx ?_ _, addIf_eq_pure fun h => hfy ?_ _,
    addIf_eq_pure fun h => hfxx ?_ _, addIf_eq_pure fun h => hfxy ?_ ?_ _,
    addIf_eq_pure fun h => hfyy ?_ _]
  · simp only [pure_bind]
    rfl
  -- what is left are the guards, each of which bounds the exponents that it speaks of
  all_goals simp_all only [Bool.and_eq_true, decide_eq_true_eq]

/-- A hook that gives all the powers gives the summation term by term. -/
theorem Polynomial2.directSumWith_eq_pure {p : Polynomial2 α} (x y : α) (o : Order)
    (h : ∀ t ∈ p.terms, GivesPowers power t.exponents.x ∧ GivesPowers power t.exponents.y) :
    p.directSumWith power x y o = pure (p.directSum x y o) :=
  foldlM_eq_pure (fun s _ ht => addTermWith_eq_pure x y o s (h _ ht).1 (h _ ht).2) .zero

/-- The power itself, of the exponent that is left after `k` derivatives. -/
def lowerPower (x : α) (n : UInt32) (k : Int32) : Id α := pure (intPow x (loweredExponent n k))

theorem Polynomial1.directSumWith_lowerPower (p : Polynomial1 α) (x : α) (o : Order) :
    p.directSumWith lowerPower x o = p.directSum x o :=
  directSumWith_eq_pure x o fun _ _ _ _ _ _ => rfl

theorem Polynomial2.directSumWith_lowerPower (p : Polynomial2 α) (x y : α) (o : Order) :
    p.directSumWith lowerPower x y o = p.directSum x y o :=
  directSumWith_eq_pure x y o fun _ _ => ⟨fun _ _ _ _ => rfl, fun _ _ _ _ => rfl⟩

end Sums
end Hook

section Guards
variable {α : Type u}

/-- The power itself, refused if the exponent is not as it should be. -/
def guardedPower [One α] [Mul α] [Div α] (ok : UInt32 → Int32 → Prop) [∀ n k, Decidable (ok n k)]
    (x : α) (n : UInt32) (k : Int32) : Option α :=
  if ok n k then some (intPow x (loweredExponent n k)) else none

theorem givesPowers_guardedPower [One α] [Mul α] [Div α] {ok : UInt32 → Int32 → Prop}
    [∀ n k, Decidable (ok n k)] {n : UInt32}
    (h : ∀ k : Int32, 0 ≤ k.toInt → k.toInt ≤ n.toNat → ok n k) :
    GivesPowers (guardedPower (α := α) ok) n :=
  fun _ k h₀ hk => if_pos (h k h₀ hk)

theorem foldlM_eq_none {σ τ : Type u} {f : σ → τ → Option σ} {l : List τ} {t : τ} (ht : t ∈ l)
    (h : ∀ s, f s t = none) (s : σ) : l.foldlM f s = none := by
  induction l generalizing s with
  | nil => cases ht
  | cons t' rest ih =>
    rw [List.foldlM_cons]
    rcases List.mem_cons.mp ht with rfl | ht
    · rw [h s]
      rfl
    · cases f s t' with
      | none => rfl
      | some s' => exact ih ht s'

/-- Neither the change to 32 bits with sign nor the subtraction changes the exponent, and what is
left is not negative. -/
def ExactExponent (n : UInt32) (k : Int32) : Prop :=
  n.toInt32.toInt = n.toNat ∧ (loweredExponent n k).toInt = n.toNat - k.toInt ∧
    0 ≤ (loweredExponent n k).toInt

instance (n : UInt32) (k : Int32) : Decidable (ExactExponent n k) :=
  inferInstanceAs (Decidable (_ ∧ _ ∧ _))

theorem exactExponent_iff {n : UInt32} {k : Int32} (h₀ : 0 ≤ k.toInt) (hk : k.toInt ≤ n.toNat) :
    ExactExponent n k ↔ n.toNat < 2 ^ 31 := by
  have hcast := toInt_toInt32_eq_ite n
  constructor
  · intro h
    have hlt : n.toInt32.toInt < 2 ^ 31 := n.toInt32.toInt_lt
    have hexact := h.1
    omega
  · intro hn
    have hk' : k.toInt = k.toInt.toNat := (Int.toNat_of_nonneg h₀).symm
    have hle : k.toInt.toNat ≤ n.toNat := by omega
    have hlowered := loweredExponent_toInt hn hk' hle
    refine ⟨?_, ?_, ?_⟩
    · rw [hcast, if_pos hn]
    · rw [hlowered]
      omega
    · rw [hlowered]
      omega

theorem guardedPower_exactExponent_zero [One α] [Mul α] [Div α] (x : α) {n : UInt32}
    (hn : ¬n.toNat < 2 ^ 31) : guardedPower ExactExponent x n 0 = none := by
  have hiff : ExactExponent n 0 ↔ n.toNat < 2 ^ 31 :=
    exactExponent_iff (by decide) (Int.natCast_nonneg n.toNat)
  exact if_neg (hiff.not.mpr hn)

theorem givesPowers_exactExponent [One α] [Mul α] [Div α] {n : UInt32} (hn : n.toNat < 2 ^ 31) :
    GivesPowers (guardedPower (α := α) ExactExponent) n :=
  givesPowers_guardedPower fun _ h₀ hk => (exactExponent_iff h₀ hk).mpr hn

variable [Zero α] [One α] [Add α] [Sub α] [Mul α] [Div α] [NatCast α]

theorem Polynomial1.directSumWith_exactExponent (p : Polynomial1 α) (x : α) (o : Order) :
    p.directSumWith (guardedPower ExactExponent) x o =
      if ∀ t ∈ p.terms, t.exponent.toNat < 2 ^ 31 then some (p.directSum x o) else none := by
  split
  · next h => exact directSumWith_eq_pure x o fun t ht => givesPowers_exactExponent (h t ht)
  · next h =>
    obtain ⟨t, ht, hlarge⟩ : ∃ t ∈ p.terms, ¬t.exponent.toNat < 2 ^ 31 := by
      simpa only [not_forall, exists_prop] using h
    refine foldlM_eq_none ht (fun s => ?_) _
    unfold addTermWith
    rw [guardedPower_exactExponent_zero x hlarge]
    rfl

theorem Polynomial2.directSumWith_exactExponent (p : Polynomial2 α) (x y : α) (o : Order) :
    p.directSumWith (guardedPower ExactExponent) x y o =
      if ∀ t ∈ p.terms, t.exponents.x.toNat < 2 ^ 31 ∧ t.exponents.y.toNat < 2 ^ 31 then
        some (p.directSum x y o)
      else none := by
  split
  · next h =>
    refine directSumWith_eq_pure x y o fun t ht => ?_
    exact ⟨givesPowers_exactExponent (h t ht).1, givesPowers_exactExponent (h t ht).2⟩
  · next h =>
    obtain ⟨t, ht, hlarge⟩ : ∃ t ∈ p.terms,
        ¬(t.exponents.x.toNat < 2 ^ 31 ∧ t.exponents.y.toNat < 2 ^ 31) := by
      simpa only [not_forall, exists_prop] using h
    refine foldlM_eq_none ht (fun s => ?_) _
    have hnone : ∀ a : α, t.askPowers (guardedPower ExactExponent) x y a 0 0 = none := by
      intro a
      unfold Monomial2.askPowers
      by_cases hx : t.exponents.x.toNat < 2 ^ 31
      · have hy : ¬t.exponents.y.toNat < 2 ^ 31 := fun hy => hlarge ⟨hx, hy⟩
        rw [guardedPower_exactExponent_zero y hy]
        cases guardedPower ExactExponent x t.exponents.x 0 <;> rfl
      · rw [guardedPower_exactExponent_zero x hx]
        rfl
    unfold addTermWith
    dsimp only
    rw [hnone]
    rfl

end Guards

/-- The exponents that the integer power gets in a summation term by term are the exact ones, none
of them negative, exactly if all exponents of the polynomial are below `2 ^ 31`. A larger exponent
loses `2 ^ 32` when it gets a sign, and is negative from then on. -/
theorem directSum_exponents_exact_iff {α : Type u} [Zero α] [One α] [Add α] [Sub α] [Mul α] [Div α]
    [NatCast α] :
    (∀ (p : Polynomial1 α) (x : α) (o : Order),
      p.directSumWith lowerPower x o = p.directSum x o ∧
      p.directSumWith (guardedPower ExactExponent) x o =
        if ∀ t ∈ p.terms, t.exponent.toNat < 2 ^ 31 then some (p.directSum x o) else none) ∧
    (∀ (p : Polynomial2 α) (x y : α) (o : Order),
      p.directSumWith lowerPower x y o = p.directSum x y o ∧
      p.directSumWith (guardedPower ExactExponent) x y o =
        if ∀ t ∈ p.terms, t.exponents.x.toNat < 2 ^ 31 ∧ t.exponents.y.toNat < 2 ^ 31 then
          some (p.directSum x y o)
        else none) ∧
    (∀ n : UInt32, (loweredExponent n 0).toInt =
      if n.toNat < 2 ^ 31 then (n.toNat : ℤ) else n.toNat - 2 ^ 32) := by
  refine ⟨fun p x o => ⟨?_, ?_⟩, fun p x y o => ⟨?_, ?_⟩, fun n => ?_⟩
  · exact p.directSumWith_lowerPower x o
  · exact p.directSumWith_exactExponent x o
  · exact p.directSumWith_lowerPower x y o
  · exact p.directSumWith_exactExponent x y o
  · have hsub : loweredExponent n 0 = n.toInt32 := Int32.sub_zero n.toInt32
    rw [hsub, toInt_toInt32_eq_ite]

/-- The largest exponent is handed to the power as `-1`. -/
theorem directSum_largest_exponent : ∃ p : Polynomial1 ℚ,
    Polynomial1.ofTerms? [⟨4294967295, 1⟩] = .ok p ∧
      p.directSumWith (guardedPower ExactExponent) 2 .zeroth = none ∧
      loweredExponent 4294967295 0 = -1 ∧ p.directSum 2 .zeroth = ⟨1 / 2, 0, 0⟩ := by
  have hd : Descending ([⟨4294967295, 1⟩].map (·.exponent : Monomial1 ℚ → UInt32)) :=
    List.pairwise_singleton _ _
  refine ⟨⟨[⟨4294967295, 1⟩], hd⟩, Polynomial1.ofTerms?_eq_ok_iff.mpr rfl, ?_, by decide, ?_⟩
  · rw [Polynomial1.directSumWith_exactExponent, if_neg]
    simp
  · have hlowered : loweredExponent 4294967295 0 = -1 := by decide
    have hpower : intPow (2 : ℚ) (-1) = 1 / 2 := by
      have hneg : (-1 : Int32) < 0 := by decide
      have habs : (-1 : Int32).toInt.natAbs = 1 := by decide
      rw [intPow, if_pos hneg, habs, powBySquaring_eq, one_mul, pow_one]
    simp [Polynomial1.directSum, Polynomial1.addTerm, Jet1.zero, Order.hasFirst, Order.hasSecond,
      hlowered, hpower]

end Helmholtz
