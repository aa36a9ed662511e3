/-! Lists of terms in strictly descending order of their exponents. -/

namespace Helmholtz

/-- The exponents of `x` and `y` in a term of two variables. -/
structure Exponents where
  x : UInt32
  y : UInt32
  deriving DecidableEq

namespace Exponents

/-- The exponent of `x` decides, that of `y` only if it is the same. -/
instance : LT Exponents := ⟨fun a b => a.x < b.x ∨ a.x = b.x ∧ a.y < b.y⟩

instance (a b : Exponents) : Decidable (a < b) :=
  inferInstanceAs (Decidable (a.x < b.x ∨ a.x = b.x ∧ a.y < b.y))

theorem lt_def {a b : Exponents} : a < b ↔ a.x < b.x ∨ a.x = b.x ∧ a.y < b.y := .rfl

theorem lt_trans {a b c : Exponents} (h₁ : a < b) (h₂ : b < c) : a < c := by
  simp only [lt_def, UInt32.lt_iff_toNat_lt, ← UInt32.toNat_inj] at *
  omega

end Exponents

/-- Neighbouring terms of which the second one should have been smaller. -/
inductive UnsortedTerms where
  | univariate (former latter : UInt32)
  | bivariate (former latter : Exponents)
  deriving DecidableEq

def UnsortedTerms.message (e : UnsortedTerms) : String :=
  "Coefficients are not sorted in strictly descending order: " ++
    match e with
    | univariate a b => s!"exponent {a.toNat} followed by {b.toNat}"
    | bivariate a b =>
      s!"exponents ({a.x.toNat}, {a.y.toNat}) followed by ({b.x.toNat}, {b.y.toNat})"

section Descending
variable {κ : Type u} [LT κ] [DecidableLT κ]

/-- Every key is greater than all that follow. -/
def Descending (keys : List κ) : Prop := keys.Pairwise fun a b => b < a

/-- The first two neighbours of which the second one is not smaller. -/
def firstUnsorted? : List κ → Option (κ × κ)
  | a :: b :: rest => if b < a then firstUnsorted? (b :: rest) else some (a, b)
  | _ => none

theorem descending_of_firstUnsorted? (trans : ∀ {a b c : κ}, a < b → b < c → a < c) {keys : List κ}
    (h : firstUnsorted? keys = none) : Descending keys := by
  fun_induction firstUnsorted? keys with
  | case1 a b rest hb ih =>
    have hd := ih h
    refine .cons (fun c hc => ?_) hd
    rcases List.mem_cons.1 hc with rfl | hc
    · exact hb
    · exact trans (List.rel_of_pairwise_cons hd hc) hb
  | case2 => simp at h
  | case3 keys hk =>
    match keys, hk with
    | [], _ => exact .nil
    | [a], _ => exact List.pairwise_singleton _ a
    | a :: b :: rest, hk => exact (hk a b rest rfl).elim

end Descending

/-- Takes the first element off a list if it satisfies `p`. -/
def popIf {τ : Type u} (p : τ → Bool) : List τ → Option τ × List τ
  | [] => (none, [])
  | t :: rest => if p t then (some t, rest) else (none, t :: rest)

/-- The exponent that is left of a power after `k` derivatives, in 32 bits with sign. -/
def loweredExponent (n : UInt32) (k : Int32) : Int32 := n.toInt32 - k

end Helmholtz
