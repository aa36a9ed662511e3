import Helmholtz.Proofs.BlockReading
import Mathlib.Order.Bounds.Basic

/-! The lists of terms that make a polynomial: exactly those in strictly descending order.

Only neighbours are compared. As the order of the exponents is transitive, this puts every term
before all smaller ones, and up to the first neighbours that fail the comparison the terms are in
strictly descending order as well. -/

namespace Helmholtz
universe u v w

section Keys
variable {τ : Type u} {κ : Type v} [LinearOrder κ] (key : τ → κ)

/-- Every term has a greater key than all that follow it. -/
def DescendingBy (terms : List τ) : Prop := terms.Pairwise fun s t => key t < key s

/-- The neighbours `s` and `t` are out of order, and all neighbours before them are in order. -/
structure FirstUnsortedBy (terms before : List τ) (s t : τ) (after : List τ) : Prop where
  split : terms = before ++ s :: t :: after
  neighbours : (before ++ [s]).IsChain fun s t => key t < key s
  unsorted : key s ≤ key t

/-- Of all lists of terms, `make` admits those in strictly descending order of their keys and stores
them as they are. Any other list is refused for the first neighbours that are out of order; the
terms up to the former one are in strictly descending order. -/
structure AdmitsDescending {π : Type u} {ε : Type w} (stored : π → List τ) (fault : τ → τ → ε)
    (make : List τ → Except ε π) : Prop where
  admits_iff (terms : List τ) : (∃ p, make terms = .ok p) ↔ DescendingBy key terms
  ok_iff (terms : List τ) (p : π) : make terms = .ok p ↔ stored p = terms
  nodup {terms : List τ} {p : π} (h : make terms = .ok p) : (terms.map key).Nodup
  /-- The key of the first term is the greatest one. -/
  first_iff {terms : List τ} {p : π} (h : make terms = .ok p) (k : κ) :
    terms.head?.map key = some k ↔ IsGreatest {l | ∃ t ∈ terms, key t = l} k
  error_iff (terms : List τ) (e : ε) : make terms = .error e ↔
    ∃ before s t after, FirstUnsortedBy key terms before s t after ∧ e = fault s t
  descending_before {terms before after : List τ} {s t : τ}
    (h : FirstUnsortedBy key terms before s t after) : DescendingBy key (before ++ [s])

variable {key} {terms : List τ}

theorem descendingBy_iff_isChain :
    DescendingBy key terms ↔ terms.IsChain fun s t => key t < key s := by
  have htrans : Trans (fun s t => key t < key s) (fun s t => key t < key s)
      (fun s t => key t < key s) := ⟨fun hst htu => htu.trans hst⟩
  exact List.isChain_iff_pairwise.symm

theorem DescendingBy.nodup_keys (h : DescendingBy key terms) : (terms.map key).Nodup := by
  apply List.pairwise_map.mpr
  exact h.imp fun hlt => hlt.ne'

/-- The first term has the greatest value of everything that grows with the keys. -/
theorem DescendingBy.head?_eq_some_iff {β : Type w} [PartialOrder β] {f : κ → β}
    (hf : Monotone f) (h : DescendingBy key terms) (b : β) :
    terms.head?.map (fun t => f (key t)) = some b ↔
      IsGreatest {c | ∃ t ∈ terms, f (key t) = c} b := by
  cases terms with
  | nil =>
    constructor
    · intro hb
      cases hb
    · rintro ⟨⟨t, ht, -⟩, -⟩
      cases ht
  | cons s rest =>
    have hs : IsGreatest {c | ∃ t ∈ s :: rest, f (key t) = c} (f (key s)) := by
      refine ⟨⟨s, List.mem_cons_self, rfl⟩, ?_⟩
      rintro _ ⟨t, ht, rfl⟩
      rcases List.mem_cons.mp ht with rfl | ht
      · exact le_rfl
      · exact hf (List.rel_of_pairwise_cons h ht).le
    rw [List.head?_cons, Option.map_some, Option.some.injEq]
    constructor
    · rintro rfl
      exact hs
    · intro hb
      exact hs.unique hb

section Codes
variable {ι : Type w} [LT ι] {code : τ → ι} (hcode : ∀ s t, code t < code s ↔ key t < key s)
include hcode

theorem descending_map_iff : Descending (terms.map code) ↔ DescendingBy key terms := by
  unfold Descending DescendingBy
  rw [List.pairwise_map]
  simp only [hcode]

theorem firstUnsorted_map_iff {a b : ι} : FirstUnsorted (terms.map code) a b ↔
    ∃ before s t after, FirstUnsortedBy key terms before s t after ∧ code s = a ∧ code t = b := by
  have hbefore : ∀ (before : List τ) (s : τ), Descending (before.map code ++ [code s]) ↔
      (before ++ [s]).IsChain fun s t => key t < key s := by
    intro before s
    rw [← descendingBy_iff_isChain, ← descending_map_iff hcode, List.map_append, List.map_singleton]
  have hpair : ∀ s t, ¬code t < code s ↔ key s ≤ key t := by
    intro s t
    rw [hcode, not_lt]
  constructor
  · rintro ⟨_, _, hterms, hd, hlt⟩
    obtain ⟨before, rest, rfl, rfl, hrest⟩ := List.map_eq_append_iff.mp hterms
    obtain ⟨s, rest', rfl, rfl, hrest'⟩ := List.map_eq_cons_iff.mp hrest
    obtain ⟨t, after, rfl, rfl, -⟩ := List.map_eq_cons_iff.mp hrest'
    exact ⟨before, s, t, after, ⟨rfl, (hbefore before s).mp hd, (hpair s t).mp hlt⟩, rfl, rfl⟩
  · rintro ⟨before, s, t, after, ⟨rfl, hchain, hle⟩, rfl, rfl⟩
    refine ⟨before.map code, after.map code, ?_, (hbefore before s).mpr hchain, (hpair s t).mpr hle⟩
    rw [List.map_append, List.map_cons, List.map_cons]

/-- A check of codes that are in the same order as the keys. -/
theorem AdmitsDescending.of_codes {π : Type u} {ε : Type w} {stored : π → List τ}
    {report : ι → ι → ε} {make : List τ → Except ε π}
    (hok : ∀ terms p, make terms = .ok p ↔ stored p = terms)
    (hdescending : ∀ p, Descending ((stored p).map code))
    (hstored : ∀ terms, Descending (terms.map code) → ∃ p, stored p = terms)
    (herror : ∀ terms e, make terms = .error e ↔
      ∃ a b, FirstUnsorted (terms.map code) a b ∧ e = report a b) :
    AdmitsDescending key stored (fun s t => report (code s) (code t)) make := by
  have hd : ∀ {terms p}, make terms = .ok p → DescendingBy key terms := by
    intro terms p hp
    rw [← (hok terms p).mp hp]
    exact (descending_map_iff hcode).mp (hdescending p)
  constructor
  case admits_iff =>
    intro terms
    constructor
    · rintro ⟨p, hp⟩
      exact hd hp
    · intro h
      obtain ⟨p, hterms⟩ := hstored terms ((descending_map_iff hcode).mpr h)
      exact ⟨p, (hok terms p).mpr hterms⟩
  case ok_iff => exact hok
  case nodup => exact fun hp => (hd hp).nodup_keys
  case first_iff => exact fun hp => (hd hp).head?_eq_some_iff (f := id) monotone_id
  case error_iff =>
    intro terms e
    simp only [herror, firstUnsorted_map_iff hcode]
    constructor
    · rintro ⟨_, _, ⟨before, s, t, after, h, rfl, rfl⟩, rfl⟩
      exact ⟨before, s, t, after, h, rfl⟩
    · rintro ⟨before, s, t, after, h, rfl⟩
      exact ⟨_, _, ⟨before, s, t, after, h, rfl, rfl⟩, rfl⟩
  case descending_before => exact fun h => descendingBy_iff_isChain.mpr h.neighbours

end Codes
end Keys

section Terms
variable {α : Type u}

/-- The exponent as a natural number. -/
def Monomial1.key (t : Monomial1 α) : ℕ := t.exponent.toNat

/-- Both exponents as natural numbers, of which that of `x` decides first. -/
def Monomial2.key (t : Monomial2 α) : ℕ ×ₗ ℕ := toLex t.exponents.toNats

theorem Monomial1.exponent_lt_iff (s t : Monomial1 α) :
    t.exponent < s.exponent ↔ t.key < s.key := UInt32.lt_iff_toNat_lt

theorem Monomial2.exponents_lt_iff (s t : Monomial2 α) :
    t.exponents < s.exponents ↔ t.key < s.key := Exponents.toLex_toNats_lt_iff.symm

theorem Polynomial1.admitsDescending : AdmitsDescending Monomial1.key Polynomial1.terms
    (fun s t => .univariate s.exponent t.exponent) (ofTerms? (α := α)) := by
  apply AdmitsDescending.of_codes Monomial1.exponent_lt_iff
  case hok => exact fun terms p => ofTerms?_eq_ok_iff
  case hdescending => exact descending
  case hstored => exact fun terms h => ⟨⟨terms, h⟩, rfl⟩
  case herror => exact fun terms e => ofTerms?_eq_error_iff

theorem Polynomial2.admitsDescending : AdmitsDescending Monomial2.key Polynomial2.terms
    (fun s t => .bivariate s.exponents t.exponents) (ofTerms? (α := α)) := by
  apply AdmitsDescending.of_codes Monomial2.exponents_lt_iff
  case hok => exact fun terms p => ofTerms?_eq_ok_iff
  case hdescending => exact descending
  case hstored => exact fun terms h => ⟨⟨terms, h⟩, rfl⟩
  case herror => exact fun terms e => ofTerms?_eq_error_iff

theorem Polynomial1.degree?_eq_some_iff (p : Polynomial1 α) (n : ℕ) :
    p.degree?.map UInt32.toNat = some n ↔
      IsGreatest {m | ∃ t ∈ p.terms, t.exponent.toNat = m} n := by
  have hd := (admitsDescending.admits_iff p.terms).mp ⟨p, ofTerms?_eq_ok_iff.mpr rfl⟩
  rw [degree?, Option.map_map]
  exact hd.head?_eq_some_iff monotone_id n

theorem Polynomial2.degreeX?_eq_some_iff (p : Polynomial2 α) (n : ℕ) :
    p.degreeX?.map UInt32.toNat = some n ↔
      IsGreatest {m | ∃ t ∈ p.terms, t.exponents.x.toNat = m} n := by
  have hd := (admitsDescending.admits_iff p.terms).mp ⟨p, ofTerms?_eq_ok_iff.mpr rfl⟩
  have hx : Monotone fun k : ℕ ×ₗ ℕ => (ofLex k).1 := Prod.Lex.monotone_fst_ofLex
  rw [degreeX?, Option.map_map]
  exact hd.head?_eq_some_iff hx n

end Terms

/-- In one variable and in two, a list of terms makes a polynomial exactly if it is in strictly
descending order, and is then kept as it is; any other list is refused for its first neighbours that
are out of order. The degree of a polynomial, read off the first term, is its greatest exponent. -/
theorem ofTerms?_admits_descending {α : Type u} :
    AdmitsDescending Monomial1.key Polynomial1.terms
      (fun s t => .univariate s.exponent t.exponent) (Polynomial1.ofTerms? (α := α)) ∧
    AdmitsDescending Monomial2.key Polynomial2.terms
      (fun s t => .bivariate s.exponents t.exponents) (Polynomial2.ofTerms? (α := α)) ∧
    (∀ (p : Polynomial1 α) (n : ℕ), p.degree?.map UInt32.toNat = some n ↔
      IsGreatest {m | ∃ t ∈ p.terms, t.exponent.toNat = m} n) ∧
    ∀ (p : Polynomial2 α) (n : ℕ), p.degreeX?.map UInt32.toNat = some n ↔
      IsGreatest {m | ∃ t ∈ p.terms, t.exponents.x.toNat = m} n :=
  ⟨Polynomial1.admitsDescending, Polynomial2.admitsDescending, Polynomial1.degree?_eq_some_iff,
    Polynomial2.degreeX?_eq_some_iff⟩

/-- The second and the third term have the same exponents; the last one is out of order as well. -/
def sampleRepeated : List (Monomial2 ℤ) := [⟨⟨2, 1⟩, 5⟩, ⟨⟨1, 4⟩, 2⟩, ⟨⟨1, 4⟩, -1⟩, ⟨⟨3, 0⟩, 7⟩]

theorem sampleRepeated_refused :
    Polynomial2.ofTerms? sampleRepeated = .error (.bivariate ⟨1, 4⟩ ⟨1, 4⟩) := by
  have hfirst : FirstUnsortedBy Monomial2.key sampleRepeated [⟨⟨2, 1⟩, 5⟩] ⟨⟨1, 4⟩, 2⟩
      ⟨⟨1, 4⟩, -1⟩ [⟨⟨3, 0⟩, 7⟩] := by
    refine ⟨rfl, ?_, le_rfl⟩
    simp [Monomial2.key, Exponents.toNats, Prod.Lex.toLex_lt_toLex]
  exact (ofTerms?_admits_descending.2.1.error_iff _ _).mpr ⟨_, _, _, _, hfirst, rfl⟩

/-- The exponent of `x` decides, however large that of `y` is. -/
example : firstUnsorted? [(⟨1, 0⟩ : Exponents), ⟨0, 4294967295⟩, ⟨0, 0⟩] = none := by decide

end Helmholtz
