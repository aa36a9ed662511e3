import Helmholtz.Fit.Basic
import Mathlib.Data.List.Forall2
import Mathlib.Data.Nat.Cast.Defs

/-! Blocks that were read determine the rows they were read from, and the residual numbers them from
one on. -/

namespace Helmholtz
universe u v
variable {α : Type u}

section Accepted
variable {ε : Type u} {β γ : Type v}

theorem Except.bind_eq_ok {x : Except ε β} {f : β → Except ε γ} {c : γ}
    (h : x >>= f = .ok c) : ∃ b, x = .ok b ∧ f b = .ok c := by
  cases x with
  | error e => cases h
  | ok b => exact ⟨b, rfl, h⟩

theorem forall₂_of_mapM_ok {read : β → Except ε γ} {bs : List β} {cs : List γ}
    (h : bs.mapM read = .ok cs) : List.Forall₂ (fun b c => read b = .ok c) bs cs := by
  induction bs generalizing cs with
  | nil =>
    cases h
    exact .nil
  | cons b rest ih =>
    rw [List.mapM_cons] at h
    obtain ⟨c, hc, h⟩ := Except.bind_eq_ok h
    obtain ⟨further, hrest, h⟩ := Except.bind_eq_ok h
    cases h
    exact .cons hc (ih hrest)

/-- If every element can be told from what is read from it, so can the list. -/
theorem eq_map_of_mapM_ok {read : β → Except ε γ} {write : γ → β}
    (hread : ∀ b c, read b = .ok c → b = write c) {bs : List β} {cs : List γ}
    (h : bs.mapM read = .ok cs) : bs = cs.map write := by
  have heq : List.Forall₂ (· = ·) bs (cs.map write) :=
    List.forall₂_map_right_iff.mpr ((forall₂_of_mapM_ok h).imp hread)
  rwa [List.forall₂_eq_eq_eq] at heq

theorem mapM_map_ok {read : β → Except ε γ} {write : γ → β} (hwrite : ∀ c, read (write c) = .ok c)
    (cs : List γ) : (cs.map write).mapM read = .ok cs := by
  induction cs with
  | nil => rfl
  | cons c rest ih =>
    rw [List.map_cons, List.mapM_cons, hwrite, ih]
    rfl

end Accepted

theorem Polynomial2.terms_of_ofTerms? {terms : List (Monomial2 α)} {p : Polynomial2 α}
    (h : ofTerms? terms = .ok p) : p.terms = terms := by
  unfold ofTerms? at h
  split at h
  · cases h
    rfl
  · cases h

theorem firstUnsorted?_eq_none {κ : Type v} [LT κ] [DecidableLT κ] {keys : List κ}
    (h : Descending keys) : firstUnsorted? keys = none := by
  fun_induction firstUnsorted? keys with
  | case1 a b rest hb ih => exact ih h.of_cons
  | case2 a b rest hb => exact (hb (List.rel_of_pairwise_cons h (by simp))).elim
  | case3 => rfl

theorem Polynomial2.ofTerms?_terms (p : Polynomial2 α) : ofTerms? p.terms = .ok p := by
  have h := firstUnsorted?_eq_none p.descending
  unfold ofTerms?
  split
  · rfl
  · next h' =>
    rw [h] at h'
    cases h'

namespace Block

/-- The row of a term: both exponents and the coefficient. -/
def termRow [NatCast α] (t : Monomial2 α) : List α :=
  [(t.exponents.x.toNat : α), (t.exponents.y.toNat : α), t.coefficient]

/-- The rows of a block: the pre exponents, the post exponents, and the terms. -/
def rows [NatCast α] (b : Block α) : List (List α) :=
  [b.preX, b.preY] :: [b.postX, b.postY] :: b.polynomial.terms.map termRow

theorem takePair?_ok {which : ExponentRow} {rows rest : List (List α)} {a b : α}
    (h : takePair? which rows = .ok (a, b, rest)) : rows = [a, b] :: rest := by
  unfold takePair? at h
  split at h <;> cases h
  rfl

variable [NatCast α] [ReadsExponent α]
  (hexp : ∀ (v : α) n, ReadsExponent.exponent? v = some n → v = n.toNat)
include hexp

theorem term?_ok {row : List α} {t : Monomial2 α} (h : term? row = .ok t) : row = termRow t := by
  unfold term? at h
  split at h
  · next i j c =>
    split at h
    · next m n hi hj =>
      cases h
      rw [termRow, hexp i m hi, hexp j n hj]
    · cases h
  · cases h

/-- A block holds everything that its rows say. -/
theorem ofRows?_ok {rows : List (List α)} {b : Block α} (h : ofRows? rows = .ok b) :
    rows = b.rows := by
  unfold ofRows? at h
  obtain ⟨⟨preX, preY, afterPre⟩, hpre, h⟩ := Except.bind_eq_ok h
  obtain ⟨⟨postX, postY, afterPost⟩, hpost, h⟩ := Except.bind_eq_ok h
  obtain ⟨terms, hterms, h⟩ := Except.bind_eq_ok h
  obtain ⟨p, hp, h⟩ := Except.bind_eq_ok h
  cases h
  have hp' : p.terms = terms := by
    cases hq : Polynomial2.ofTerms? terms with
    | error e =>
      rw [hq] at hp
      cases hp
    | ok q =>
      rw [hq] at hp
      cases hp
      exact Polynomial2.terms_of_ofTerms? hq
  rw [takePair?_ok hpre, takePair?_ok hpost, eq_map_of_mapM_ok (fun _ _ => term?_ok hexp) hterms,
    Block.rows, hp']

omit hexp in
/-- Every block is read back from its rows. -/
theorem ofRows?_rows (hexp : ∀ n : UInt32, ReadsExponent.exponent? (n.toNat : α) = some n)
    (b : Block α) : ofRows? b.rows = .ok b := by
  have hterm : ∀ t : Monomial2 α, term? (termRow t) = .ok t := by
    intro t
    simp only [termRow, term?, hexp]
  have hterms := mapM_map_ok hterm b.polynomial.terms
  simp only [ofRows?, rows, takePair?, bind, Except.bind, hterms, Polynomial2.ofTerms?_terms,
    Except.mapError]

omit hexp in
theorem rows_injective (hexp : ∀ n : UInt32, ReadsExponent.exponent? (n.toNat : α) = some n) :
    Function.Injective (rows : Block α → List (List α)) := by
  intro b c h
  have hb := ofRows?_rows hexp b
  rw [h, ofRows?_rows hexp c] at hb
  exact (Except.ok.inj hb).symm

end Block

/-- Weighted blocks with the exponents `n`, `n + 1`, and so on. -/
def WeightedBlock.numbered (n : ℕ) (bs : List (Block α)) : List (WeightedBlock α) :=
  (bs.zipIdx n).map fun (b, k) => ⟨.ofNat k, b⟩

namespace Residual
variable [ReadsExponent α]

/-- The residual of a list of blocks. -/
def ofList [Zero α] [One α] : List (Block α) → Residual α
  | [] => ⟨.zero, []⟩
  | b :: rest => ⟨b, WeightedBlock.numbered 1 rest⟩

/-- Reading and numbering the blocks at once is reading all of them before they are numbered. -/
theorem weightedFrom?_eq (n : ℕ) (blocks : List (List (List α))) :
    weightedFrom? (.ofNat n) blocks =
      (blocks.mapM Block.ofRows?).map (WeightedBlock.numbered n) := by
  induction blocks generalizing n with
  | nil => rfl
  | cons rows rest ih =>
    have hk : Int32.ofNat n + 1 = .ofNat (n + 1) := (Int32.ofNat_add n 1).symm
    rw [weightedFrom?, hk, ih, List.mapM_cons]
    cases Block.ofRows? rows with
    | error e => rfl
    | ok b =>
      cases rest.mapM Block.ofRows? with
      | error e => rfl
      | ok bs => rfl

theorem ofBlocks?_eq [Zero α] [One α] (blocks : List (List (List α))) :
    ofBlocks? blocks = (blocks.mapM Block.ofRows?).map ofList := by
  cases blocks with
  | nil => rfl
  | cons rows rest =>
    have hw : weightedFrom? 1 rest = (rest.mapM Block.ofRows?).map (WeightedBlock.numbered 1) :=
      weightedFrom?_eq 1 rest
    rw [ofBlocks?, hw, List.mapM_cons]
    cases Block.ofRows? rows with
    | error e => rfl
    | ok b =>
      cases rest.mapM Block.ofRows? with
      | error e => rfl
      | ok bs => rfl

theorem ofBlocks?_ok [Zero α] [One α] {blocks : List (List (List α))} {r : Residual α}
    (h : ofBlocks? blocks = .ok r) : ∃ bs, blocks.mapM Block.ofRows? = .ok bs ∧ r = ofList bs := by
  rw [ofBlocks?_eq] at h
  cases hb : blocks.mapM Block.ofRows? with
  | error e =>
    rw [hb] at h
    cases h
  | ok bs =>
    rw [hb] at h
    cases h
    exact ⟨bs, rfl, rfl⟩

/-- Reading keeps the number of blocks. -/
theorem FitsCounter.of_mapM_ok {ε : Type u} {β γ : Type v} {read : β → Except ε γ} {blocks : List β}
    {bs : List γ} (h : blocks.mapM read = .ok bs) (hcount : FitsCounter blocks) :
    FitsCounter bs := by
  rwa [FitsCounter, (forall₂_of_mapM_ok h).length_eq] at hcount

/-- Every list of blocks is accepted. -/
theorem ofBlocks?_rows [Zero α] [One α] [NatCast α]
    (hexp : ∀ n : UInt32, ReadsExponent.exponent? (n.toNat : α) = some n) (bs : List (Block α)) :
    ofBlocks? (bs.map Block.rows) = .ok (ofList bs) := by
  rw [ofBlocks?_eq, mapM_map_ok (Block.ofRows?_rows hexp)]
  rfl

end Residual

theorem Fit.ofSubstance?_ok [Zero α] [One α] [ReadsExponent α] {s : Substance α} {m : Fit α}
    (h : ofSubstance? s = .ok m) : ∃ r, Residual.ofBlocks? s.record.blocks = .ok r ∧
      m = ⟨s.identifier, s.molarWeight, s.record.tc, s.record.dc, s.record.r, s.record.idealGas,
        r⟩ := by
  obtain ⟨r, hr, h⟩ := Except.bind_eq_ok h
  cases h
  exact ⟨r, hr, rfl⟩

end Helmholtz
