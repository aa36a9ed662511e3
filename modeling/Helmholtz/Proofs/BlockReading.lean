import Helmholtz.Proofs.BlockRows
import Helmholtz.Proofs.DescendingTerms
import Helmholtz.Proofs.DoubleValues
import Helmholtz.Proofs.NodeFaults
import Mathlib.Data.Prod.Lex

/-! The rows of doubles that are read as a block, and what any others are rejected for. The rows are
checked from top to bottom; their order counts only once all of them can be read. -/

namespace Helmholtz
universe u v

section Traversal
variable {ε : Type u} {β γ : Type v} {read : β → Except ε γ} {bs : List β}

theorem mapM_eq_ok_iff {cs : List γ} :
    bs.mapM read = .ok cs ↔ List.Forall₂ (fun b c => read b = .ok c) bs cs := by
  constructor
  · exact forall₂_of_mapM_ok
  · intro h
    induction h with
    | nil => rfl
    | cons hb hrest ih =>
      rw [List.mapM_cons, hb, ih]
      rfl

theorem mapM_cons_eq_error_iff {b : β} {e : ε} : (b :: bs).mapM read = .error e ↔
    read b = .error e ∨ (∃ c, read b = .ok c) ∧ bs.mapM read = .error e := by
  have hpure : ∀ c, (do let cs ← bs.mapM read; pure (c :: cs)) = .error e ↔
      bs.mapM read = .error e := by
    intro c
    exact Except.map_eq_error_iff (f := (c :: ·))
  rw [List.mapM_cons, Except.bind_eq_error_iff]
  simp only [hpure, exists_and_right]

/-- The first element that cannot be read decides, whatever stands behind it. -/
theorem mapM_eq_error_iff {e : ε} : bs.mapM read = .error e ↔
    ∃ before b after, bs = before ++ b :: after ∧ (∀ b' ∈ before, ∃ c, read b' = .ok c) ∧
      read b = .error e := by
  induction bs with
  | nil =>
    constructor
    · intro h
      cases h
    · rintro ⟨before, b, after, h, -⟩
      simp at h
  | cons b rest ih =>
    rw [mapM_cons_eq_error_iff, ih]
    constructor
    · rintro (h | ⟨hb, before, b', after, rfl, hbefore, h⟩)
      · exact ⟨[], b, rest, rfl, nofun, h⟩
      · exact ⟨b :: before, b', after, rfl, List.forall_mem_cons.mpr ⟨hb, hbefore⟩, h⟩
    · rintro ⟨before, b', after, hbs, hbefore, h⟩
      cases before with
      | nil =>
        cases hbs
        exact .inl h
      | cons b'' before =>
        cases hbs
        obtain ⟨hb, hbefore⟩ := List.forall_mem_cons.mp hbefore
        exact .inr ⟨hb, before, b', after, rfl, hbefore, h⟩

end Traversal

/-- Both exponents as natural numbers. -/
def Exponents.toNats (k : Exponents) : ℕ × ℕ := (k.x.toNat, k.y.toNat)

theorem Exponents.toLex_toNats_lt_iff {k l : Exponents} :
    toLex k.toNats < toLex l.toNats ↔ k < l := by
  rw [Prod.Lex.toLex_lt_toLex, lt_def, UInt32.lt_iff_toNat_lt, UInt32.lt_iff_toNat_lt,
    ← UInt32.toNat_inj]
  rfl

namespace Block
open Double

section Rows

/-- Three entries of which the first two are integers from 0 up to `2 ^ 32 - 1`. -/
def Keyed (row : List Float) (k : ℕ × ℕ) : Prop :=
  ∃ i j c, row = [i, j, c] ∧ IsExponent i k.1 ∧ IsExponent j k.2

/-- The row says which exponents and which coefficient the term has. -/
def Writes (row : List Float) (t : Monomial2 Float) : Prop :=
  ∃ i j, row = [i, j, t.coefficient] ∧ IsExponent i t.exponents.x.toNat ∧
    IsExponent j t.exponents.y.toNat

/-- What the row of a term is rejected for: its width, then its first exponent, then its second. -/
inductive RowFault : List Float → BlockFault Float → Prop where
  | width {row : List Float} (h : row.length ≠ 3) : RowFault row (.notTerm row)
  | first {i j c : Float} (hi : ¬∃ m, IsExponent i m) : RowFault [i, j, c] (.notExponent [i, j, c])
  | second {i j c : Float} (hi : ∃ m, IsExponent i m) (hj : ¬∃ n, IsExponent j n) :
    RowFault [i, j, c] (.notExponent [i, j, c])

variable {row : List Float} {t : Monomial2 Float} {e : BlockFault Float}

theorem term?_eq_ok_iff : term? row = .ok t ↔ Writes row t := by
  unfold Writes
  simp only [← exponent?_eq_some_iff]
  unfold term?
  split
  · next i j c =>
    split
    · next m n hi hj =>
      constructor
      · intro h
        cases h
        exact ⟨i, j, rfl, hi, hj⟩
      · rintro ⟨i', j', hrow, hi', hj'⟩
        cases hrow
        cases hi.symm.trans hi'
        cases hj.symm.trans hj'
        rfl
    · next hnone =>
      constructor
      · intro h
        cases h
      · rintro ⟨i', j', hrow, hi', hj'⟩
        cases hrow
        exact (hnone _ _ hi' hj').elim
  · next hwidth =>
    constructor
    · intro h
      cases h
    · rintro ⟨i, j, hrow, -, -⟩
      exact (hwidth _ _ _ hrow).elim

theorem rowFault_iff_of_width {i j c : Float} : RowFault [i, j, c] e ↔
    e = .notExponent [i, j, c] ∧ ¬((∃ m, IsExponent i m) ∧ ∃ n, IsExponent j n) := by
  constructor
  · intro h
    cases h with
    | width h => exact absurd rfl h
    | first hi => exact ⟨rfl, fun h => hi h.1⟩
    | second hi hj => exact ⟨rfl, fun h => hj h.2⟩
  · rintro ⟨rfl, h⟩
    by_cases hi : ∃ m, IsExponent i m
    · exact .second hi fun hj => h ⟨hi, hj⟩
    · exact .first hi

theorem rowFault_iff_of_length_ne (hwidth : row.length ≠ 3) :
    RowFault row e ↔ e = .notTerm row := by
  constructor
  · intro h
    cases h with
    | width h => rfl
    | first hi => exact absurd rfl hwidth
    | second hi hj => exact absurd rfl hwidth
  · rintro rfl
    exact .width hwidth

theorem term?_eq_error_iff : term? row = .error e ↔ RowFault row e := by
  unfold term?
  split
  · next i j c =>
    rw [rowFault_iff_of_width, ← exists_exponent?_iff, ← exists_exponent?_iff]
    split
    · next m n hi hj => simp [hi, hj]
    · next hnone =>
      have hfault : ¬((∃ m, ReadsExponent.exponent? i = some m) ∧
          ∃ n, ReadsExponent.exponent? j = some n) := by
        rintro ⟨⟨m, hi⟩, n, hj⟩
        exact hnone m n hi hj
      rw [Except.error.injEq, and_iff_left hfault, eq_comm]
  · next hwidth =>
    have hlength : row.length ≠ 3 := by
      intro h
      obtain ⟨i, j, c, rfl⟩ := List.length_eq_three.mp h
      exact hwidth i j c rfl
    rw [rowFault_iff_of_length_ne hlength, Except.error.injEq, eq_comm]

theorem Writes.keyed (h : Writes row t) : Keyed row t.exponents.toNats := by
  obtain ⟨i, j, hrow, hi, hj⟩ := h
  exact ⟨i, j, t.coefficient, hrow, hi, hj⟩

theorem Keyed.exists_writes {k : ℕ × ℕ} (h : Keyed row k) :
    ∃ t, Writes row t ∧ t.exponents.toNats = k := by
  obtain ⟨i, j, c, hrow, hi, hj⟩ := h
  obtain ⟨m, hm⟩ := exists_exponent?_iff.mpr ⟨_, hi⟩
  obtain ⟨n, hn⟩ := exists_exponent?_iff.mpr ⟨_, hj⟩
  have hm' := exponent?_eq_some_iff.mp hm
  have hn' := exponent?_eq_some_iff.mp hn
  exact ⟨⟨⟨m, n⟩, c⟩, ⟨i, j, hrow, hm', hn'⟩, Prod.ext (hm'.unique hi) (hn'.unique hj)⟩

theorem exists_writes_iff : (∃ t, Writes row t) ↔ ∃ k, Keyed row k := by
  constructor
  · rintro ⟨t, h⟩
    exact ⟨_, h.keyed⟩
  · rintro ⟨k, h⟩
    obtain ⟨t, ht, -⟩ := h.exists_writes
    exact ⟨t, ht⟩

/-- Rows with keys are written from terms with these exponents. -/
theorem exists_forall₂_writes {rows : List (List Float)} {keys : List (ℕ × ℕ)}
    (h : List.Forall₂ Keyed rows keys) : ∃ terms, List.Forall₂ Writes rows terms ∧
      terms.map (·.exponents.toNats) = keys := by
  induction h with
  | nil => exact ⟨[], .nil, rfl⟩
  | cons hrow hrest ih =>
    obtain ⟨t, ht, rfl⟩ := hrow.exists_writes
    obtain ⟨terms, hterms, rfl⟩ := ih
    exact ⟨t :: terms, .cons ht hterms, rfl⟩

theorem descending_iff {terms : List (Monomial2 Float)} :
    Descending (terms.map (·.exponents)) ↔
      (terms.map (·.exponents.toNats)).Pairwise fun k l => toLex l < toLex k := by
  unfold Descending
  rw [List.pairwise_map, List.pairwise_map]
  simp only [Exponents.toLex_toNats_lt_iff]

end Rows

section Heads
variable {which : ExponentRow} {rows rest : List (List Float)} {a b : Float} {e : BlockFault Float}

theorem takePair?_eq_ok_iff :
    takePair? which rows = .ok (a, b, rest) ↔ rows = [a, b] :: rest := by
  constructor
  · exact takePair?_ok
  · rintro rfl
    rfl

theorem takePair?_eq_error_iff : takePair? which rows = .error e ↔
    rows = [] ∧ e = .missing which ∨
      ∃ row rest, rows = row :: rest ∧ row.length ≠ 2 ∧ e = .notPair which row := by
  unfold takePair?
  split
  · simp [eq_comm]
  · simp
  · next row rest hwidth =>
    have hlength : row.length ≠ 2 := by
      intro h
      obtain ⟨a, b, rfl⟩ := List.length_eq_two.mp h
      exact hwidth a b rfl
    simp [hlength, eq_comm]

end Heads

/-- Two rows of two entries, then rows of three entries that begin with exponents, the pairs of which
are in strictly descending order. -/
def WellFormed (rows : List (List Float)) : Prop :=
  ∃ pre post rest, ∃ keys : List (ℕ × ℕ), rows = pre :: post :: rest ∧ pre.length = 2 ∧
    post.length = 2 ∧ List.Forall₂ Keyed rest keys ∧ keys.Pairwise fun k l => toLex l < toLex k

/-- What rows are rejected for: the first two, then the first row that is no term, and last the first
neighbours that are out of order. -/
inductive Rejected : List (List Float) → BlockFault Float → Prop where
  | noPre : Rejected [] (.missing .pre)
  | pre {row : List Float} {rows : List (List Float)} (h : row.length ≠ 2) :
    Rejected (row :: rows) (.notPair .pre row)
  | noPost {pre : List Float} (hpre : pre.length = 2) : Rejected [pre] (.missing .post)
  | post {pre row : List Float} {rows : List (List Float)} (hpre : pre.length = 2)
    (h : row.length ≠ 2) : Rejected (pre :: row :: rows) (.notPair .post row)
  | row {pre post row : List Float} {before after : List (List Float)} {e : BlockFault Float}
    (hpre : pre.length = 2) (hpost : post.length = 2) (hbefore : ∀ r ∈ before, ∃ k, Keyed r k)
    (h : RowFault row e) : Rejected (pre :: post :: (before ++ row :: after)) e
  | unsorted {pre post : List Float} {rows : List (List Float)} {terms : List (Monomial2 Float)}
    {a b : Exponents} (hpre : pre.length = 2) (hpost : post.length = 2)
    (hrows : List.Forall₂ Writes rows terms) (h : FirstUnsorted (terms.map (·.exponents)) a b) :
    Rejected (pre :: post :: rows) (.unsorted (.bivariate a b))

section Blocks
variable {rows : List (List Float)} {b : Block Float} {e : BlockFault Float}

theorem ofRows?_eq_ok_iff : ofRows? rows = .ok b ↔
    ∃ rest, rows = [b.preX, b.preY] :: [b.postX, b.postY] :: rest ∧
      List.Forall₂ Writes rest b.polynomial.terms := by
  simp only [ofRows?, Except.bind_eq_ok_iff, Prod.exists, takePair?_eq_ok_iff, mapM_eq_ok_iff,
    term?_eq_ok_iff, Except.mapError_eq_ok_iff, Polynomial2.ofTerms?_eq_ok_iff]
  constructor
  · rintro ⟨preX, preY, _, rfl, postX, postY, rest, rfl, terms, hterms, p, rfl, h⟩
    cases h
    exact ⟨rest, rfl, hterms⟩
  · rintro ⟨rest, rfl, hrest⟩
    exact ⟨_, _, _, rfl, _, _, rest, rfl, _, hrest, b.polynomial, rfl, rfl⟩

theorem ofRows?_eq_error_iff : ofRows? rows = .error e ↔ Rejected rows e := by
  simp only [ofRows?, Except.bind_eq_error_iff, Prod.exists, takePair?_eq_ok_iff,
    takePair?_eq_error_iff, mapM_eq_ok_iff, mapM_eq_error_iff, term?_eq_ok_iff, term?_eq_error_iff,
    Except.mapError_eq_error_iff, Polynomial2.ofTerms?_eq_error_iff, reduceCtorEq,
    and_false, exists_false, or_false]
  constructor
  · rintro ((⟨rfl, rfl⟩ | ⟨row, rest, rfl, h, rfl⟩) | ⟨preX, preY, _, rfl, h⟩)
    · exact .noPre
    · exact .pre h
    have hpre : [preX, preY].length = 2 := rfl
    rcases h with (⟨rfl, rfl⟩ | ⟨row, rest, rfl, h, rfl⟩) | ⟨postX, postY, rest, rfl, h⟩
    · exact .noPost hpre
    · exact .post hpre h
    have hpost : [postX, postY].length = 2 := rfl
    rcases h with ⟨before, row, after, rfl, hbefore, h⟩ | ⟨terms, hterms, _, ⟨a, b, h, rfl⟩, rfl⟩
    · exact .row hpre hpost (fun r hr => exists_writes_iff.mp (hbefore r hr)) h
    · exact .unsorted hpre hpost hterms h
  · intro h
    cases h with
    | noPre => exact .inl (.inl ⟨rfl, rfl⟩)
    | pre h => exact .inl (.inr ⟨_, _, rfl, h, rfl⟩)
    | noPost hpre =>
      obtain ⟨preX, preY, rfl⟩ := List.length_eq_two.mp hpre
      exact .inr ⟨preX, preY, _, rfl, .inl (.inl ⟨rfl, rfl⟩)⟩
    | post hpre h =>
      obtain ⟨preX, preY, rfl⟩ := List.length_eq_two.mp hpre
      exact .inr ⟨preX, preY, _, rfl, .inl (.inr ⟨_, _, rfl, h, rfl⟩)⟩
    | row hpre hpost hbefore h =>
      obtain ⟨preX, preY, rfl⟩ := List.length_eq_two.mp hpre
      obtain ⟨postX, postY, rfl⟩ := List.length_eq_two.mp hpost
      exact .inr ⟨preX, preY, _, rfl, .inr ⟨postX, postY, _, rfl,
        .inl ⟨_, _, _, rfl, fun r hr => exists_writes_iff.mpr (hbefore r hr), h⟩⟩⟩
    | unsorted hpre hpost hterms h =>
      obtain ⟨preX, preY, rfl⟩ := List.length_eq_two.mp hpre
      obtain ⟨postX, postY, rfl⟩ := List.length_eq_two.mp hpost
      exact .inr ⟨preX, preY, _, rfl, .inr ⟨postX, postY, _, rfl,
        .inr ⟨_, hterms, _, ⟨_, _, h, rfl⟩, rfl⟩⟩⟩

theorem exists_ofRows?_iff : (∃ b, ofRows? rows = .ok b) ↔ WellFormed rows := by
  constructor
  · rintro ⟨b, h⟩
    obtain ⟨rest, rfl, hrest⟩ := ofRows?_eq_ok_iff.mp h
    refine ⟨_, _, rest, _, rfl, rfl, rfl, ?_, descending_iff.mp b.polynomial.descending⟩
    exact List.forall₂_map_right_iff.mpr (hrest.imp fun _ _ h => h.keyed)
  · rintro ⟨pre, post, rest, keys, rfl, hpre, hpost, hkeys, hsorted⟩
    obtain ⟨preX, preY, rfl⟩ := List.length_eq_two.mp hpre
    obtain ⟨postX, postY, rfl⟩ := List.length_eq_two.mp hpost
    obtain ⟨terms, hterms, rfl⟩ := exists_forall₂_writes hkeys
    have hd := descending_iff.mpr hsorted
    exact ⟨⟨preX, preY, postX, postY, terms, hd⟩, ofRows?_eq_ok_iff.mpr ⟨rest, rfl, hterms⟩⟩

end Blocks

/-- Rows are read as a block exactly if they are well formed, and then the block has their exponents
and terms. Otherwise the first check that fails says why. -/
theorem accepted_iff_wellFormed (rows : List (List Float)) :
    ((∃ b, ofRows? rows = .ok b) ↔ WellFormed rows) ∧
    (∀ b, ofRows? rows = .ok b ↔
      ∃ rest, rows = [b.preX, b.preY] :: [b.postX, b.postY] :: rest ∧
        List.Forall₂ Writes rest b.polynomial.terms) ∧
    ∀ e, ofRows? rows = .error e ↔ Rejected rows e :=
  ⟨exists_ofRows?_iff, fun _ => ofRows?_eq_ok_iff, fun _ => ofRows?_eq_error_iff⟩

end Block
end Helmholtz
