import Helmholtz.Proofs.DescendingTerms
import Helmholtz.Proofs.NamedFunctions

/-! What is wrong with the tag and the parameter of a node.

A tag says what kind of parameter its function takes. The kinds are told apart by their form, and
the tags that have one are listed, both without a look at the conversion. A fault names the whole
tag, the letter of the variable included. -/

namespace Helmholtz
universe u v

theorem Except.bind_eq_error_iff {ε : Type u} {β γ : Type v} {x : Except ε β}
    {f : β → Except ε γ} {e : ε} :
    x >>= f = .error e ↔ x = .error e ∨ ∃ b, x = .ok b ∧ f b = .error e := by
  cases x with
  | error e' => simp [bind, Except.bind]
  | ok b => simp [bind, Except.bind]

theorem Except.map_eq_error_iff {ε : Type u} {β γ : Type v} {x : Except ε β} {f : β → γ} {e : ε} :
    x.map f = .error e ↔ x = .error e := by
  cases x <;> simp [Except.map]

theorem Except.mapError_eq_error_iff {ε ε' : Type u} {β : Type v} {x : Except ε β} {f : ε → ε'}
    {e : ε'} : x.mapError f = .error e ↔ ∃ e₀, x = .error e₀ ∧ f e₀ = e := by
  cases x <;> simp [Except.mapError]

/-- What a function takes as its parameter. -/
inductive ParameterKind where
  /-- The parameter is not looked at. -/
  | any
  | number
  | pair
  | triple
  /-- Terms in one variable. -/
  | rows1
  /-- Terms in two variables. -/
  | rows2

namespace ParameterKind

/-- The values that are of a kind. -/
inductive Fits : ParameterKind → Json → Prop where
  | any (v : Json) : Fits any v
  | number (n : Number) : Fits number (.number n)
  | pair (a b : Number) : Fits pair (.array [.number a, .number b])
  | triple (a b c : Number) : Fits triple (.array [.number a, .number b, .number c])
  | rows1 (rows : List (UInt32 × Number)) : Fits rows1 (.array (rows.map Monomial1.row))
  | rows2 (rows : List (Exponents × Number)) : Fits rows2 (.array (rows.map Monomial2.row))

/-- The fault of a parameter that should be of a kind: it is missing, not of this kind, or a list of
terms with neighbours that are out of order. -/
inductive Fault (tag : String) : ParameterKind → Option Json → RecordFault → Prop where
  | missing {k : ParameterKind} (hk : k ≠ any) : Fault tag k none (.missingParameter tag)
  | unfit {k : ParameterKind} {v : Json} (h : ¬k.Fits v) :
    Fault tag k (some v) (.unfitParameter tag)
  | unsorted1 {rows : List (UInt32 × Number)} {a b : UInt32}
    (h : FirstUnsorted (rows.map Prod.fst) a b) :
    Fault tag rows1 (some (.array (rows.map Monomial1.row))) (.unsorted (.univariate a b))
  | unsorted2 {rows : List (Exponents × Number)} {a b : Exponents}
    (h : FirstUnsorted (rows.map Prod.fst) a b) :
    Fault tag rows2 (some (.array (rows.map Monomial2.row))) (.unsorted (.bivariate a b))

end ParameterKind

/-- The tags of nodes in one variable, with what their functions take. -/
inductive Elementary1.Takes : String → ParameterKind → Prop where
  | identity : Takes "x" .any
  | inverse : Takes "inv" .any
  | log : Takes "log" .any
  | linear : Takes "lin" .pair
  | power : Takes "pow" .number
  | exponential : Takes "exp" .number
  | polynomial : Takes "poly" .rows1

/-- The tags of nodes in two variables, with what their functions take. -/
inductive Elementary2.Takes : String → ParameterKind → Prop where
  | x : Takes "x" .any
  | y : Takes "y" .any
  | linear : Takes "lin" .triple
  | polynomial : Takes "poly" .rows2
  | termwise : Takes "spoly" .rows2
  | ofX {name : String} {k : ParameterKind} (h : Elementary1.Takes name k) : Takes (name ++ "x") k
  | ofY {name : String} {k : ParameterKind} (h : Elementary1.Takes name k) : Takes (name ++ "y") k

section Parameters
variable {tag : String} {param : Option Json} {e : RecordFault}

theorem ParameterKind.not_fault_any : ¬Fault tag any param e := by
  intro h
  cases h with
  | missing hk => exact hk rfl
  | unfit h => exact h (.any _)

namespace ExprRecord
variable {β : Type} {read : Json → Option β} {k : ParameterKind}

theorem readParameter?_eq_error_iff (hread : ∀ v, k.Fits v ↔ ∃ b, read v = some b) :
    readParameter? tag param read = .error e ↔
      (param = none ∧ e = .missingParameter tag) ∨
        ∃ v, param = some v ∧ ¬k.Fits v ∧ e = .unfitParameter tag := by
  cases param with
  | none => simp [readParameter?, eq_comm]
  | some v => cases h : read v <;> simp [readParameter?, hread, h, eq_comm]

/-- The faults of a parameter that is not a list of terms. -/
theorem readParameter?_eq_error_iff_fault (hread : ∀ v, k.Fits v ↔ ∃ b, read v = some b)
    (hany : k ≠ .any) (h₁ : k ≠ .rows1) (h₂ : k ≠ .rows2) :
    readParameter? tag param read = .error e ↔ k.Fault tag param e := by
  rw [readParameter?_eq_error_iff hread]
  constructor
  · rintro (⟨rfl, rfl⟩ | ⟨v, rfl, hv, rfl⟩)
    · exact .missing hany
    · exact .unfit hv
  · intro h
    cases h with
    | missing => exact .inl ⟨rfl, rfl⟩
    | unfit hv => exact .inr ⟨_, rfl, hv, rfl⟩
    | unsorted1 => exact absurd rfl h₁
    | unsorted2 => exact absurd rfl h₂

end ExprRecord

namespace ParameterKind

theorem fits_number_iff (v : Json) : Fits number v ↔ ∃ x, v.float? = some x := by
  simp only [Json.float?_eq_some_iff]
  constructor
  · intro h
    cases h with
    | number n => exact ⟨_, n, rfl, rfl⟩
  · rintro ⟨_, n, rfl, -⟩
    exact .number n

theorem fits_rows1_iff (v : Json) :
    Fits rows1 v ↔ ∃ ts, v.list? Monomial1.ofJson? = some ts := by
  simp only [Json.list?_eq_some_iff Monomial1.ofJson?_eq_some_iff]
  constructor
  · intro h
    cases h with
    | rows1 rows => exact ⟨_, rows, rfl, rfl⟩
  · rintro ⟨_, rows, rfl, -⟩
    exact .rows1 rows

theorem fits_rows2_iff (v : Json) :
    Fits rows2 v ↔ ∃ ts, v.list? Monomial2.ofJson? = some ts := by
  simp only [Json.list?_eq_some_iff Monomial2.ofJson?_eq_some_iff]
  constructor
  · intro h
    cases h with
    | rows2 rows => exact ⟨_, rows, rfl, rfl⟩
  · rintro ⟨_, rows, rfl, -⟩
    exact .rows2 rows

end ParameterKind

theorem Polynomial1.ofParameter?_eq_error_iff :
    ofParameter? tag param = .error e ↔ ParameterKind.rows1.Fault tag param e := by
  simp only [ofParameter?, Except.bind_eq_error_iff,
    ExprRecord.readParameter?_eq_error_iff ParameterKind.fits_rows1_iff,
    ExprRecord.readParameter?_eq_ok_iff, Json.list?_eq_some_iff Monomial1.ofJson?_eq_some_iff,
    Except.mapError_eq_error_iff, ofTerms?_eq_error_iff]
  constructor
  · rintro ((⟨rfl, rfl⟩ | ⟨v, rfl, hv, rfl⟩) |
      ⟨_, ⟨_, rfl, rows, rfl, rfl⟩, _, ⟨a, b, h, rfl⟩, rfl⟩)
    · exact .missing (by simp)
    · exact .unfit hv
    · rw [List.map_map] at h
      exact .unsorted1 h
  · intro h
    cases h with
    | missing => exact .inl (.inl ⟨rfl, rfl⟩)
    | unfit hv => exact .inl (.inr ⟨_, rfl, hv, rfl⟩)
    | @unsorted1 rows a b h =>
      refine .inr ⟨_, ⟨_, rfl, rows, rfl, rfl⟩, _, ⟨a, b, ?_, rfl⟩, rfl⟩
      rwa [List.map_map]

theorem Polynomial2.ofParameter?_eq_error_iff :
    ofParameter? tag param = .error e ↔ ParameterKind.rows2.Fault tag param e := by
  simp only [ofParameter?, Except.bind_eq_error_iff,
    ExprRecord.readParameter?_eq_error_iff ParameterKind.fits_rows2_iff,
    ExprRecord.readParameter?_eq_ok_iff, Json.list?_eq_some_iff Monomial2.ofJson?_eq_some_iff,
    Except.mapError_eq_error_iff, ofTerms?_eq_error_iff]
  constructor
  · rintro ((⟨rfl, rfl⟩ | ⟨v, rfl, hv, rfl⟩) |
      ⟨_, ⟨_, rfl, rows, rfl, rfl⟩, _, ⟨a, b, h, rfl⟩, rfl⟩)
    · exact .missing (by simp)
    · exact .unfit hv
    · rw [List.map_map] at h
      exact .unsorted2 h
  · intro h
    cases h with
    | missing => exact .inl (.inl ⟨rfl, rfl⟩)
    | unfit hv => exact .inl (.inr ⟨_, rfl, hv, rfl⟩)
    | @unsorted2 rows a b h =>
      refine .inr ⟨_, ⟨_, rfl, rows, rfl, rfl⟩, _, ⟨a, b, ?_, rfl⟩, rfl⟩
      rwa [List.map_map]

end Parameters

section Tags
variable {tag name : String} {param : Option Json} {e : RecordFault}

/-- Two numbers, as the conversion reads them. -/
theorem ParameterKind.fits_pair_iff (v : Json) : Fits pair v ↔ ∃ ab : Float × Float, (match v with
    | .array [a, b] => do some (← a.float?, ← b.float?)
    | _ => none) = some ab := by
  constructor
  · intro h
    cases h with
    | pair a b => exact ⟨_, rfl⟩
  · rintro ⟨ab, h⟩
    split at h
    · obtain ⟨_, ha, h⟩ := Option.bind_eq_some_iff.mp h
      obtain ⟨_, hb, -⟩ := Option.bind_eq_some_iff.mp h
      obtain ⟨a, rfl, -⟩ := Json.float?_eq_some_iff.mp ha
      obtain ⟨b, rfl, -⟩ := Json.float?_eq_some_iff.mp hb
      exact .pair a b
    · cases h

/-- Three numbers, as the conversion reads them. -/
theorem ParameterKind.fits_triple_iff (v : Json) :
    Fits triple v ↔ ∃ abc : Float × Float × Float, (match v with
    | .array [a, b, c] => do some (← a.float?, ← b.float?, ← c.float?)
    | _ => none) = some abc := by
  constructor
  · intro h
    cases h with
    | triple a b c => exact ⟨_, rfl⟩
  · rintro ⟨abc, h⟩
    split at h
    · obtain ⟨_, ha, h⟩ := Option.bind_eq_some_iff.mp h
      obtain ⟨_, hb, h⟩ := Option.bind_eq_some_iff.mp h
      obtain ⟨_, hc, -⟩ := Option.bind_eq_some_iff.mp h
      obtain ⟨a, rfl, -⟩ := Json.float?_eq_some_iff.mp ha
      obtain ⟨b, rfl, -⟩ := Json.float?_eq_some_iff.mp hb
      obtain ⟨c, rfl, -⟩ := Json.float?_eq_some_iff.mp hc
      exact .triple a b c
    · cases h

theorem ExprRecord.readNumber?_eq_error_iff :
    readParameter? tag param Json.float? = .error e ↔ ParameterKind.number.Fault tag param e :=
  readParameter?_eq_error_iff_fault ParameterKind.fits_number_iff nofun nofun nofun

/-- A name fails if no function goes by it, and else for its parameter only. -/
theorem Elementary1.ofName?_eq_error_iff : ofName? tag param name = .error e ↔
    (e = .unknownFunction tag ∧ ∀ k, ¬Takes name k) ∨
      ∃ k, Takes name k ∧ k.Fault tag param e := by
  constructor
  · intro h
    unfold ofName? at h
    split at h
    · cases h
    · rcases Except.bind_eq_error_iff.mp h with h | ⟨_, -, h⟩
      · exact .inr ⟨_, .linear, (ExprRecord.readParameter?_eq_error_iff_fault
          ParameterKind.fits_pair_iff nofun nofun nofun).mp h⟩
      · cases h
    · exact .inr ⟨_, .power, ExprRecord.readNumber?_eq_error_iff.mp (Except.map_eq_error_iff.mp h)⟩
    · cases h
    · exact .inr ⟨_, .exponential,
        ExprRecord.readNumber?_eq_error_iff.mp (Except.map_eq_error_iff.mp h)⟩
    · cases h
    · exact .inr ⟨_, .polynomial,
        Polynomial1.ofParameter?_eq_error_iff.mp (Except.map_eq_error_iff.mp h)⟩
    · cases h
      refine .inl ⟨rfl, fun k hk => ?_⟩
      cases hk <;> contradiction
  · rintro (⟨rfl, hname⟩ | ⟨k, hk, h⟩)
    · unfold ofName?
      split
      · exact absurd .identity (hname _)
      · exact absurd .linear (hname _)
      · exact absurd .power (hname _)
      · exact absurd .inverse (hname _)
      · exact absurd .exponential (hname _)
      · exact absurd .log (hname _)
      · exact absurd .polynomial (hname _)
      · rfl
    · cases hk with
      | identity => exact absurd h ParameterKind.not_fault_any
      | inverse => exact absurd h ParameterKind.not_fault_any
      | log => exact absurd h ParameterKind.not_fault_any
      | linear =>
        exact Except.bind_eq_error_iff.mpr (.inl ((ExprRecord.readParameter?_eq_error_iff_fault
          ParameterKind.fits_pair_iff nofun nofun nofun).mpr h))
      | power => exact Except.map_eq_error_iff.mpr (ExprRecord.readNumber?_eq_error_iff.mpr h)
      | exponential => exact Except.map_eq_error_iff.mpr (ExprRecord.readNumber?_eq_error_iff.mpr h)
      | polynomial =>
        exact Except.map_eq_error_iff.mpr (Polynomial1.ofParameter?_eq_error_iff.mpr h)

theorem Elementary1.Takes.splitVariable? {k : ParameterKind} (h : Takes name k) :
    ExprRecord.splitVariable? (name ++ "x") = some (name, 'x') ∧
      ExprRecord.splitVariable? (name ++ "y") = some (name, 'y') := by
  cases h <;> exact ⟨rfl, rfl⟩

/-- A tag with a letter behind a name of one variable is read as this name. -/
theorem Elementary1.Takes.ofTag?_append {k : ParameterKind} (h : Takes name k) :
    Elementary2.ofTag? (name ++ "x") param = (ofName? (name ++ "x") param name).map .ofX ∧
      Elementary2.ofTag? (name ++ "y") param = (ofName? (name ++ "y") param name).map .ofY := by
  cases h <;> exact ⟨rfl, rfl⟩

namespace Elementary2

/-- The tags that are no name of one variable with a letter behind it. -/
def plainTags : List String := ["x", "y", "lin", "poly", "spoly"]

theorem Takes.cases_split {k : ParameterKind} (h : Takes tag k) :
    tag ∈ plainTags ∨ ∃ name, Elementary1.Takes name k ∧
      (ExprRecord.splitVariable? tag = some (name, 'x') ∨
        ExprRecord.splitVariable? tag = some (name, 'y')) := by
  cases h with
  | x => exact .inl (by simp [plainTags])
  | y => exact .inl (by simp [plainTags])
  | linear => exact .inl (by simp [plainTags])
  | polynomial => exact .inl (by simp [plainTags])
  | termwise => exact .inl (by simp [plainTags])
  | ofX h => exact .inr ⟨_, h, .inl h.splitVariable?.1⟩
  | ofY h => exact .inr ⟨_, h, .inr h.splitVariable?.2⟩

/-- What a tag with a letter behind a name takes is what the name takes. -/
theorem takes_iff_of_split {v : Char} (hplain : tag ∉ plainTags)
    (hsplit : ExprRecord.splitVariable? tag = some (name, v)) (hv : v = 'x' ∨ v = 'y')
    (k : ParameterKind) : Elementary1.Takes name k ↔ Takes tag k := by
  constructor
  · intro h
    rw [ExprRecord.splitVariable?_eq_some hsplit]
    rcases hv with rfl | rfl
    · exact .ofX h
    · exact .ofY h
  · intro h
    rcases h.cases_split with hmem | ⟨name', h, hsplit' | hsplit'⟩
    · exact absurd hmem hplain
    all_goals
      rw [hsplit] at hsplit'
      cases hsplit'
      exact h

/-- A tag fails if no function goes by it, and else for its parameter only. -/
theorem ofTag?_eq_error_iff : ofTag? tag param = .error e ↔
    (e = .unknownFunction tag ∧ ∀ k, ¬Takes tag k) ∨
      ∃ k, Takes tag k ∧ k.Fault tag param e := by
  have hletter : ∀ {name v}, tag ∉ plainTags →
      ExprRecord.splitVariable? tag = some (name, v) → (v = 'x' ∨ v = 'y') →
      (Elementary1.ofName? tag param name = .error e ↔
        (e = .unknownFunction tag ∧ ∀ k, ¬Takes tag k) ∨
          ∃ k, Takes tag k ∧ k.Fault tag param e) := by
    intro name v hplain hsplit hv
    simp only [Elementary1.ofName?_eq_error_iff, takes_iff_of_split hplain hsplit hv]
  constructor
  · intro h
    unfold ofTag? at h
    split at h
    · cases h
    · cases h
    · rcases Except.bind_eq_error_iff.mp h with h | ⟨_, -, h⟩
      · exact .inr ⟨_, .linear, (ExprRecord.readParameter?_eq_error_iff_fault
          ParameterKind.fits_triple_iff nofun nofun nofun).mp h⟩
      · cases h
    · exact .inr ⟨_, .polynomial,
        Polynomial2.ofParameter?_eq_error_iff.mp (Except.map_eq_error_iff.mp h)⟩
    · exact .inr ⟨_, .termwise,
        Polynomial2.ofParameter?_eq_error_iff.mp (Except.map_eq_error_iff.mp h)⟩
    · next hx hy hlin hpoly hspoly =>
      have hplain : tag ∉ plainTags := by simpa [plainTags] using ⟨hx, hy, hlin, hpoly, hspoly⟩
      split at h
      · next hsplit => exact (hletter hplain hsplit (.inl rfl)).mp (Except.map_eq_error_iff.mp h)
      · next hsplit => exact (hletter hplain hsplit (.inr rfl)).mp (Except.map_eq_error_iff.mp h)
      · next hsplitX hsplitY =>
        cases h
        refine .inl ⟨rfl, fun k hk => ?_⟩
        rcases hk.cases_split with hmem | ⟨name, hk, hsplit | hsplit⟩
        · exact hplain hmem
        · exact hsplitX name hsplit
        · exact hsplitY name hsplit
  · rintro (⟨rfl, htag⟩ | ⟨k, hk, h⟩)
    · unfold ofTag?
      split
      · exact absurd .x (htag _)
      · exact absurd .y (htag _)
      · exact absurd .linear (htag _)
      · exact absurd .polynomial (htag _)
      · exact absurd .termwise (htag _)
      · next hx hy hlin hpoly hspoly =>
        have hplain : tag ∉ plainTags := by simpa [plainTags] using ⟨hx, hy, hlin, hpoly, hspoly⟩
        split
        · next hsplit =>
          have hname := (hletter hplain hsplit (.inl rfl)).mpr (.inl ⟨rfl, htag⟩)
          exact Except.map_eq_error_iff.mpr hname
        · next hsplit =>
          have hname := (hletter hplain hsplit (.inr rfl)).mpr (.inl ⟨rfl, htag⟩)
          exact Except.map_eq_error_iff.mpr hname
        · rfl
    · cases hk with
      | x => exact absurd h ParameterKind.not_fault_any
      | y => exact absurd h ParameterKind.not_fault_any
      | linear =>
        exact Except.bind_eq_error_iff.mpr (.inl ((ExprRecord.readParameter?_eq_error_iff_fault
          ParameterKind.fits_triple_iff nofun nofun nofun).mpr h))
      | polynomial =>
        exact Except.map_eq_error_iff.mpr (Polynomial2.ofParameter?_eq_error_iff.mpr h)
      | termwise => exact Except.map_eq_error_iff.mpr (Polynomial2.ofParameter?_eq_error_iff.mpr h)
      | ofX hk =>
        rw [hk.ofTag?_append.1]
        exact Except.map_eq_error_iff.mpr (Elementary1.ofName?_eq_error_iff.mpr (.inr ⟨_, hk, h⟩))
      | ofY hk =>
        rw [hk.ofTag?_append.2]
        exact Except.map_eq_error_iff.mpr (Elementary1.ofName?_eq_error_iff.mpr (.inr ⟨_, hk, h⟩))

end Elementary2
end Tags

end Helmholtz
