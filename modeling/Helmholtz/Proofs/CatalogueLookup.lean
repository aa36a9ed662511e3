import Helmholtz.Fit.Catalogue
import Helmholtz.Proofs.ByteOrder
import Helmholtz.Proofs.DistinctKeys
import Helmholtz.Proofs.NodeFaults
import Mathlib.Data.List.Sort
import Mathlib.Logic.Function.Basic

/-! A selection gives the first entry with each name, whatever else is in the catalogue. The search
keeps a set of pending names and a map of taken entries; no order in which these may be kept makes a
difference. -/

namespace Helmholtz
universe u v

namespace Catalogue
variable {ρ : Type u} {key : ρ → Option String} {names : List String} {entries : List ρ}

/-- The first entry with a name. -/
def first? (key : ρ → Option String) (entries : List ρ) (name : String) : Option ρ :=
  entries.find? fun entry => key entry == some name

section First
variable {name : String} {entry : ρ} {seen rest : List ρ}

theorem first?_eq_none_iff :
    first? key entries name = none ↔ ∀ entry ∈ entries, key entry ≠ some name := by
  unfold first?
  rw [List.find?_eq_none]
  simp

theorem first?_append_of_eq_some (h : first? key seen name = some entry) :
    first? key (seen ++ rest) name = some entry := by
  unfold first? at *
  rw [List.find?_append, h]
  rfl

theorem first?_concat_of_ne (h : key entry ≠ some name) :
    first? key (seen ++ [entry]) name = first? key seen name := by
  unfold first?
  rw [List.find?_append]
  simp [h]

theorem first?_concat_of_eq (hseen : first? key seen name = none) (h : key entry = some name) :
    first? key (seen ++ [entry]) name = some entry := by
  unfold first? at *
  rw [List.find?_append, hseen]
  simp [h]

end First

/-- What a selection gives: a fault for a repeated name; else one for the names that no entry has, in
ascending order of their bytes; else the first entry with each name. -/
inductive Selected (key : ρ → Option String) (names : List String) (entries : List ρ) :
    Except SelectionFault (List ρ) → Prop where
  | repeatedName (h : ¬names.Nodup) : Selected key names entries (.error .repeatedName)
  | notFound {missing : List String} (hnames : names.Nodup) (hne : missing ≠ [])
    (hsorted : missing.Pairwise fun s t => utf8 s < utf8 t)
    (hmissing : ∀ name, name ∈ missing ↔ name ∈ names ∧ ∀ entry ∈ entries, key entry ≠ some name) :
    Selected key names entries (.error (.notFound missing))
  | found {found : List ρ} (hnames : names.Nodup)
    (h : names.map (first? key entries) = found.map some) : Selected key names entries (.ok found)

/-- A search from some pending names and taken entries to those that it ends with. It may stop when
nothing is pending, and it may reorder both lists at any time. -/
inductive Scan (key : ρ → Option String) : List ρ → List String → List (String × ρ) →
    List String → List (String × ρ) → Prop where
  | finished {pending : List String} {taken : List (String × ρ)} :
    Scan key [] pending taken pending taken
  | complete {entries : List ρ} {taken : List (String × ρ)} : Scan key entries [] taken [] taken
  | skip {entry : ρ} {rest : List ρ} {pending pending' : List String}
    {taken taken' : List (String × ρ)} (h : ∀ name ∈ pending, key entry ≠ some name)
    (hrest : Scan key rest pending taken pending' taken') :
    Scan key (entry :: rest) pending taken pending' taken'
  | take {entry : ρ} {rest : List ρ} {name : String} {pending pending' : List String}
    {taken taken' : List (String × ρ)} (h : key entry = some name)
    (hrest : Scan key rest pending ((name, entry) :: taken) pending' taken') :
    Scan key (entry :: rest) (name :: pending) taken pending' taken'
  | reorder {entries : List ρ} {pending₀ pending pending' : List String}
    {taken₀ taken taken' : List (String × ρ)} (hpending : pending₀.Perm pending)
    (htaken : taken₀.Perm taken) (hrest : Scan key entries pending taken pending' taken') :
    Scan key entries pending₀ taken₀ pending' taken'

/-- What is returned at the end of a search. -/
def outcome (names pending : List String) (taken : List (String × ρ)) :
    Except SelectionFault (List ρ) :=
  if pending.isEmpty then .ok (names.filterMap fun name => taken.lookup name)
  else .error (.notFound (pending.mergeSort (· ≤ ·)))

/-- What a selection may give if the pending names and the taken entries are kept in any order. -/
inductive Selects (key : ρ → Option String) (names : List String) (entries : List ρ) :
    Except SelectionFault (List ρ) → Prop where
  | repeatedName (h : ¬names.Nodup) : Selects key names entries (.error .repeatedName)
  | scanned {pending : List String} {taken : List (String × ρ)} (hnames : names.Nodup)
    (hscan : Scan key entries names [] pending taken) :
    Selects key names entries (outcome names pending taken)

theorem collect_scan (entries : List ρ) (pending : List String) (taken : List (String × ρ)) :
    Scan key entries pending taken (collect key entries pending taken).1
      (collect key entries pending taken).2 := by
  fun_induction collect key entries pending taken with
  | case1 pending taken => exact .finished
  | case2 entry rest pending taken h =>
    rw [List.isEmpty_iff.mp h]
    exact .complete
  | case3 entry rest pending taken h hkey ih =>
    refine .skip (fun name _ => ?_) ih
    rw [hkey]
    nofun
  | case4 entry rest pending taken h name hkey hmem ih =>
    have hpending := List.perm_cons_erase (List.contains_iff_mem.mp hmem)
    exact .reorder hpending (List.Perm.refl taken) (.take hkey ih)
  | case5 entry rest pending taken h name hkey hmem ih =>
    refine .skip (fun other hother hother' => ?_) ih
    rw [hkey] at hother'
    cases hother'
    exact hmem (List.contains_iff_mem.mpr hother)

theorem select?_selects (names : List String) (entries : List ρ) :
    Selects key names entries (select? key names entries) := by
  unfold select?
  by_cases h : names.Nodup
  · rw [if_pos h]
    exact .scanned h (collect_scan entries names [])
  · rw [if_neg h]
    exact .repeatedName h

/-- What has been done after the entries that were seen: a name is pending until its first entry,
which then is taken. -/
structure Progress (key : ρ → Option String) (names : List String) (seen : List ρ)
    (pending : List String) (taken : List (String × ρ)) : Prop where
  nodup_pending : pending.Nodup
  nodup_taken : (taken.map Prod.fst).Nodup
  mem_pending : ∀ name, name ∈ pending ↔ name ∈ names ∧ first? key seen name = none
  mem_taken : ∀ name entry, (name, entry) ∈ taken ↔ name ∈ names ∧ first? key seen name = some entry

namespace Progress
variable {seen : List ρ} {pending pending' : List String} {taken taken' : List (String × ρ)}
  {entry : ρ} {name : String}

theorem start (h : names.Nodup) : Progress key names [] names [] where
  nodup_pending := h
  nodup_taken := List.nodup_nil
  mem_pending _ := by simp [first?]
  mem_taken _ _ := by simp [first?]

/-- Entries that change none of the first ones leave everything as it is. -/
theorem of_first?_eq {seen' : List ρ} (h : Progress key names seen pending taken)
    (hfirst : ∀ name ∈ names, first? key seen' name = first? key seen name) :
    Progress key names seen' pending taken where
  nodup_pending := h.nodup_pending
  nodup_taken := h.nodup_taken
  mem_pending name := by
    rw [h.mem_pending]
    exact and_congr_right fun hname => by rw [hfirst name hname]
  mem_taken name entry := by
    rw [h.mem_taken]
    exact and_congr_right fun hname => by rw [hfirst name hname]

theorem skip (h : Progress key names seen pending taken)
    (hentry : ∀ name ∈ pending, key entry ≠ some name) :
    Progress key names (seen ++ [entry]) pending taken := by
  refine h.of_first?_eq fun name hname => ?_
  cases hseen : first? key seen name with
  | none => rw [first?_concat_of_ne (hentry name ((h.mem_pending name).mpr ⟨hname, hseen⟩)), hseen]
  | some e => exact first?_append_of_eq_some hseen

theorem complete (h : Progress key names seen [] taken) (rest : List ρ) :
    Progress key names (seen ++ rest) [] taken := by
  refine h.of_first?_eq fun name hname => ?_
  cases hseen : first? key seen name with
  | none => exact absurd ((h.mem_pending name).mpr ⟨hname, hseen⟩) List.not_mem_nil
  | some e => exact first?_append_of_eq_some hseen

theorem take (h : Progress key names seen (name :: pending) taken) (hentry : key entry = some name) :
    Progress key names (seen ++ [entry]) pending ((name, entry) :: taken) := by
  obtain ⟨hname, hseen⟩ := (h.mem_pending name).mp List.mem_cons_self
  have hfirst : first? key (seen ++ [entry]) name = some entry := first?_concat_of_eq hseen hentry
  have hother : ∀ other, other ≠ name →
      first? key (seen ++ [entry]) other = first? key seen other := by
    intro other hne
    refine first?_concat_of_ne fun h' => hne ?_
    exact Option.some.inj (h'.symm.trans hentry)
  have hnew : ∀ e, (name, e) ∉ taken := by
    intro e he
    have hsome := ((h.mem_taken name e).mp he).2
    rw [hseen] at hsome
    cases hsome
  obtain ⟨hnotMem, hnodup⟩ := List.nodup_cons.mp h.nodup_pending
  refine ⟨hnodup, ?_, ?_, ?_⟩
  · refine List.nodup_cons.mpr ⟨fun hmem => ?_, h.nodup_taken⟩
    obtain ⟨⟨_, e⟩, he, rfl⟩ := List.mem_map.mp hmem
    exact hnew e he
  · intro other
    by_cases heq : other = name
    · rw [heq, hfirst]
      simp [hnotMem]
    · have hmem := h.mem_pending other
      rw [List.mem_cons, or_iff_right heq] at hmem
      rw [hother other heq, hmem]
  · intro other e
    rw [List.mem_cons]
    by_cases heq : other = name
    · rw [heq, hfirst, or_iff_left (hnew e)]
      simp [hname, eq_comm]
    · have hne : (other, e) ≠ (name, entry) := fun h' => heq (congrArg Prod.fst h')
      rw [or_iff_right hne, hother other heq, h.mem_taken]

theorem perm (h : Progress key names seen pending taken) (hpending : pending.Perm pending')
    (htaken : taken.Perm taken') : Progress key names seen pending' taken' where
  nodup_pending := hpending.nodup_iff.mp h.nodup_pending
  nodup_taken := (htaken.map Prod.fst).nodup_iff.mp h.nodup_taken
  mem_pending name := by rw [← hpending.mem_iff, h.mem_pending]
  mem_taken name entry := by rw [← htaken.mem_iff, h.mem_taken]

end Progress

/-- The progress that a search leads to. -/
theorem Scan.progress {seen : List ρ} {pending pending' : List String}
    {taken taken' : List (String × ρ)} (hscan : Scan key entries pending taken pending' taken')
    (h : Progress key names seen pending taken) :
    Progress key names (seen ++ entries) pending' taken' := by
  induction hscan generalizing seen with
  | finished => rwa [List.append_nil]
  | complete => exact h.complete _
  | skip hentry hrest ih => exact List.append_assoc seen [_] _ ▸ ih (h.skip hentry)
  | take hentry hrest ih => exact List.append_assoc seen [_] _ ▸ ih (h.take hentry)
  | reorder hpending htaken hrest ih => exact ih (h.perm hpending htaken)

section Outcomes
variable {pending : List String} {taken : List (String × ρ)}

theorem Progress.lookup (h : Progress key names entries pending taken) {name : String}
    (hname : name ∈ names) : taken.lookup name = first? key entries name := by
  apply Option.ext
  intro entry
  rw [lookup_eq_some_iff_mem h.nodup_taken, h.mem_taken]
  simp [hname]

theorem pairwise_utf8_mergeSort (h : pending.Nodup) :
    (pending.mergeSort (· ≤ ·)).Pairwise fun s t => utf8 s < utf8 t := by
  have hle : (pending.mergeSort (· ≤ ·)).Pairwise (· ≤ ·) := List.pairwise_mergeSort' _ _
  have hne : (pending.mergeSort (· ≤ ·)).Nodup := (List.mergeSort_perm _ _).nodup_iff.mpr h
  refine hle.imp₂ ?_ hne
  intro s t hst hne
  exact utf8_lt_utf8_iff.mpr (lt_of_le_of_ne hst hne)

theorem Progress.selected (hnames : names.Nodup) (h : Progress key names entries pending taken) :
    Selected key names entries (outcome names pending taken) := by
  unfold outcome
  by_cases hempty : pending = []
  · rw [if_pos (List.isEmpty_iff.mpr hempty)]
    refine .found hnames ?_
    have hlookup : names.map (first? key entries) = names.map fun name => taken.lookup name :=
      List.map_congr_left fun name hname => (h.lookup hname).symm
    have hsome : ∀ o ∈ names.map (first? key entries), o.isSome = true := by
      intro o ho
      obtain ⟨name, hname, rfl⟩ := List.mem_map.mp ho
      have hnone : first? key entries name ≠ none := by
        intro hnone
        have hmem := (h.mem_pending name).mpr ⟨hname, hnone⟩
        rw [hempty] at hmem
        cases hmem
      exact Option.isSome_iff_ne_none.mpr hnone
    rw [List.map_filterMap_some_eq_filter_map_isSome, ← hlookup, List.filter_eq_self.mpr hsome]
  · rw [if_neg (mt List.isEmpty_iff.mp hempty)]
    have hperm := List.mergeSort_perm pending (· ≤ ·)
    refine .notFound hnames ?_ (pairwise_utf8_mergeSort h.nodup_pending) ?_
    · intro hnil
      rw [hnil] at hperm
      exact hempty hperm.nil_eq.symm
    · intro name
      rw [hperm.mem_iff, h.mem_pending, first?_eq_none_iff]

end Outcomes

theorem Selects.selected {r : Except SelectionFault (List ρ)} (h : Selects key names entries r) :
    Selected key names entries r := by
  cases h with
  | repeatedName h => exact .repeatedName h
  | scanned hnames hscan => exact (hscan.progress (.start hnames)).selected hnames

/-- Names in strictly ascending order of their bytes are determined by which they are. -/
theorem eq_of_pairwise_utf8 {xs ys : List String} (hxs : xs.Pairwise fun s t => utf8 s < utf8 t)
    (hys : ys.Pairwise fun s t => utf8 s < utf8 t) (h : ∀ name, name ∈ xs ↔ name ∈ ys) :
    xs = ys := by
  simp only [utf8_lt_utf8_iff] at hxs hys
  have hperm : xs.Perm ys := (List.perm_ext_iff_of_nodup hxs.nodup hys.nodup).mpr h
  exact hperm.eq_of_pairwise' hxs hys

/-- Names that no entry has are not found. -/
theorem map_first?_ne_map_some {missing : List String} {found : List ρ} (hne : missing ≠ [])
    (hmissing : ∀ name, name ∈ missing ↔
      name ∈ names ∧ ∀ entry ∈ entries, key entry ≠ some name) :
    names.map (first? key entries) ≠ found.map some := by
  intro hfound
  obtain ⟨name, hname⟩ := List.exists_mem_of_ne_nil missing hne
  obtain ⟨hmem, hnone⟩ := (hmissing name).mp hname
  have hfirst : none ∈ names.map (first? key entries) :=
    List.mem_map.mpr ⟨name, hmem, first?_eq_none_iff.mpr hnone⟩
  rw [hfound] at hfirst
  simp at hfirst

/-- There is only one result of a selection. -/
theorem Selected.unique {r r' : Except SelectionFault (List ρ)} (h : Selected key names entries r)
    (h' : Selected key names entries r') : r = r' := by
  cases h with
  | repeatedName h =>
    cases h' with
    | repeatedName => rfl
    | notFound hnames => exact absurd hnames h
    | found hnames => exact absurd hnames h
  | notFound hnames hne hsorted hmissing =>
    cases h' with
    | repeatedName h => exact absurd hnames h
    | notFound hnames' hne' hsorted' hmissing' =>
      rw [eq_of_pairwise_utf8 hsorted hsorted' fun name => by rw [hmissing, hmissing']]
    | found hnames' h' => exact absurd h' (map_first?_ne_map_some hne hmissing)
  | found hnames h =>
    cases h' with
    | repeatedName h' => exact absurd hnames h'
    | notFound hnames' hne' hsorted' hmissing' =>
      exact absurd h (map_first?_ne_map_some hne' hmissing')
    | found hnames' h' =>
      rw [List.map_injective_iff.mpr (Option.some_injective ρ) (h.symm.trans h')]

theorem Selected.of_first?_eq {entries' : List ρ} {r : Except SelectionFault (List ρ)}
    (h : Selected key names entries r)
    (hfirst : names.map (first? key entries) = names.map (first? key entries')) :
    Selected key names entries' r := by
  cases h with
  | repeatedName h => exact .repeatedName h
  | notFound hnames hne hsorted hmissing =>
    refine .notFound hnames hne hsorted fun name => ?_
    rw [hmissing, ← first?_eq_none_iff, ← first?_eq_none_iff]
    exact and_congr_right fun hname => by rw [List.map_inj_left.mp hfirst name hname]
  | found hnames h => exact .found hnames (hfirst ▸ h)

theorem select?_eq_iff {r : Except SelectionFault (List ρ)} :
    select? key names entries = r ↔ Selected key names entries r := by
  have h : Selected key names entries (select? key names entries) :=
    (select?_selects names entries).selected
  constructor
  · rintro rfl
    exact h
  · exact h.unique

theorem selects_iff {r : Except SelectionFault (List ρ)} :
    Selects key names entries r ↔ select? key names entries = r := by
  constructor
  · intro h
    exact select?_eq_iff.mpr h.selected
  · rintro rfl
    exact select?_selects names entries

/-- Nothing counts but the first entry with each name. -/
theorem factorsThrough_first? : (select? key names).FactorsThrough
    fun entries => names.map (first? key entries) := by
  intro entries entries' h
  exact select?_eq_iff.mpr ((select?_eq_iff.mp rfl).of_first?_eq h.symm)

theorem select?_append (before after : List ρ) :
    select? key names (before ++ after) = select? key names before ∨
      ∃ name ∈ names, first? key before name = none := by
  by_cases h : ∃ name ∈ names, first? key before name = none
  · exact .inr h
  · refine .inl (factorsThrough_first? (List.map_congr_left fun name hname => ?_))
    cases hbefore : first? key before name with
    | none => exact absurd ⟨name, hname, hbefore⟩ h
    | some entry => exact first?_append_of_eq_some hbefore

theorem exists_singleton_of_select? {name : String} {found : List ρ}
    (h : select? key [name] entries = .ok found) : ∃ entry, found = [entry] := by
  cases select?_eq_iff.mp h with
  | found hnames h =>
    have hlength := congrArg List.length h
    rw [List.length_map, List.length_map] at hlength
    exact List.length_eq_one_iff.mp hlength.symm

end Catalogue

theorem Substance.ofFile?_singleton {kind : IdentifierKind} {name : String} {content : Option String}
    {selected : List (Substance Float)} (h : ofFile? kind [name] content = .ok selected) :
    ∃ s, selected = [s] := by
  unfold ofFile? at h
  split at h
  · cases h
  · split at h
    · cases h
    · exact Catalogue.exists_singleton_of_select? (Except.mapError_eq_ok_iff.mp h)

/-- The fit is that of the substance that was selected, or there is none. -/
theorem Fit.ofFile?_eq_or (kind : IdentifierKind) (name : String) (content : Option String) :
    (∃ e, Substance.ofFile? kind [name] content = .error e ∧ ofFile? kind name content = .error e) ∨
      ∃ s, Substance.ofFile? kind [name] content = .ok [s] ∧
        ofFile? kind name content = (ofSubstance? s).mapError .block := by
  unfold ofFile?
  cases h : Substance.ofFile? kind [name] content with
  | error e => exact .inl ⟨e, rfl, rfl⟩
  | ok selected =>
    obtain ⟨s, rfl⟩ := Substance.ofFile?_singleton h
    exact .inr ⟨s, rfl, rfl⟩

/-- The name of one kind of an entry. -/
def nameOf {ρ : Type u} (identifier : ρ → Identifier) (kind : IdentifierKind) (entry : ρ) :
    Option String :=
  (identifier entry).get? kind

theorem holds_nameOf {ρ : Type u} (identifier : ρ → Identifier) (kind : IdentifierKind)
    (entry : ρ) : (identifier entry).Holds kind (nameOf identifier kind entry) :=
  Identifier.get?_eq_iff.mp rfl

/-- A selection by one kind of name, which each entry holds in the field for that kind, fails for
repeated names, then for the names that no entry has, and else gives the first entry with each name.
This is so in whatever order pending names and taken entries are kept. Entries behind those that are
needed make no difference, nor do any others. The selection of one substance for a fit is not
empty. -/
theorem selection_finds_first {ρ : Type u} (identifier : ρ → Identifier) (kind : IdentifierKind)
    (names : List String) :
    (∀ entry, (identifier entry).Holds kind (nameOf identifier kind entry)) ∧
    (∀ {α : Type v} (catalogue : List (Substance α)), Substance.selectBy? kind names catalogue =
      Catalogue.select? (nameOf Substance.identifier kind) names catalogue) ∧
    (∀ entries r, Catalogue.select? (nameOf identifier kind) names entries = r ↔
      Catalogue.Selected (nameOf identifier kind) names entries r) ∧
    (∀ missing, (SelectionFault.notFound missing).message =
      "The following substance(s) were not found: " ++ ", ".intercalate missing) ∧
    (∀ entries r, Catalogue.Selects (nameOf identifier kind) names entries r ↔
      Catalogue.select? (nameOf identifier kind) names entries = r) ∧
    (∀ before after, Catalogue.select? (nameOf identifier kind) names (before ++ after) =
        Catalogue.select? (nameOf identifier kind) names before ∨
      ∃ name ∈ names, Catalogue.first? (nameOf identifier kind) before name = none) ∧
    (Catalogue.select? (nameOf identifier kind) names).FactorsThrough
      (fun entries => names.map (Catalogue.first? (nameOf identifier kind) entries)) ∧
    ∀ name content,
      (∃ e, Substance.ofFile? kind [name] content = .error e ∧
        Fit.ofFile? kind name content = .error e) ∨
      ∃ s, Substance.ofFile? kind [name] content = .ok [s] ∧
        Fit.ofFile? kind name content = (Fit.ofSubstance? s).mapError .block :=
  ⟨holds_nameOf identifier kind, fun _ => rfl, fun _ _ => Catalogue.select?_eq_iff, fun _ => rfl,
    fun _ _ => Catalogue.selects_iff, Catalogue.select?_append, Catalogue.factorsThrough_first?,
    Fit.ofFile?_eq_or kind⟩

end Helmholtz
