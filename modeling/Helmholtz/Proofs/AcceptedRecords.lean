import Helmholtz.Proofs.RecordGrammar

/-! The shape of the values that are read as records, by what stands in them and nothing else.

Where the grammar of records says which expression a value writes, the shapes here only say that it
writes one. They settle what may stand in an accepted value: outside of the parameters, an object is
a node, whose keys are known and given once. -/

namespace Helmholtz
namespace ExprRecord

/-- The keys of the arguments of a node. -/
def argumentKeys : List String := ["arg", "argx", "argy"]

mutual

/-- The value is an array of terms, and a term is an array of factors. -/
inductive IsGroup : Json → Prop
  | array {terms : List (List Json)} (h : ∀ factors ∈ terms, ∀ v ∈ factors, IsFactor v) :
    IsGroup (.array (terms.map .array))

/-- The value is a number, a group or a node. -/
inductive IsFactor : Json → Prop
  | number (n : Number) : IsFactor (.number n)
  | group {v : Json} (h : IsGroup v) : IsFactor v
  | node {v : Json} (h : IsNode v) : IsFactor v

/-- The value is an object with known keys, none of them given twice, or the array of the five
values; the type is a string, and the parameter is free. -/
inductive IsNode : Json → Prop
  | members {members : List (String × Json)} {tag : String}
    (hdistinct : (members.map Prod.fst).Nodup)
    (hknown : ∀ key ∈ members.map Prod.fst, key ∈ nodeKeys)
    (htag : ("type", .string tag) ∈ members)
    (hargs : ∀ key ∈ argumentKeys, ∀ v, (key, v) ∈ members → IsArgument v) :
    IsNode (.object members)
  | items {tag : String} {param arg argx argy : Json} (harg : IsArgument arg)
    (hargx : IsArgument argx) (hargy : IsArgument argy) :
    IsNode (.array [.string tag, param, arg, argx, argy])

/-- The value is `null`, a group or a node. -/
inductive IsArgument : Json → Prop
  | null : IsArgument .null
  | group {v : Json} (h : IsGroup v) : IsArgument v
  | node {v : Json} (h : IsNode v) : IsArgument v

end

theorem member_eq_of_mem {members : List (String × Json)} {key : String} {v : Json}
    (hdistinct : (members.map Prod.fst).Nodup) (h : (key, v) ∈ members) :
    member members key = v := by
  rw [member, (lookup_eq_some_iff_mem hdistinct).mpr h]
  rfl

theorem member_eq_null_or_mem (members : List (String × Json)) (key : String) :
    member members key = .null ∨ (key, member members key) ∈ members := by
  unfold member
  cases h : members.lookup key with
  | none => exact .inl rfl
  | some v => exact .inr (mem_of_lookup h)

section Shapes

mutual

/-- What writes an expression is a group or a node. -/
theorem Reads.isGroup_or_isNode {v : Json} {r : ExprRecord} :
    Reads v r → IsGroup v ∨ IsNode v
  | .group h => by
    obtain ⟨terms, rfl, hterms⟩ := h.exists_eq_map
    exact .inl (.array hterms)
  | .node h => .inr h.isNode

theorem NodeReads.isNode {v : Json} {r : ExprRecord} : NodeReads v r → IsNode v
  | .items harg hargx hargy => .items harg.isArgument hargx.isArgument hargy.isArgument
  | @NodeReads.members members _ _ _ _ hdistinct hknown htag harg hargx hargy => by
    have hread : ∀ key ∈ argumentKeys, IsArgument (member members key) := by
      simpa [argumentKeys] using ⟨harg.isArgument, hargx.isArgument, hargy.isArgument⟩
    refine .members hdistinct hknown (mem_of_lookup htag) fun key hkey v hv => ?_
    rw [← member_eq_of_mem hdistinct hv]
    exact hread key hkey

theorem ArgumentReads.isArgument {v : Json} {g : Option ExprRecord} :
    ArgumentReads v g → IsArgument v
  | .null => .null
  | .some h => h.isGroup_or_isNode.elim .group .node

theorem TermsRead.exists_eq_map {items : List Json} {terms : List (List FactorRecord)} :
    TermsRead items terms → ∃ values : List (List Json), items = values.map .array ∧
      ∀ factors ∈ values, ∀ v ∈ factors, IsFactor v
  | .nil => ⟨[], rfl, nofun⟩
  | @TermsRead.cons inner _ _ _ hitems hrest => by
    obtain ⟨values, rfl, hvalues⟩ := hrest.exists_eq_map
    exact ⟨inner :: values, rfl, List.forall_mem_cons.mpr ⟨hitems.isFactor, hvalues⟩⟩

theorem FactorsRead.isFactor {items : List Json} {factors : List FactorRecord} :
    FactorsRead items factors → ∀ v ∈ items, IsFactor v
  | .nil => nofun
  | .cons hv hrest => List.forall_mem_cons.mpr ⟨hv.isFactor, hrest.isFactor⟩

theorem FactorReads.isFactor {v : Json} {factor : FactorRecord} :
    FactorReads v factor → IsFactor v
  | .constant => .number _
  | .expr h => h.isGroup_or_isNode.elim .group .node

end

theorem exists_factorsRead {items : List Json} (h : ∀ v ∈ items, ∃ factor, FactorReads v factor) :
    ∃ factors, FactorsRead items factors := by
  induction items with
  | nil => exact ⟨[], .nil⟩
  | cons v rest ih =>
    obtain ⟨hv, hrest⟩ := List.forall_mem_cons.mp h
    obtain ⟨factor, hfactor⟩ := hv
    obtain ⟨factors, hfactors⟩ := ih hrest
    exact ⟨factor :: factors, .cons hfactor hfactors⟩

theorem exists_termsRead {values : List (List Json)}
    (h : ∀ factors ∈ values, ∀ v ∈ factors, ∃ factor, FactorReads v factor) :
    ∃ terms, TermsRead (values.map .array) terms := by
  induction values with
  | nil => exact ⟨[], .nil⟩
  | cons inner rest ih =>
    obtain ⟨hinner, hrest⟩ := List.forall_mem_cons.mp h
    obtain ⟨factors, hfactors⟩ := exists_factorsRead hinner
    obtain ⟨terms, hterms⟩ := ih hrest
    exact ⟨factors :: terms, .cons hfactors hterms⟩

mutual

/-- Every group writes an expression. -/
theorem IsGroup.exists_termsRead {v : Json} :
    IsGroup v → ∃ items terms, v = .array items ∧ TermsRead items terms
  | .array h => by
    have hfactors := fun factors hfactors v hv => (h factors hfactors v hv).exists_factorReads
    obtain ⟨terms, hterms⟩ := ExprRecord.exists_termsRead hfactors
    exact ⟨_, terms, rfl, hterms⟩

theorem IsFactor.exists_factorReads {v : Json} : IsFactor v → ∃ factor, FactorReads v factor
  | .number _ => ⟨_, .constant⟩
  | .group h => by
    obtain ⟨items, terms, rfl, hterms⟩ := h.exists_termsRead
    exact ⟨_, .expr (.group hterms)⟩
  | .node h => by
    obtain ⟨r, hr⟩ := h.exists_nodeReads
    exact ⟨_, .expr (.node hr)⟩

theorem IsNode.exists_nodeReads {v : Json} : IsNode v → ∃ r, NodeReads v r
  | .items harg hargx hargy => by
    obtain ⟨g, hg⟩ := harg.exists_argumentReads
    obtain ⟨gx, hgx⟩ := hargx.exists_argumentReads
    obtain ⟨gy, hgy⟩ := hargy.exists_argumentReads
    exact ⟨_, .items hg hgx hgy⟩
  | @IsNode.members members _ hdistinct hknown htag hargs => by
    have hread : ∀ key ∈ argumentKeys, ∃ g, ArgumentReads (member members key) g := by
      intro key hkey
      rcases member_eq_null_or_mem members key with hnull | hmem
      · exact ⟨none, hnull ▸ .null⟩
      · exact (hargs key hkey _ hmem).exists_argumentReads
    obtain ⟨g, hg⟩ := hread "arg" (by decide)
    obtain ⟨gx, hgx⟩ := hread "argx" (by decide)
    obtain ⟨gy, hgy⟩ := hread "argy" (by decide)
    have htag := (lookup_eq_some_iff_mem hdistinct).mpr htag
    exact ⟨_, .members hdistinct hknown htag hg hgx hgy⟩

theorem IsArgument.exists_argumentReads {v : Json} : IsArgument v → ∃ g, ArgumentReads v g
  | .null => ⟨none, .null⟩
  | .group h => by
    obtain ⟨items, terms, rfl, hterms⟩ := h.exists_termsRead
    exact ⟨_, .some (.group hterms)⟩
  | .node h => by
    obtain ⟨r, hr⟩ := h.exists_nodeReads
    exact ⟨_, .some (.node hr)⟩

end

end Shapes

section Acceptance

theorem groupOfJson?_isSome_iff (v : Json) : (groupOfJson? v).isSome ↔ IsGroup v := by
  rw [Option.isSome_iff_exists]
  simp only [groupOfJson?_eq_some_iff]
  constructor
  · rintro ⟨_, items, terms, rfl, hterms, -⟩
    obtain ⟨values, rfl, hvalues⟩ := hterms.exists_eq_map
    exact .array hvalues
  · intro h
    obtain ⟨items, terms, rfl, hterms⟩ := h.exists_termsRead
    exact ⟨_, items, terms, rfl, hterms, rfl⟩

theorem nodeOfJson?_isSome_iff (v : Json) : (nodeOfJson? v).isSome ↔ IsNode v := by
  rw [Option.isSome_iff_exists]
  simp only [nodeOfJson?_eq_some_iff]
  constructor
  · rintro ⟨r, hr⟩
    exact hr.isNode
  · exact IsNode.exists_nodeReads

theorem ofJson?_isSome_iff (v : Json) : (ofJson? v).isSome ↔ IsGroup v ∨ IsNode v := by
  rw [Option.isSome_iff_exists]
  simp only [ofJson?_eq_some_iff]
  constructor
  · rintro ⟨r, hr⟩
    exact hr.isGroup_or_isNode
  · rintro (h | h)
    · obtain ⟨items, terms, rfl, hterms⟩ := h.exists_termsRead
      exact ⟨_, .group hterms⟩
    · obtain ⟨r, hr⟩ := h.exists_nodeReads
      exact ⟨r, .node hr⟩

theorem factorOfJson?_isSome_iff (v : Json) : (FactorRecord.ofJson? v).isSome ↔ IsFactor v := by
  rw [Option.isSome_iff_exists]
  simp only [factorOfJson?_eq_some_iff (ofJson?_eq_some_iff v)]
  constructor
  · rintro ⟨factor, hfactor⟩
    exact hfactor.isFactor
  · exact IsFactor.exists_factorReads

end Acceptance

section Places

/-- The value stands in another one, at some depth: it is that value, or it stands in one of the
items or of the members, other than the parameter of a node. -/
inductive StandsIn (w : Json) : Json → Prop
  | here : StandsIn w w
  | item {items : List Json} {i : ℕ} (hi : i < items.length)
    (hparam : ∀ tag, items.head? = some (.string tag) → i ≠ 1) (h : StandsIn w items[i]) :
    StandsIn w (.array items)
  | member {members : List (String × Json)} {key : String} {v : Json} (hv : (key, v) ∈ members)
    (hparam : key ≠ "param") (h : StandsIn w v) : StandsIn w (.object members)

/-- The value may stand somewhere in a record. -/
inductive IsPart : Json → Prop
  | factor {v : Json} (h : IsFactor v) : IsPart v
  | argument {v : Json} (h : IsArgument v) : IsPart v
  | term {factors : List Json} (h : ∀ v ∈ factors, IsFactor v) : IsPart (.array factors)
  | tag (s : String) : IsPart (.string s)

theorem IsGroup.item {items : List Json} (h : IsGroup (.array items)) {i : ℕ}
    (hi : i < items.length) : IsPart items[i] := by
  cases h with
  | @array terms h =>
    have hlt : i < terms.length := by rwa [List.length_map] at hi
    rw [List.getElem_map]
    exact .term (h terms[i] (List.getElem_mem hlt))

theorem IsNode.item {items : List Json} (h : IsNode (.array items)) {i : ℕ}
    (hi : i < items.length) (hparam : ∀ tag, items.head? = some (.string tag) → i ≠ 1) :
    IsPart items[i] := by
  cases h with
  | @items tag param arg argx argy harg hargx hargy =>
    have hne : i ≠ 1 := hparam tag rfl
    match i, hi with
    | 0, _ => exact .tag tag
    | 1, _ => exact absurd rfl hne
    | 2, _ => exact .argument harg
    | 3, _ => exact .argument hargx
    | 4, _ => exact .argument hargy

theorem IsNode.member {members : List (String × Json)} (h : IsNode (.object members))
    {key : String} {v : Json} (hv : (key, v) ∈ members) (hparam : key ≠ "param") : IsPart v := by
  cases h with
  | @members _ tag hdistinct hknown htag hargs =>
    have hkey : key ∈ nodeKeys := hknown key (List.mem_map_of_mem hv)
    by_cases harg : key ∈ argumentKeys
    · exact .argument (hargs key harg v hv)
    · have htype : key = "type" := by
        simp only [nodeKeys, argumentKeys, List.mem_cons, List.not_mem_nil] at hkey harg
        tauto
      subst htype
      have hlookup := (lookup_eq_some_iff_mem hdistinct).mpr hv
      rw [(lookup_eq_some_iff_mem hdistinct).mpr htag] at hlookup
      cases hlookup
      exact .tag tag

/-- An array in a record is a group, a node or a term. -/
theorem IsPart.array {items : List Json} (h : IsPart (.array items)) :
    IsGroup (.array items) ∨ IsNode (.array items) ∨ ∀ v ∈ items, IsFactor v := by
  rcases h with (_ | h | h) | (_ | h | h) | h
  · exact .inl h
  · exact .inr (.inl h)
  · exact .inl h
  · exact .inr (.inl h)
  · exact .inr (.inr h)

/-- An object in a record is a node. -/
theorem IsPart.object {members : List (String × Json)} (h : IsPart (.object members)) :
    IsNode (.object members) := by
  rcases h with (_ | ⟨⟨⟩⟩ | h) | (_ | ⟨⟨⟩⟩ | h)
  · exact h
  · exact h

/-- What stands in a part of a record is a part of a record. -/
theorem StandsIn.isPart {w v : Json} (h : StandsIn w v) (hv : IsPart v) : IsPart w := by
  -- Every step inwards leads to a part again, since the way avoids the parameters.
  induction h with
  | here => exact hv
  | item hi hparam hitem ih =>
    apply ih
    rcases hv.array with hgroup | hnode | hterm
    · exact hgroup.item hi
    · exact hnode.item hi hparam
    · exact .factor (hterm _ (List.getElem_mem hi))
  | member hmem hparam hmember ih =>
    apply ih
    exact hv.object.member hmem hparam

/-- The keys of an object that stands in a record are known, and none is given twice. -/
theorem StandsIn.keys {members : List (String × Json)} {v : Json}
    (h : StandsIn (.object members) v) (hv : IsPart v) :
    (members.map Prod.fst).Nodup ∧ ∀ key ∈ members.map Prod.fst, key ∈ nodeKeys := by
  have hnode : IsNode (.object members) := (h.isPart hv).object
  cases hnode with
  | members hdistinct hknown htag hargs => exact ⟨hdistinct, hknown⟩

/-- A key that is unknown or given twice spoils every record that the object stands in. -/
theorem StandsIn.not_isPart {members : List (String × Json)} {v : Json}
    (h : StandsIn (.object members) v)
    (hkeys : ¬ (members.map Prod.fst).Nodup ∨ ∃ key ∈ members.map Prod.fst, key ∉ nodeKeys) :
    ¬ IsPart v := by
  intro hv
  obtain ⟨hdistinct, hknown⟩ := h.keys hv
  rcases hkeys with htwice | ⟨key, hkey, hunknown⟩
  · exact htwice hdistinct
  · exact hunknown (hknown key hkey)

end Places
end ExprRecord
end Helmholtz
