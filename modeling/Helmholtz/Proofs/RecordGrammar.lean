import Helmholtz.Expr.Record
import Helmholtz.Proofs.DistinctKeys

/-! The grammar of records: which JSON values write an expression, and which one.

A value is a group or a node, never both: the items of a group are arrays, and the first item of a
node in array form is a string. The members of a node in object form may stand in any order. -/

namespace Helmholtz
namespace ExprRecord

/-- The keys of a node, in the order of the array form. -/
def nodeKeys : List String := ["type", "param", "arg", "argx", "argy"]

/-- The value of a key of a node; a missing one is as good as `null`. -/
def member (members : List (String × Json)) (key : String) : Json :=
  (members.lookup key).getD .null

mutual

/-- The value writes the expression. -/
inductive Reads : Json → ExprRecord → Prop
  | group {items : List Json} {terms : List (List FactorRecord)} (h : TermsRead items terms) :
    Reads (.array items) (.group terms)
  | node {v : Json} {r : ExprRecord} (h : NodeReads v r) : Reads v r

/-- The value writes the node. -/
inductive NodeReads : Json → ExprRecord → Prop
  | items {tag : String} {param arg argx argy : Json} {g gx gy : Option ExprRecord}
    (harg : ArgumentReads arg g) (hargx : ArgumentReads argx gx)
    (hargy : ArgumentReads argy gy) :
    NodeReads (.array [.string tag, param, arg, argx, argy])
      (.node tag (parameter param) g gx gy)
  | members {members : List (String × Json)} {tag : String} {g gx gy : Option ExprRecord}
    (hdistinct : (members.map Prod.fst).Nodup)
    (hknown : ∀ key ∈ members.map Prod.fst, key ∈ nodeKeys)
    (htag : members.lookup "type" = some (.string tag))
    (harg : ArgumentReads (member members "arg") g)
    (hargx : ArgumentReads (member members "argx") gx)
    (hargy : ArgumentReads (member members "argy") gy) :
    NodeReads (.object members) (.node tag (parameter (member members "param")) g gx gy)

/-- The value writes the argument of a node, which `null` leaves out. -/
inductive ArgumentReads : Json → Option ExprRecord → Prop
  | null : ArgumentReads .null none
  | some {v : Json} {r : ExprRecord} (h : Reads v r) : ArgumentReads v (some r)

/-- The values write the terms of a group. -/
inductive TermsRead : List Json → List (List FactorRecord) → Prop
  | nil : TermsRead [] []
  | cons {items rest : List Json} {factors : List FactorRecord}
    {terms : List (List FactorRecord)} (hitems : FactorsRead items factors)
    (hrest : TermsRead rest terms) : TermsRead (.array items :: rest) (factors :: terms)

/-- The values write the factors of a term. -/
inductive FactorsRead : List Json → List FactorRecord → Prop
  | nil : FactorsRead [] []
  | cons {v : Json} {rest : List Json} {factor : FactorRecord} {factors : List FactorRecord}
    (hv : FactorReads v factor) (hrest : FactorsRead rest factors) :
    FactorsRead (v :: rest) (factor :: factors)

/-- The value writes the factor. -/
inductive FactorReads : Json → FactorRecord → Prop
  | constant {n : Number} : FactorReads (.number n) (.constant n.toFloat)
  | expr {v : Json} {e : ExprRecord} (h : Reads v e) : FactorReads v (.expr e)

end

/-- A group is an array, and a node is an array or an object. -/
theorem Reads.isArray_or_isObject {v : Json} {r : ExprRecord} (h : Reads v r) :
    (∃ items, v = .array items) ∨ ∃ members, v = .object members := by
  cases h with
  | group h => exact .inl ⟨_, rfl⟩
  | node h =>
    cases h with
    | items => exact .inl ⟨_, rfl⟩
    | members => exact .inr ⟨_, rfl⟩

/-- Reading the value as an expression agrees with the grammar. -/
def Decides (v : Json) : Prop := ∀ r, ofJson? v = some r ↔ Reads v r

theorem nullable_eq_some_iff {v : Json} (hv : Decides v) (g : Option ExprRecord) :
    nullable v (ofJson? v) = some g ↔ ArgumentReads v g := by
  cases g with
  | none =>
    constructor
    · intro h
      unfold nullable at h
      split at h
      · exact .null
      · obtain ⟨_, -, hr⟩ := Option.map_eq_some_iff.mp h
        cases hr
    · rintro ⟨⟩
      rfl
  | some r =>
    constructor
    · intro h
      unfold nullable at h
      split at h
      · cases h
      · obtain ⟨_, hr, h⟩ := Option.map_eq_some_iff.mp h
        cases h
        exact .some ((hv r).mp hr)
    · rintro (⟨⟩ | ⟨h⟩)
      have hr : ofJson? v = some r := (hv r).mpr h
      rcases h.isArray_or_isObject with ⟨_, rfl⟩ | ⟨_, rfl⟩ <;> simp [nullable, hr]

section Items

theorem nodeOfItems?_eq_some_iff {items : List Json} (hitems : ∀ v ∈ items, Decides v)
    (r : ExprRecord) : nodeOfItems? items = some r ↔ NodeReads (.array items) r := by
  constructor
  · intro h
    unfold nodeOfItems? at h
    split at h
    · next tag param arg argx argy =>
      obtain ⟨g, hg, h⟩ := Option.bind_eq_some_iff.mp h
      obtain ⟨gx, hgx, h⟩ := Option.bind_eq_some_iff.mp h
      obtain ⟨gy, hgy, h⟩ := Option.bind_eq_some_iff.mp h
      cases h
      have harg : ArgumentReads arg g := (nullable_eq_some_iff (hitems arg (by simp)) g).mp hg
      have hargx : ArgumentReads argx gx := (nullable_eq_some_iff (hitems argx (by simp)) gx).mp hgx
      have hargy : ArgumentReads argy gy := (nullable_eq_some_iff (hitems argy (by simp)) gy).mp hgy
      exact .items harg hargx hargy
    · cases h
  · rintro ⟨harg, hargx, hargy⟩
    next tag param arg argx argy g gx gy =>
    have hg := (nullable_eq_some_iff (hitems arg (by simp)) g).mpr harg
    have hgx := (nullable_eq_some_iff (hitems argx (by simp)) gx).mpr hargx
    have hgy := (nullable_eq_some_iff (hitems argy (by simp)) gy).mpr hargy
    simp [nodeOfItems?, hg, hgx, hgy]

theorem factorOfJson?_eq_some_iff {v : Json} (hv : Decides v) (factor : FactorRecord) :
    FactorRecord.ofJson? v = some factor ↔ FactorReads v factor := by
  constructor
  · intro h
    unfold FactorRecord.ofJson? at h
    split at h
    · cases h
      exact .constant
    · obtain ⟨e, he, rfl⟩ := Option.map_eq_some_iff.mp h
      exact .expr ((hv e).mp he)
  · intro h
    cases h with
    | constant => rfl
    | @expr _ e h =>
      have hread : ofJson? v = some e := (hv e).mpr h
      rcases h.isArray_or_isObject with ⟨_, rfl⟩ | ⟨_, rfl⟩ <;> simp [FactorRecord.ofJson?, hread]

theorem factorsOfItems?_cons (v : Json) (rest : List Json) :
    factorsOfItems? (v :: rest) = (FactorRecord.ofJson? v).bind fun factor =>
      (factorsOfItems? rest).map (factor :: ·) := by
  cases v <;>
    simp only [factorsOfItems?, FactorRecord.ofJson?, Option.map_eq_bind, Option.bind_assoc,
      Option.bind_some, Option.bind_eq_bind, Function.comp_def]

theorem factorsOfItems?_eq_some_iff {items : List Json} (hitems : ∀ v ∈ items, Decides v)
    (factors : List FactorRecord) :
    factorsOfItems? items = some factors ↔ FactorsRead items factors := by
  induction items generalizing factors with
  | nil =>
    constructor
    · rintro ⟨⟩
      exact .nil
    · rintro ⟨⟩
      rfl
  | cons v rest ih =>
    obtain ⟨hv, hrest⟩ := List.forall_mem_cons.mp hitems
    rw [factorsOfItems?_cons]
    constructor
    · intro h
      obtain ⟨factor, hfactor, h⟩ := Option.bind_eq_some_iff.mp h
      obtain ⟨factors', hfactors, rfl⟩ := Option.map_eq_some_iff.mp h
      exact .cons ((factorOfJson?_eq_some_iff hv factor).mp hfactor)
        ((ih hrest factors').mp hfactors)
    · rintro ⟨⟩
      next factor factors hfactor hfactors =>
      rw [(factorOfJson?_eq_some_iff hv factor).mpr hfactor, (ih hrest factors).mpr hfactors]
      rfl

theorem termsOfItems?_eq_some_iff {items : List Json}
    (hitems : ∀ inner, .array inner ∈ items → ∀ v ∈ inner, Decides v)
    (terms : List (List FactorRecord)) :
    termsOfItems? items = some terms ↔ TermsRead items terms := by
  induction items generalizing terms with
  | nil =>
    constructor
    · rintro ⟨⟩
      exact .nil
    · rintro ⟨⟩
      rfl
  | cons v rest ih =>
    have hrest : ∀ inner, .array inner ∈ rest → ∀ v ∈ inner, Decides v :=
      fun inner h => hitems inner (List.mem_cons_of_mem _ h)
    constructor
    · intro h
      cases v with
      | array inner =>
        obtain ⟨factors, hfactors, h⟩ := Option.bind_eq_some_iff.mp h
        obtain ⟨terms', hterms, h⟩ := Option.bind_eq_some_iff.mp h
        cases h
        have hinner := factorsOfItems?_eq_some_iff (hitems inner List.mem_cons_self) factors
        exact .cons (hinner.mp hfactors) ((ih hrest terms').mp hterms)
      | _ => cases h
    · rintro ⟨⟩
      next inner factors terms hfactors hterms =>
      have hinner := factorsOfItems?_eq_some_iff (hitems inner List.mem_cons_self) factors
      simp [termsOfItems?, hinner.mpr hfactors, (ih hrest terms).mpr hterms]

end Items

section Members

/-- A field of a node in the end: it was there before, or it is read from the member that is left,
or there is none; it cannot be given twice. -/
def Fills {β : Type} (R : Json → β → Prop) (before : Option β) (left : Option Json)
    (final : Option β) : Prop :=
  match before, left with
  | b, none => final = b
  | none, some v => ∃ b, R v b ∧ final = some b
  | some _, some _ => False

namespace Draft

/-- The draft after the members that are left. -/
structure Completes (d : Draft) (members : List (String × Json)) (final : Draft) : Prop where
  distinct : (members.map Prod.fst).Nodup
  known : ∀ key ∈ members.map Prod.fst, key ∈ nodeKeys
  tag : Fills (fun v s => v = .string s) d.tag (members.lookup "type") final.tag
  param : Fills (fun v p => parameter v = p) d.param (members.lookup "param") final.param
  arg : Fills ArgumentReads d.arg (members.lookup "arg") final.arg
  argx : Fills ArgumentReads d.argx (members.lookup "argx") final.argx
  argy : Fills ArgumentReads d.argy (members.lookup "argy") final.argy

/-- The draft after one more member. -/
inductive Takes : Draft → String × Json → Draft → Prop
  | tag {d : Draft} (s : String) (h : d.tag = none) :
    Takes d ("type", .string s) { d with tag := some s }
  | param {d : Draft} (v : Json) (h : d.param = none) :
    Takes d ("param", v) { d with param := some (parameter v) }
  | arg {d : Draft} {v : Json} {g : Option ExprRecord} (h : d.arg = none)
    (hg : ArgumentReads v g) : Takes d ("arg", v) { d with arg := some g }
  | argx {d : Draft} {v : Json} {g : Option ExprRecord} (h : d.argx = none)
    (hg : ArgumentReads v g) : Takes d ("argx", v) { d with argx := some g }
  | argy {d : Draft} {v : Json} {g : Option ExprRecord} (h : d.argy = none)
    (hg : ArgumentReads v g) : Takes d ("argy", v) { d with argy := some g }

end Draft

theorem Fills.of_none {β : Type} {R : Json → β → Prop} {before final : Option β}
    (h : Fills R before none final) : final = before := by
  cases before <;> exact h

/-- What has been read is not read again. -/
theorem fills_some_iff {β : Type} {R : Json → β → Prop} {b : β} {left : Option Json}
    {final : Option β} : Fills R (some b) left final ↔ left = none ∧ final = some b := by
  cases left <;> simp [Fills]

theorem fills_member_iff {β : Type} {R : Json → β → Prop} {before : Option β} {v : Json}
    {final : Option β} :
    Fills R before (some v) final ↔ before = none ∧ ∃ b, R v b ∧ Fills R (some b) none final := by
  cases before <;> simp [Fills]

/-- A member fills the field of its key and leaves the other fields alone. -/
theorem Draft.completes_cons_iff {d final : Draft} {m : String × Json}
    {rest : List (String × Json)} :
    d.Completes (m :: rest) final ↔ ∃ d', d.Takes m d' ∧ d'.Completes rest final := by
  obtain ⟨key, v⟩ := m
  constructor
  · intro h
    obtain ⟨hkey, hdistinct⟩ := List.nodup_cons.mp h.distinct
    obtain ⟨hknown, hrest⟩ := List.forall_mem_cons.mp h.known
    have hnone : rest.lookup key = none := lookup_of_notMem_keys hkey
    have htag := h.tag
    have hparam := h.param
    have harg := h.arg
    have hargx := h.argx
    have hargy := h.argy
    simp only [nodeKeys, List.mem_cons, List.not_mem_nil, or_false] at hknown
    rcases hknown with rfl | rfl | rfl | rfl | rfl
    · obtain ⟨hbefore, s, rfl, hs⟩ := fills_member_iff.mp htag
      exact ⟨_, .tag s hbefore, hdistinct, hrest, by rwa [hnone], hparam, harg, hargx, hargy⟩
    · obtain ⟨hbefore, _, rfl, hp⟩ := fills_member_iff.mp hparam
      exact ⟨_, .param v hbefore, hdistinct, hrest, htag, by rwa [hnone], harg, hargx, hargy⟩
    · obtain ⟨hbefore, g, hg, hfinal⟩ := fills_member_iff.mp harg
      exact ⟨_, .arg hbefore hg, hdistinct, hrest, htag, hparam, by rwa [hnone], hargx, hargy⟩
    · obtain ⟨hbefore, g, hg, hfinal⟩ := fills_member_iff.mp hargx
      exact ⟨_, .argx hbefore hg, hdistinct, hrest, htag, hparam, harg, by rwa [hnone], hargy⟩
    · obtain ⟨hbefore, g, hg, hfinal⟩ := fills_member_iff.mp hargy
      exact ⟨_, .argy hbefore hg, hdistinct, hrest, htag, hparam, harg, hargx, by rwa [hnone]⟩
  · rintro ⟨d', htakes, h⟩
    have hdistinct : rest.lookup key = none → (((key, v) :: rest).map Prod.fst).Nodup :=
      fun hnone => List.nodup_cons.mpr ⟨notMem_keys_of_lookup hnone, h.distinct⟩
    have hknown : key ∈ nodeKeys → ∀ k ∈ ((key, v) :: rest).map Prod.fst, k ∈ nodeKeys :=
      fun hkey => List.forall_mem_cons.mpr ⟨hkey, h.known⟩
    cases htakes with
    | tag s hbefore =>
      obtain ⟨hnone, hfinal⟩ := fills_some_iff.mp h.tag
      refine ⟨hdistinct hnone, hknown (by decide), ?_, h.param, h.arg, h.argx, h.argy⟩
      exact fills_member_iff.mpr ⟨hbefore, s, rfl, hfinal⟩
    | param _ hbefore =>
      obtain ⟨hnone, hfinal⟩ := fills_some_iff.mp h.param
      refine ⟨hdistinct hnone, hknown (by decide), h.tag, ?_, h.arg, h.argx, h.argy⟩
      exact fills_member_iff.mpr ⟨hbefore, _, rfl, hfinal⟩
    | arg hbefore hg =>
      obtain ⟨hnone, hfinal⟩ := fills_some_iff.mp h.arg
      refine ⟨hdistinct hnone, hknown (by decide), h.tag, h.param, ?_, h.argx, h.argy⟩
      exact fills_member_iff.mpr ⟨hbefore, _, hg, hfinal⟩
    | argx hbefore hg =>
      obtain ⟨hnone, hfinal⟩ := fills_some_iff.mp h.argx
      refine ⟨hdistinct hnone, hknown (by decide), h.tag, h.param, h.arg, ?_, h.argy⟩
      exact fills_member_iff.mpr ⟨hbefore, _, hg, hfinal⟩
    | argy hbefore hg =>
      obtain ⟨hnone, hfinal⟩ := fills_some_iff.mp h.argy
      refine ⟨hdistinct hnone, hknown (by decide), h.tag, h.param, h.arg, h.argx, ?_⟩
      exact fills_member_iff.mpr ⟨hbefore, _, hg, hfinal⟩

/-- Reading goes on with the draft that has taken the first member. -/
theorem nodeOfMembers?_cons_eq_some_iff {m : String × Json} (hm : Decides m.2)
    {rest : List (String × Json)} {d : Draft} {r : ExprRecord} :
    nodeOfMembers? (m :: rest) d = some r ↔
      ∃ d', d.Takes m d' ∧ nodeOfMembers? rest d' = some r := by
  have hread : ∀ g, nullable m.2 (ofJson? m.2) = some g ↔ ArgumentReads m.2 g :=
    nullable_eq_some_iff hm
  constructor
  · intro h
    unfold nodeOfMembers? at h
    -- No members, the five keys of a node, and any other one.
    split at h
    · next heq => cases heq
    · next heq =>
      cases heq
      split at h
      · next hbefore => exact ⟨_, .tag _ hbefore, h⟩
      · cases h
    · next heq =>
      cases heq
      split at h
      · next hbefore => exact ⟨_, .param _ hbefore, h⟩
      · cases h
    · next heq =>
      cases heq
      split at h
      · next hbefore hg => exact ⟨_, .arg hbefore ((hread _).mp hg), h⟩
      · cases h
    · next heq =>
      cases heq
      split at h
      · next hbefore hg => exact ⟨_, .argx hbefore ((hread _).mp hg), h⟩
      · cases h
    · next heq =>
      cases heq
      split at h
      · next hbefore hg => exact ⟨_, .argy hbefore ((hread _).mp hg), h⟩
      · cases h
    · cases h
  · rintro ⟨d', htakes, h⟩
    cases htakes with
    | tag s hbefore => simp [nodeOfMembers?, hbefore, h]
    | param v hbefore => simp [nodeOfMembers?, hbefore, h]
    | arg hbefore hg => simp [nodeOfMembers?, hbefore, (hread _).mpr hg, h]
    | argx hbefore hg => simp [nodeOfMembers?, hbefore, (hread _).mpr hg, h]
    | argy hbefore hg => simp [nodeOfMembers?, hbefore, (hread _).mpr hg, h]

theorem nodeOfMembers?_eq_some_iff_completes {members : List (String × Json)}
    (hmembers : ∀ m ∈ members, Decides m.2) {d : Draft} {r : ExprRecord} :
    nodeOfMembers? members d = some r ↔
      ∃ final, d.Completes members final ∧ final.node? = some r := by
  induction members generalizing d with
  | nil =>
    constructor
    · intro h
      exact ⟨d, ⟨List.nodup_nil, nofun, rfl, rfl, rfl, rfl, rfl⟩, h⟩
    · rintro ⟨final, h, hr⟩
      have hfinal : final = d := by
        cases final
        have htag := h.tag.of_none
        have hparam := h.param.of_none
        have harg := h.arg.of_none
        have hargx := h.argx.of_none
        have hargy := h.argy.of_none
        subst htag hparam harg hargx hargy
        rfl
      rwa [hfinal] at hr
  | cons m rest ih =>
    obtain ⟨hm, hrest⟩ := List.forall_mem_cons.mp hmembers
    simp only [nodeOfMembers?_cons_eq_some_iff hm, ih hrest, Draft.completes_cons_iff]
    constructor
    · rintro ⟨d', htakes, final, hfinal, hr⟩
      exact ⟨final, ⟨d', htakes, hfinal⟩, hr⟩
    · rintro ⟨final, ⟨d', htakes, hfinal⟩, hr⟩
      exact ⟨d', htakes, final, hfinal, hr⟩

/-- The argument of a node none of whose members has been read. -/
theorem argumentReads_iff_fills {left : Option Json} {g : Option ExprRecord} :
    ArgumentReads (left.getD .null) g ↔
      ∃ final, Fills ArgumentReads none left final ∧ final.join = g := by
  cases left with
  | none =>
    constructor
    · intro h
      cases h with
      | null => exact ⟨none, rfl, rfl⟩
      | some h => rcases h.isArray_or_isObject with ⟨_, h⟩ | ⟨_, h⟩ <;> cases h
    · rintro ⟨_, rfl, rfl⟩
      exact .null
  | some v =>
    constructor
    · intro h
      exact ⟨some g, ⟨g, h, rfl⟩, rfl⟩
    · rintro ⟨_, ⟨g, h, rfl⟩, rfl⟩
      exact h

/-- The parameter of a node none of whose members has been read. -/
theorem parameter_eq_iff_fills {left : Option Json} {p : Option Json} :
    parameter (left.getD .null) = p ↔
      ∃ final, Fills (fun v p => parameter v = p) none left final ∧ final.join = p := by
  cases left <;> simp [Fills, parameter, eq_comm]

theorem nodeOfMembers?_eq_some_iff {members : List (String × Json)}
    (hmembers : ∀ m ∈ members, Decides m.2) (r : ExprRecord) :
    nodeOfMembers? members {} = some r ↔ NodeReads (.object members) r := by
  rw [nodeOfMembers?_eq_some_iff_completes hmembers]
  constructor
  · rintro ⟨final, h, hr⟩
    obtain ⟨tag, hfinal, rfl⟩ := Option.map_eq_some_iff.mp hr
    have htag : members.lookup "type" = some (.string tag) := by
      have htag := h.tag
      rw [hfinal] at htag
      cases hlookup : members.lookup "type" with
      | none => simp [hlookup, Fills] at htag
      | some v => simpa [hlookup, Fills] using htag
    have hparam : parameter (member members "param") = final.param.join :=
      parameter_eq_iff_fills.mpr ⟨_, h.param, rfl⟩
    rw [← hparam]
    exact .members h.distinct h.known htag (argumentReads_iff_fills.mpr ⟨_, h.arg, rfl⟩)
      (argumentReads_iff_fills.mpr ⟨_, h.argx, rfl⟩) (argumentReads_iff_fills.mpr ⟨_, h.argy, rfl⟩)
  · intro h
    cases h with
    | @members _ tag g gx gy hdistinct hknown htag harg hargx hargy =>
      obtain ⟨p, hp, hparam⟩ :=
        parameter_eq_iff_fills.mp (rfl : parameter (member members "param") = _)
      obtain ⟨arg, hfills, rfl⟩ := argumentReads_iff_fills.mp harg
      obtain ⟨argx, hfillsx, rfl⟩ := argumentReads_iff_fills.mp hargx
      obtain ⟨argy, hfillsy, rfl⟩ := argumentReads_iff_fills.mp hargy
      refine ⟨⟨some tag, p, arg, argx, argy⟩,
        ⟨hdistinct, hknown, ?_, hp, hfills, hfillsx, hfillsy⟩, ?_⟩
      · rw [htag]
        exact ⟨tag, rfl, rfl⟩
      · rw [← hparam]
        rfl

end Members

/-- The first item of a node in array form is a string, so it is not read as a group. -/
theorem NodeReads.termsOfItems?_eq_none {items : List Json} {r : ExprRecord}
    (h : NodeReads (.array items) r) : termsOfItems? items = none := by
  cases h
  rfl

section Parts

theorem sizeOf_item_lt {items : List Json} {v : Json} (hv : v ∈ items) :
    sizeOf v < sizeOf (Json.array items) := by
  have hlt := List.sizeOf_lt_of_mem hv
  rw [Json.array.sizeOf_spec]
  omega

theorem sizeOf_inner_lt {items inner : List Json} (hinner : .array inner ∈ items) {v : Json}
    (hv : v ∈ inner) : sizeOf v < sizeOf (Json.array items) :=
  Nat.lt_trans (sizeOf_item_lt hv) (sizeOf_item_lt hinner)

theorem sizeOf_member_lt {members : List (String × Json)} {key : String} {v : Json}
    (hm : (key, v) ∈ members) : sizeOf v < sizeOf (Json.object members) := by
  have hlt := List.sizeOf_lt_of_mem hm
  rw [Prod.mk.sizeOf_spec] at hlt
  rw [Json.object.sizeOf_spec]
  omega

end Parts

/-- Reading an expression decides the grammar. -/
theorem ofJson?_eq_some_iff (v : Json) (r : ExprRecord) : ofJson? v = some r ↔ Reads v r := by
  cases v with
  | array items =>
    have hitems : ∀ w ∈ items, Decides w := by
      intro w hw r'
      have hlt := sizeOf_item_lt hw
      exact ofJson?_eq_some_iff w r'
    have hinner : ∀ inner, .array inner ∈ items → ∀ w ∈ inner, Decides w := by
      intro inner hinner w hw r'
      have hlt := sizeOf_inner_lt hinner hw
      exact ofJson?_eq_some_iff w r'
    have hnode := nodeOfItems?_eq_some_iff hitems r
    have hterms := termsOfItems?_eq_some_iff hinner
    rw [ofJson?]
    constructor
    · intro h
      split at h
      · next terms hread =>
        cases h
        exact .group ((hterms terms).mp hread)
      · exact .node (hnode.mp h)
    · intro h
      cases h with
      | group h => rw [(hterms _).mpr h]
      | node h => rw [h.termsOfItems?_eq_none, hnode.mpr h]
  | object members =>
    have hmembers : ∀ m ∈ members, Decides m.2 := by
      rintro ⟨key, w⟩ hw r'
      have hlt := sizeOf_member_lt hw
      exact ofJson?_eq_some_iff w r'
    rw [ofJson?, nodeOfMembers?_eq_some_iff hmembers]
    constructor
    · exact .node
    · rintro ⟨⟩
      assumption
  | _ =>
    rw [ofJson?]
    · constructor
      · nofun
      · intro h
        rcases h.isArray_or_isObject with ⟨_, h⟩ | ⟨_, h⟩ <;> cases h
    all_goals nofun
termination_by sizeOf v
decreasing_by
  all_goals
    subst_vars
    assumption

theorem nodeOfJson?_eq_some_iff (v : Json) (r : ExprRecord) :
    nodeOfJson? v = some r ↔ NodeReads v r := by
  cases v with
  | array items => exact nodeOfItems?_eq_some_iff (fun w _ => ofJson?_eq_some_iff w) r
  | object members => exact nodeOfMembers?_eq_some_iff (fun m _ => ofJson?_eq_some_iff m.2) r
  | _ =>
    constructor
    · nofun
    · nofun

theorem groupOfJson?_eq_some_iff (v : Json) (r : ExprRecord) :
    groupOfJson? v = some r ↔
      ∃ items terms, v = .array items ∧ TermsRead items terms ∧ r = .group terms := by
  cases v with
  | array items =>
    have hterms (terms : List (List FactorRecord)) :
        termsOfItems? items = some terms ↔ TermsRead items terms :=
      termsOfItems?_eq_some_iff (fun _ _ w _ => ofJson?_eq_some_iff w) terms
    constructor
    · intro h
      obtain ⟨terms, hread, rfl⟩ := Option.map_eq_some_iff.mp h
      exact ⟨items, terms, rfl, (hterms terms).mp hread, rfl⟩
    · rintro ⟨_, terms, ⟨⟩, hread, rfl⟩
      rw [groupOfJson?, (hterms terms).mpr hread]
      rfl
  | _ =>
    constructor
    · nofun
    · nofun

end ExprRecord
end Helmholtz
