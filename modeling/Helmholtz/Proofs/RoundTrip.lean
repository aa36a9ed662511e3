import Helmholtz.Fit.Record
import Helmholtz.Proofs.WrittenJson

/-! Writing a record and reading it back.

What is written of a node is an object in which the members without a value are left out, whatever
the form was that the node has been read from; parameters are written as they have been read, with
the keys of their objects in order. -/

namespace Helmholtz
namespace ExprRecord

section Fields
variable {tag : String} {param : Option Json} {arg argx argy : Option ExprRecord}

/-- The fields of a node in the order in which they are written. -/
def fields (tag : String) (param : Option Json) (arg argx argy : Option ExprRecord) :
    List (String × Option Json) := [
  ("type", some (.string tag)),
  ("param", param),
  ("arg", arg.map toJson),
  ("argx", argx.map toJson),
  ("argy", argy.map toJson)]

theorem toJson_node : (node tag param arg argx argy).toJson =
    .object (Json.given (fields tag param arg argx argy)) := by
  cases param <;> cases arg <;> cases argx <;> cases argy <;>
    simp [toJson, argumentMember, fields, Json.given]

theorem keys_fields : (fields tag param arg argx argy).map Prod.fst = nodeKeys := rfl

theorem nodup_keys_fields : ((fields tag param arg argx argy).map Prod.fst).Nodup := by
  rw [keys_fields]
  decide

theorem member_given_fields {key : String} {v : Option Json}
    (h : (key, v) ∈ fields tag param arg argx argy) :
    member (Json.given (fields tag param arg argx argy)) key = v.getD .null := by
  rw [member, Json.lookup_given nodup_keys_fields h]

/-- A parameter that has been read is read again as it is. -/
theorem parameter_parameter (v : Json) : parameter ((parameter v).getD .null) = parameter v := by
  cases v with
  | null => rfl
  | array items => exact congrArg some (Json.canonical_canonical (.array items))
  | object members => exact congrArg some (Json.canonical_canonical (.object members))
  | bool _ | number _ | string _ | unreadable => rfl

/-- The object form of a node, whose arguments are read from what is written of them. -/
theorem nodeReads_toJson (v : Json) (harg : ArgumentReads ((arg.map toJson).getD .null) arg)
    (hargx : ArgumentReads ((argx.map toJson).getD .null) argx)
    (hargy : ArgumentReads ((argy.map toJson).getD .null) argy) :
    NodeReads (node tag (parameter v) arg argx argy).toJson
      (node tag (parameter v) arg argx argy) := by
  have hkeys := Json.keys_given_sublist (fields tag (parameter v) arg argx argy)
  have htag : (Json.given (fields tag (parameter v) arg argx argy)).lookup "type" =
      some (.string tag) := Json.lookup_given nodup_keys_fields (by simp [fields])
  have hparam : member (Json.given (fields tag (parameter v) arg argx argy)) "param" =
      (parameter v).getD .null := member_given_fields (by simp [fields])
  have hargument {key : String} {g : Option ExprRecord}
      (hkey : (key, g.map toJson) ∈ fields tag (parameter v) arg argx argy)
      (hg : ArgumentReads ((g.map toJson).getD .null) g) :
      ArgumentReads (member (Json.given (fields tag (parameter v) arg argx argy)) key) g := by
    rwa [member_given_fields hkey]
  have hnode := NodeReads.members (nodup_keys_fields.sublist hkeys)
    (fun key hkey => hkeys.subset hkey) htag (hargument (by simp [fields]) harg)
    (hargument (by simp [fields]) hargx) (hargument (by simp [fields]) hargy)
  rw [hparam, parameter_parameter] at hnode
  rwa [toJson_node]

end Fields

theorem factorItems_cons (factor : FactorRecord) (rest : List FactorRecord) :
    factorItems (factor :: rest) = factor.toJson :: factorItems rest := by
  cases factor <;> rfl

mutual

/-- What is written of an expression that has been read writes the same expression. -/
theorem Reads.toJson {v : Json} {r : ExprRecord} : Reads v r → Reads r.toJson r
  | .group h => .group h.toJson
  | .node h => .node h.toJson

theorem NodeReads.toJson {v : Json} {r : ExprRecord} : NodeReads v r → NodeReads r.toJson r
  | .items harg hargx hargy => nodeReads_toJson _ harg.toJson hargx.toJson hargy.toJson
  | .members _ _ _ harg hargx hargy =>
    nodeReads_toJson _ harg.toJson hargx.toJson hargy.toJson

theorem ArgumentReads.toJson {v : Json} {g : Option ExprRecord} :
    ArgumentReads v g → ArgumentReads ((g.map ExprRecord.toJson).getD .null) g
  | .null => .null
  | .some h => .some h.toJson

theorem TermsRead.toJson {items : List Json} {terms : List (List FactorRecord)} :
    TermsRead items terms → TermsRead (termItems terms) terms
  | .nil => .nil
  | .cons hitems hrest => .cons hitems.toJson hrest.toJson

theorem FactorsRead.toJson {items : List Json} {factors : List FactorRecord} :
    FactorsRead items factors → FactorsRead (factorItems factors) factors
  | .nil => .nil
  | .cons hv hrest => by
    rw [factorItems_cons]
    exact .cons hv.toJson hrest.toJson

theorem FactorReads.toJson {v : Json} {factor : FactorRecord} :
    FactorReads v factor → FactorReads factor.toJson factor
  | .constant => .constant
  | .expr h => .expr h.toJson

end

theorem numbersFinite_toJson_node {tag : String} {param : Json} {g gx gy : Option ExprRecord}
    (hparam : param.NumbersFinite) (harg : ∀ v ∈ g.map toJson, v.NumbersFinite)
    (hargx : ∀ v ∈ gx.map toJson, v.NumbersFinite)
    (hargy : ∀ v ∈ gy.map toJson, v.NumbersFinite) :
    (node tag (parameter param) g gx gy).toJson.NumbersFinite := by
  have hread : ∀ v ∈ parameter param, v.NumbersFinite := by
    intro v hv
    unfold parameter at hv
    split at hv
    · cases hv
    · cases hv
      exact Json.numbersFinite_canonical param hparam
  have htag : ∀ v ∈ some (Json.string tag), v.NumbersFinite := by
    rintro v ⟨⟩
    trivial
  rw [toJson_node]
  refine Json.membersFinite_given ?_
  rw [fields]
  simp only [List.forall_mem_cons, List.not_mem_nil, false_implies, implies_true, and_true]
  exact ⟨htag, hread, harg, hargx, hargy⟩

mutual

/-- The numbers that are written of an expression have all been read. -/
theorem Reads.numbersFinite_toJson {v : Json} {r : ExprRecord} :
    Reads v r → v.NumbersFinite → r.toJson.NumbersFinite
  | .group h, hv => h.itemsFinite_termItems hv
  | .node h, hv => h.numbersFinite_toJson hv

theorem NodeReads.numbersFinite_toJson {v : Json} {r : ExprRecord} :
    NodeReads v r → v.NumbersFinite → r.toJson.NumbersFinite
  | .items harg hargx hargy, ⟨_, hparam, hv, hvx, hvy, _⟩ =>
    numbersFinite_toJson_node hparam (harg.numbersFinite_toJson hv)
      (hargx.numbersFinite_toJson hvx) (hargy.numbersFinite_toJson hvy)
  | .members _ _ _ harg hargx hargy, hmembers =>
    numbersFinite_toJson_node (numbersFinite_member hmembers "param")
      (harg.numbersFinite_toJson (numbersFinite_member hmembers "arg"))
      (hargx.numbersFinite_toJson (numbersFinite_member hmembers "argx"))
      (hargy.numbersFinite_toJson (numbersFinite_member hmembers "argy"))

theorem ArgumentReads.numbersFinite_toJson {v : Json} {g : Option ExprRecord} :
    ArgumentReads v g → v.NumbersFinite → ∀ w ∈ g.map ExprRecord.toJson, w.NumbersFinite
  | .null, _ => nofun
  | .some h, hv => by
    rintro w ⟨⟩
    exact h.numbersFinite_toJson hv

theorem TermsRead.itemsFinite_termItems {items : List Json} {terms : List (List FactorRecord)} :
    TermsRead items terms → Json.ItemsFinite items → Json.ItemsFinite (termItems terms)
  | .nil, _ => trivial
  | .cons hitems hrest, ⟨hv, hvs⟩ =>
    ⟨hitems.itemsFinite_factorItems hv, hrest.itemsFinite_termItems hvs⟩

theorem FactorsRead.itemsFinite_factorItems {items : List Json} {factors : List FactorRecord} :
    FactorsRead items factors → Json.ItemsFinite items → Json.ItemsFinite (factorItems factors)
  | .nil, _ => trivial
  | .cons hv hrest, ⟨hfinite, hvs⟩ => by
    rw [factorItems_cons]
    exact ⟨hv.numbersFinite_toJson hfinite, hrest.itemsFinite_factorItems hvs⟩

theorem FactorReads.numbersFinite_toJson {v : Json} {factor : FactorRecord} :
    FactorReads v factor → v.NumbersFinite → factor.toJson.NumbersFinite
  | .constant, hv => hv
  | .expr h, hv => h.numbersFinite_toJson hv

end

end ExprRecord

namespace Identifier

/-- The names as fields, in the order in which they are written. -/
def fields (i : Identifier) : List (String × Option Json) :=
  IdentifierKind.all.map fun k => (key k, (i.get? k).map Json.string)

theorem toJson_eq_given (i : Identifier) : i.toJson = .object (Json.given i.fields) := by
  have hmembers : ∀ kinds : List IdentifierKind,
      (kinds.flatMap fun k => Json.optionalMember (key k) (i.get? k)) =
        Json.given (kinds.map fun k => (key k, (i.get? k).map Json.string)) := by
    intro kinds
    induction kinds with
    | nil => rfl
    | cons k rest ih =>
      rw [List.flatMap_cons, ih, List.map_cons]
      cases i.get? k <;> rfl
  exact congrArg Json.object (hmembers _)

theorem ofJson?_toJson (i : Identifier) : ofJson? i.toJson = some i := by
  have hkeys : i.fields.map Prod.fst = IdentifierKind.all.map key := rfl
  have hdistinct : (i.fields.map Prod.fst).Nodup := by
    rw [hkeys]
    decide
  have hfields := Json.fields?_given hdistinct
  rw [← toJson_eq_given, hkeys] at hfields
  rw [ofJson?, hfields]
  simp [fields, IdentifierKind.all, get?, Json.optionalString?_map_string]

theorem numbersFinite_toJson (i : Identifier) : i.toJson.NumbersFinite := by
  rw [toJson_eq_given]
  refine Json.membersFinite_given fun f hf v hv => ?_
  obtain ⟨k, -, rfl⟩ := List.mem_map.mp hf
  obtain ⟨s, -, rfl⟩ := Option.map_eq_some_iff.mp hv
  trivial

end Identifier

namespace FitRecord

/-- The fields in the order in which they are written. -/
def fields (m : FitRecord Float) : List (String × Option Json) := [
  ("ig", some (floatsJson m.idealGas.toList)),
  ("ar", some (.array (m.blocks.map fun rows => .array (rows.map floatsJson)))),
  ("tc", some (.number (.float m.tc))),
  ("dc", some (.number (.float m.dc))),
  ("r", some (.number (.float m.r)))]

theorem blocksOfJson?_toJson (blocks : List (List (List Float))) :
    blocksOfJson? (.array (blocks.map fun rows => .array (rows.map floatsJson))) = some blocks := by
  have hfloat (x : Float) : Json.float? (.number (.float x)) = some x := rfl
  have hfloats (row : List Float) : Json.list? Json.float? (floatsJson row) = some row :=
    Json.list?_map hfloat row
  exact Json.list?_map (Json.list?_map hfloats) blocks

theorem ofJson?_toJson (m : FitRecord Float) : ofJson? m.toJson = some m := by
  have hdistinct : (m.fields.map Prod.fst).Nodup := by
    simp [fields]
  have hfields : m.toJson.fields? ["ig", "ar", "tc", "dc", "r"] = some (m.fields.map Prod.snd) :=
    Json.fields?_given hdistinct
  have hblocks := blocksOfJson?_toJson m.blocks
  simp [ofJson?, hfields, fields, hblocks, Json.required?, Json.float?, Number.toFloat,
    idealGasOfJson?, floatsJson, IdealGas.toList]

theorem numbersFinite_floatsJson {xs : List Float} (h : ∀ x ∈ xs, x.isFinite = true) :
    (floatsJson xs).NumbersFinite := by
  refine Json.itemsFinite_iff.mpr fun v hv => ?_
  obtain ⟨x, hx, rfl⟩ := List.mem_map.mp hv
  exact h x hx

theorem numbersFinite_idealGas {v : Json} (hv : v.NumbersFinite) {g : IdealGas Float}
    (h : idealGasOfJson? v = some g) : (floatsJson g.toList).NumbersFinite := by
  unfold idealGasOfJson? at h
  split at h
  · obtain ⟨h0, h1, h2, h3, h4, -⟩ := hv
    obtain ⟨c0, hc0, h⟩ := Option.bind_eq_some_iff.mp h
    obtain ⟨c1, hc1, h⟩ := Option.bind_eq_some_iff.mp h
    obtain ⟨c2, hc2, h⟩ := Option.bind_eq_some_iff.mp h
    obtain ⟨c3, hc3, h⟩ := Option.bind_eq_some_iff.mp h
    obtain ⟨c4, hc4, h⟩ := Option.bind_eq_some_iff.mp h
    cases h
    exact ⟨Json.isFinite_of_float? h0 hc0, Json.isFinite_of_float? h1 hc1,
      Json.isFinite_of_float? h2 hc2, Json.isFinite_of_float? h3 hc3,
      Json.isFinite_of_float? h4 hc4, trivial⟩
  · cases h

theorem numbersFinite_blocks {v : Json} (hv : v.NumbersFinite) {blocks : List (List (List Float))}
    (h : blocksOfJson? v = some blocks) :
    (Json.array (blocks.map fun rows => .array (rows.map floatsJson))).NumbersFinite := by
  refine Json.itemsFinite_iff.mpr fun w hw => ?_
  obtain ⟨rows, hrows, rfl⟩ := List.mem_map.mp hw
  obtain ⟨block, hblock, hread⟩ := Json.exists_of_mem_of_list? hv h hrows
  refine Json.itemsFinite_iff.mpr fun w hw => ?_
  obtain ⟨row, hrow, rfl⟩ := List.mem_map.mp hw
  obtain ⟨items, hitems, hread⟩ := Json.exists_of_mem_of_list? hblock hread hrow
  refine numbersFinite_floatsJson fun x hx => ?_
  obtain ⟨number, hnumber, hread⟩ := Json.exists_of_mem_of_list? hitems hread hx
  exact Json.isFinite_of_float? hnumber hread

theorem numbersFinite_toJson {v : Json} (hv : v.NumbersFinite) {m : FitRecord Float}
    (h : ofJson? v = some m) : m.toJson.NumbersFinite := by
  obtain ⟨fields, hfields, h⟩ := Option.bind_eq_some_iff.mp h
  have hfinite {w : Json} (hw : some w ∈ fields) : w.NumbersFinite :=
    Json.numbersFinite_of_fields? hv hfields hw
  split at h
  · next ig ar tc dc r =>
    obtain ⟨g, hg, h⟩ := Option.bind_eq_some_iff.mp h
    obtain ⟨blocks, hblocks, h⟩ := Option.bind_eq_some_iff.mp h
    obtain ⟨tc', htc, h⟩ := Option.bind_eq_some_iff.mp h
    obtain ⟨dc', hdc, h⟩ := Option.bind_eq_some_iff.mp h
    obtain ⟨r', hr, h⟩ := Option.bind_eq_some_iff.mp h
    cases h
    obtain ⟨ig', rfl, hg⟩ := Option.bind_eq_some_iff.mp hg
    have hrows :
        (Json.array (blocks.map fun rows => .array (rows.map floatsJson))).NumbersFinite := by
      cases ar with
      | none =>
        cases hblocks
        trivial
      | some ar' => exact numbersFinite_blocks (hfinite (by simp)) hblocks
    have hfloat {field : Option Json} {x : Float} (hmem : field ∈ [some ig', ar, tc, dc, r])
        (hx : Json.required? Json.float? field = some x) : x.isFinite = true := by
      obtain ⟨w, rfl, hx⟩ := Option.bind_eq_some_iff.mp hx
      exact Json.isFinite_of_float? (hfinite hmem) hx
    exact ⟨numbersFinite_idealGas (hfinite (by simp)) hg, hrows, hfloat (by simp) htc,
      hfloat (by simp) hdc, hfloat (by simp) hr, trivial⟩
  · cases h

end FitRecord

namespace Substance

/-- The fields in the order in which they are written. -/
def fields (s : Substance Float) : List (String × Option Json) := [
  ("identifier", some s.identifier.toJson),
  ("molarweight", some (.number (.float s.molarWeight))),
  ("model_record", some s.record.toJson)]

theorem ofJson?_toJson (s : Substance Float) : ofJson? s.toJson = some s := by
  have hdistinct : (s.fields.map Prod.fst).Nodup := by
    simp [fields]
  have hfields : s.toJson.fields? ["identifier", "molarweight", "model_record"] =
      some (s.fields.map Prod.snd) := Json.fields?_given hdistinct
  simp [ofJson?, hfields, fields, Json.required?, Json.float?, Number.toFloat,
    Identifier.ofJson?_toJson, FitRecord.ofJson?_toJson]

theorem numbersFinite_toJson {v : Json} (hv : v.NumbersFinite) {s : Substance Float}
    (h : ofJson? v = some s) : s.toJson.NumbersFinite := by
  obtain ⟨fields, hfields, h⟩ := Option.bind_eq_some_iff.mp h
  have hfinite {w : Json} (hw : some w ∈ fields) : w.NumbersFinite :=
    Json.numbersFinite_of_fields? hv hfields hw
  split at h
  · obtain ⟨i, -, h⟩ := Option.bind_eq_some_iff.mp h
    obtain ⟨weight, hweight, h⟩ := Option.bind_eq_some_iff.mp h
    obtain ⟨m, hm, h⟩ := Option.bind_eq_some_iff.mp h
    cases h
    obtain ⟨weight', rfl, hweight⟩ := Option.bind_eq_some_iff.mp hweight
    obtain ⟨record, rfl, hm⟩ := Option.bind_eq_some_iff.mp hm
    exact ⟨i.numbersFinite_toJson, Json.isFinite_of_float? (hfinite (by simp)) hweight,
      FitRecord.numbersFinite_toJson (hfinite (by simp)) hm, trivial⟩
  · cases h

end Substance

/-- What has been read can be written and read again without loss, and another round of reading and
writing changes nothing. What is written are finite numbers if those that have been read were. -/
structure RoundTrips {ρ : Type} (decode : Json → Option ρ) (encode : ρ → Json) : Prop where
  decode_encode : ∀ v r, decode v = some r → decode (encode r) = some r
  idempotent : ∀ v w, (decode v).map encode = some w → (decode w).map encode = some w
  numbersFinite : ∀ v r, decode v = some r → v.NumbersFinite → (encode r).NumbersFinite

theorem RoundTrips.of_decode_encode {ρ : Type} {decode : Json → Option ρ} {encode : ρ → Json}
    (h : ∀ v r, decode v = some r → decode (encode r) = some r)
    (hfinite : ∀ v r, decode v = some r → v.NumbersFinite → (encode r).NumbersFinite) :
    RoundTrips decode encode where
  decode_encode := h
  numbersFinite := hfinite
  idempotent v w hw := by
    obtain ⟨r, hr, rfl⟩ := Option.map_eq_some_iff.mp hw
    rw [h v r hr]
    rfl

section Expressions
open ExprRecord

theorem nodes_roundTrip : RoundTrips nodeOfJson? toJson := by
  refine .of_decode_encode (fun v r h => ?_) fun v r h hv => ?_
  · exact (nodeOfJson?_eq_some_iff _ r).mpr ((nodeOfJson?_eq_some_iff v r).mp h).toJson
  · exact ((nodeOfJson?_eq_some_iff v r).mp h).numbersFinite_toJson hv

theorem expressions_roundTrip : RoundTrips ofJson? toJson := by
  refine .of_decode_encode (fun v r h => ?_) fun v r h hv => ?_
  · exact (ofJson?_eq_some_iff _ r).mpr ((ofJson?_eq_some_iff v r).mp h).toJson
  · exact ((ofJson?_eq_some_iff v r).mp h).numbersFinite_toJson hv

theorem factors_roundTrip : RoundTrips FactorRecord.ofJson? FactorRecord.toJson := by
  have hread (v : Json) (factor : FactorRecord) :
      FactorRecord.ofJson? v = some factor ↔ FactorReads v factor :=
    factorOfJson?_eq_some_iff (ofJson?_eq_some_iff v) factor
  refine .of_decode_encode (fun v factor h => ?_) fun v factor h hv => ?_
  · exact (hread _ factor).mpr ((hread v factor).mp h).toJson
  · exact ((hread v factor).mp h).numbersFinite_toJson hv

theorem groups_roundTrip : RoundTrips groupOfJson? toJson := by
  refine .of_decode_encode (fun v r h => ?_) fun v r h hv => ?_
  · obtain ⟨_, terms, -, hterms, rfl⟩ := (groupOfJson?_eq_some_iff v r).mp h
    exact (groupOfJson?_eq_some_iff _ _).mpr ⟨_, terms, rfl, hterms.toJson, rfl⟩
  · obtain ⟨items, terms, rfl, hterms, rfl⟩ := (groupOfJson?_eq_some_iff v r).mp h
    exact hterms.itemsFinite_termItems hv

end Expressions

/-- A record is read back as it was: nodes, expressions, which are the arguments of nodes, factors,
groups, the names of a substance, the parameters of a fit, and substances. The last three need not
have been read before. -/
theorem records_roundTrip :
    (RoundTrips ExprRecord.nodeOfJson? ExprRecord.toJson ∧
      RoundTrips ExprRecord.ofJson? ExprRecord.toJson ∧
      RoundTrips FactorRecord.ofJson? FactorRecord.toJson ∧
      RoundTrips ExprRecord.groupOfJson? ExprRecord.toJson ∧
      RoundTrips Identifier.ofJson? Identifier.toJson ∧
      RoundTrips FitRecord.ofJson? FitRecord.toJson ∧
      RoundTrips Substance.ofJson? Substance.toJson) ∧
    (∀ i : Identifier, Identifier.ofJson? i.toJson = some i) ∧
    (∀ m : FitRecord Float, FitRecord.ofJson? m.toJson = some m) ∧
    ∀ s : Substance Float, Substance.ofJson? s.toJson = some s := by
  refine ⟨⟨nodes_roundTrip, expressions_roundTrip, factors_roundTrip, groups_roundTrip, ?_, ?_, ?_⟩,
    Identifier.ofJson?_toJson, FitRecord.ofJson?_toJson, Substance.ofJson?_toJson⟩
  · exact .of_decode_encode (fun _ i _ => i.ofJson?_toJson) fun _ i _ _ => i.numbersFinite_toJson
  · exact .of_decode_encode (fun _ m _ => m.ofJson?_toJson)
      fun _ _ h hv => FitRecord.numbersFinite_toJson hv h
  · exact .of_decode_encode (fun _ s _ => s.ofJson?_toJson)
      fun _ _ h hv => Substance.numbersFinite_toJson hv h

/-- A node in array form with a group as its argument, in which a node is an object with its keys in
an odd order and a number is an integer. -/
def sampleNode : Json :=
  .array [.string "poly", .object [("b", .number (.int 2)), ("a", .null)], .null,
    .array [.array [.number (.int 3), .object [("argx", .null), ("type", .string "x")]]], .null]

/-- The node is written as an object without the members that are `null`. -/
theorem sampleNode_roundTrip : ∃ r, ExprRecord.nodeOfJson? sampleNode = some r ∧
    r.toJson.get? "arg" = none ∧ ExprRecord.nodeOfJson? r.toJson = some r := by
  have hread : ExprRecord.nodeOfJson? sampleNode = some (.node "poly"
      (some (.object [("a", .null), ("b", .number (.int 2))])) none
      (some (.group [[.constant (Float.ofInt 3), .expr (.leaf "x" none)]])) none) := rfl
  exact ⟨_, hread, rfl, records_roundTrip.1.1.decode_encode _ _ hread⟩

end Helmholtz
