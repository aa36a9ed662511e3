import Helmholtz.Fit.IdealGas
import Helmholtz.Substance.Identifier
import Helmholtz.Text

/-! The parameters of a fit of a pure substance, and their JSON. -/

namespace Helmholtz

/-- The parameters of a fit. -/
structure FitRecord (α : Type u) where
  idealGas : IdealGas α
  /-- The rows of coefficients of each block of the residual part. -/
  blocks : List (List (List α))
  /-- The reference temperature of the reduced inverse temperature. -/
  tc : α
  /-- The reference density of the reduced density. -/
  dc : α
  /-- The specific gas constant. -/
  r : α

/-- A pure substance with the parameters of its fit. -/
structure Substance (α : Type u) where
  identifier : Identifier
  molarWeight : α
  record : FitRecord α

namespace FitRecord

def toText (m : FitRecord Float) : String :=
  s!"Mp1Record(ig={rowText m.idealGas.toList}, groups={m.blocks.length}, " ++
    s!"tc={plainText m.tc}, dc={plainText m.dc}, r={plainText m.r})"

def idealGasOfJson? : Json → Option (IdealGas Float)
  | .array [c0, c1, c2, c3, c4] => do
    some ⟨← c0.float?, ← c1.float?, ← c2.float?, ← c3.float?, ← c4.float?⟩
  | _ => none

def blocksOfJson? : Json → Option (List (List (List Float))) :=
  Json.list? (Json.list? (Json.list? Json.float?))

/-- All fields are required but the blocks, of which there are none if the field is missing. -/
def ofJson? (v : Json) : Option (FitRecord Float) := do
  match ← v.fields? ["ig", "ar", "tc", "dc", "r"] with
  | [ig, ar, tc, dc, r] =>
    some {
      idealGas := ← Json.required? idealGasOfJson? ig
      blocks := ← (match ar with
        | none => some []
        | some v => blocksOfJson? v)
      tc := ← Json.required? Json.float? tc
      dc := ← Json.required? Json.float? dc
      r := ← Json.required? Json.float? r }
  | _ => none

def floatsJson (xs : List Float) : Json := .array (xs.map fun x => .number (.float x))

def toJson (m : FitRecord Float) : Json :=
  .object [
    ("ig", floatsJson m.idealGas.toList),
    ("ar", .array (m.blocks.map fun rows => .array (rows.map floatsJson))),
    ("tc", .number (.float m.tc)),
    ("dc", .number (.float m.dc)),
    ("r", .number (.float m.r))]

end FitRecord

namespace Substance

def toText (s : Substance Float) : String :=
  "PureRecord(" ++ s!"\n\tidentifier={s.identifier.toText}," ++
    s!"\n\tmolarweight={plainText s.molarWeight}," ++
    s!"\n\tmodel_record={s.record.toText},\n)"

def ofJson? (v : Json) : Option (Substance Float) := do
  match ← v.fields? ["identifier", "molarweight", "model_record"] with
  | [identifier, molarWeight, record] =>
    some {
      identifier := ← Json.required? Identifier.ofJson? identifier
      molarWeight := ← Json.required? Json.float? molarWeight
      record := ← Json.required? FitRecord.ofJson? record }
  | _ => none

def toJson (s : Substance Float) : Json :=
  .object [
    ("identifier", s.identifier.toJson),
    ("molarweight", .number (.float s.molarWeight)),
    ("model_record", s.record.toJson)]

end Substance
end Helmholtz
