import Helmholtz.Json.Fields

/-! The names by which a substance is known. -/

namespace Helmholtz

/-- The names of a substance, each of which may be unknown. -/
structure Identifier where
  /-- The number in the registry of chemical substances. -/
  cas : Option String := none
  /-- The commonly used name. -/
  name : Option String := none
  iupacName : Option String := none
  smiles : Option String := none
  inchi : Option String := none
  /-- The chemical formula. -/
  formula : Option String := none
  deriving DecidableEq

/-- Which of the names identifies a substance. -/
inductive IdentifierKind where
  | cas
  | name
  | iupacName
  | smiles
  | inchi
  | formula
  deriving DecidableEq

namespace IdentifierKind

/-- The word for the kind in JSON. -/
def tag : IdentifierKind → String
  | cas => "Cas"
  | name => "Name"
  | iupacName => "IupacName"
  | smiles => "Smiles"
  | inchi => "Inchi"
  | formula => "Formula"

def all : List IdentifierKind := [cas, name, iupacName, smiles, inchi, formula]

def ofTag? (tag : String) : Option IdentifierKind := all.find? (·.tag == tag)

/-- The word alone, or an object with the word as its only key and `null` as the value. -/
def ofJson? : Json → Option IdentifierKind
  | .string s => ofTag? s
  | .object [(s, .null)] => ofTag? s
  | _ => none

def toJson (k : IdentifierKind) : Json := .string k.tag

theorem ofJson?_toJson (k : IdentifierKind) : ofJson? k.toJson = some k := by
  cases k <;> rfl

end IdentifierKind

namespace Identifier

/-- The identifier of a substance that is known by name and formula only. -/
def ofFormula (name formula : String) : Identifier := { name := some name, formula := some formula }

def get? (i : Identifier) : IdentifierKind → Option String
  | .cas => i.cas
  | .name => i.name
  | .iupacName => i.iupacName
  | .smiles => i.smiles
  | .inchi => i.inchi
  | .formula => i.formula

/-- What the field for each kind of name holds. -/
inductive Holds (i : Identifier) : IdentifierKind → Option String → Prop where
  | cas : Holds i .cas i.cas
  | name : Holds i .name i.name
  | iupacName : Holds i .iupacName i.iupacName
  | smiles : Holds i .smiles i.smiles
  | inchi : Holds i .inchi i.inchi
  | formula : Holds i .formula i.formula

/-- Each kind of name is read from its own field. -/
theorem get?_eq_iff {i : Identifier} {k : IdentifierKind} {name : Option String} :
    i.get? k = name ↔ i.Holds k name := by
  constructor
  · rintro rfl
    cases k <;> constructor
  · intro h
    cases h <;> rfl

/-- The key of a name in texts and in JSON. -/
def key : IdentifierKind → String
  | .cas => "cas"
  | .name => "name"
  | .iupacName => "iupac_name"
  | .smiles => "smiles"
  | .inchi => "inchi"
  | .formula => "formula"

def toText (i : Identifier) : String :=
  let names := IdentifierKind.all.filterMap fun k => (i.get? k).map fun s => s!"{key k}={s}"
  "Identifier(" ++ ", ".intercalate names ++ ")"

def ofJson? (v : Json) : Option Identifier := do
  match ← v.fields? (IdentifierKind.all.map key) with
  | [cas, name, iupacName, smiles, inchi, formula] =>
    some {
      cas := ← Json.optionalString? cas
      name := ← Json.optionalString? name
      iupacName := ← Json.optionalString? iupacName
      smiles := ← Json.optionalString? smiles
      inchi := ← Json.optionalString? inchi
      formula := ← Json.optionalString? formula }
  | _ => none

def toJson (i : Identifier) : Json :=
  .object (IdentifierKind.all.flatMap fun k => Json.optionalMember (key k) (i.get? k))

end Identifier
end Helmholtz
