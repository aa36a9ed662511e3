import Helmholtz.Json.Printer
import Helmholtz.Json.Reader

/-! The declarative form of expressions, and its JSON.

One form serves expressions in one variable, whose nodes may have an `arg`, and in two variables,
whose nodes may have an `argx` and an `argy`. A node is an object with the keys `type`, `param`,
`arg`, `argx` and `argy`, of which only `type` is required, or the array of these five values; a
group is an array of terms, each of which is an array of factors; a factor is a number, a group or a
node. -/

namespace Helmholtz

mutual

/-- The declarative form of an expression. -/
inductive ExprRecord where
  | node (tag : String) (param : Option Json) (arg argx argy : Option ExprRecord)
  | group (terms : List (List FactorRecord))

/-- The declarative form of a factor. -/
inductive FactorRecord where
  | constant (c : Float)
  | expr (e : ExprRecord)

end

namespace ExprRecord

/-- A node without arguments. -/
def leaf (tag : String) (param : Option Json) : ExprRecord := node tag param none none none

/-- The members of a node that have been read; one that was given as `null` is read, but has no
value. -/
structure Draft where
  tag : Option String := none
  param : Option (Option Json) := none
  arg : Option (Option ExprRecord) := none
  argx : Option (Option ExprRecord) := none
  argy : Option (Option ExprRecord) := none

/-- The node with the given members. -/
def Draft.node? (d : Draft) : Option ExprRecord :=
  d.tag.map fun tag => node tag d.param.join d.arg.join d.argx.join d.argy.join

/-- What is read of a value that may be `null`. -/
def nullable {α : Type u} (v : Json) (read : Option α) : Option (Option α) :=
  match v with
  | .null => some none
  | _ => read.map some

/-- A parameter, which may be any value; the keys of its objects are put in order. -/
def parameter (v : Json) : Option Json :=
  match v with
  | .null => none
  | v => some v.canonical

mutual

/-- An expression: a group if it can be read as one, else a node. -/
def ofJson? : Json → Option ExprRecord
  | .array items =>
    match termsOfItems? items with
    | some terms => some (.group terms)
    | none => nodeOfItems? items
  | .object members => nodeOfMembers? members {}
  | _ => none

/-- A node from the array of its five values. -/
def nodeOfItems? : List Json → Option ExprRecord
  | [.string tag, param, arg, argx, argy] => do
    let g ← nullable arg (ofJson? arg)
    let gx ← nullable argx (ofJson? argx)
    let gy ← nullable argy (ofJson? argy)
    some (.node tag (parameter param) g gx gy)
  | _ => none

/-- A node from its members; none may be unknown, and none given twice. -/
def nodeOfMembers? : List (String × Json) → Draft → Option ExprRecord
  | [], d => d.node?
  | ("type", v) :: rest, d =>
    match d.tag, v with
    | none, .string tag => nodeOfMembers? rest { d with tag := some tag }
    | _, _ => none
  | ("param", v) :: rest, d =>
    match d.param with
    | none => nodeOfMembers? rest { d with param := some (parameter v) }
    | some _ => none
  | ("arg", v) :: rest, d =>
    match d.arg, nullable v (ofJson? v) with
    | none, some g => nodeOfMembers? rest { d with arg := some g }
    | _, _ => none
  | ("argx", v) :: rest, d =>
    match d.argx, nullable v (ofJson? v) with
    | none, some g => nodeOfMembers? rest { d with argx := some g }
    | _, _ => none
  | ("argy", v) :: rest, d =>
    match d.argy, nullable v (ofJson? v) with
    | none, some g => nodeOfMembers? rest { d with argy := some g }
    | _, _ => none
  | _ :: _, _ => none

/-- The terms of a group. -/
def termsOfItems? : List Json → Option (List (List FactorRecord))
  | [] => some []
  | .array items :: rest => do
    let factors ← factorsOfItems? items
    let terms ← termsOfItems? rest
    some (factors :: terms)
  | _ :: _ => none

/-- The factors of a term. -/
def factorsOfItems? : List Json → Option (List FactorRecord)
  | [] => some []
  | .number n :: rest => (factorsOfItems? rest).map (.constant n.toFloat :: ·)
  | v :: rest => do
    let e ← ofJson? v
    let factors ← factorsOfItems? rest
    some (.expr e :: factors)

end

/-- A node. -/
def nodeOfJson? : Json → Option ExprRecord
  | .array items => nodeOfItems? items
  | .object members => nodeOfMembers? members {}
  | _ => none

/-- A group. -/
def groupOfJson? : Json → Option ExprRecord
  | .array items => (termsOfItems? items).map group
  | _ => none

mutual

/-- The JSON of an expression; a node is an object with the members that have a value. -/
def toJson : ExprRecord → Json
  | .node tag param arg argx argy =>
    .object (("type", .string tag) ::
      ((param.toList.map ("param", ·)) ++ argumentMember "arg" arg ++
        argumentMember "argx" argx ++ argumentMember "argy" argy))
  | .group terms => .array (termItems terms)

def argumentMember (key : String) : Option ExprRecord → List (String × Json)
  | none => []
  | some e => [(key, e.toJson)]

def termItems : List (List FactorRecord) → List Json
  | [] => []
  | t :: rest => .array (factorItems t) :: termItems rest

def factorItems : List FactorRecord → List Json
  | [] => []
  | .constant c :: rest => .number (.float c) :: factorItems rest
  | .expr e :: rest => e.toJson :: factorItems rest

end
end ExprRecord

namespace FactorRecord

/-- A factor. -/
def ofJson? : Json → Option FactorRecord
  | .number n => some (.constant n.toFloat)
  | v => (ExprRecord.ofJson? v).map expr

def toJson : FactorRecord → Json
  | constant c => .number (.float c)
  | expr e => e.toJson

end FactorRecord
end Helmholtz
