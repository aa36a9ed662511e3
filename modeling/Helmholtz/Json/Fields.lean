import Helmholtz.Json.Reader

/-! Reading values with a fixed list of fields: an object, in which unknown keys are passed over, or
the array of the fields in their order, which may stop early. -/

namespace Helmholtz.Json

/-- The value of a key, itself absent if the object does not have the key; fails if the key is given
more than once. -/
def single? (members : List (String × Json)) (key : String) : Option (Option Json) :=
  match members.filter (·.1 == key) with
  | [] => some none
  | [(_, v)] => some (some v)
  | _ => none

/-- The values of the fields with the given keys, in this order. -/
def fields? (keys : List String) : Json → Option (List (Option Json))
  | object members => keys.mapM (single? members)
  | array items =>
    if items.length ≤ keys.length then
      some (items.map some ++ List.replicate (keys.length - items.length) none)
    else none
  | _ => none

/-- A string field that may be missing or `null`. -/
def optionalString? : Option Json → Option (Option String)
  | none => some none
  | some null => some none
  | some (string s) => some (some s)
  | _ => none

/-- A field that has to be there. -/
def required? {α : Type u} (read : Json → Option α) (field : Option Json) : Option α :=
  field.bind read

/-- A member for a value that may be missing. -/
def optionalMember (key : String) : Option String → List (String × Json)
  | none => []
  | some s => [(key, string s)]

end Helmholtz.Json
