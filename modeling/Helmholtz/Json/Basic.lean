/-! JSON values. An object keeps its members as written, repeated keys included; what a repeated key
means is for the reader of the object to decide. -/

namespace Helmholtz

/-- A number token: an integer without fraction and exponent that fits 64 bits, or a double. -/
inductive Number where
  | int (n : Int)
  | float (x : Float)

namespace Number

/-- The nearest double. -/
def toFloat : Number → Float
  | int n => Float.ofInt n
  | float x => x

end Number

/-- A JSON value. -/
inductive Json where
  | null
  | bool (b : Bool)
  | number (n : Number)
  | string (s : String)
  | array (items : List Json)
  | object (members : List (String × Json))
  /-- A text that obeys the grammar but has no value: a number beyond the doubles, a string with
  half a surrogate pair, an object with such a key, or brackets nested too deeply. It may stand
  where nobody looks at it. -/
  | unreadable

namespace Json

instance : Inhabited Json := ⟨null⟩

mutual

/-- No part of the value is unreadable. -/
def isReadable : Json → Bool
  | unreadable => false
  | array items => allReadable items
  | object members => allMembersReadable members
  | _ => true

def allReadable : List Json → Bool
  | [] => true
  | v :: rest => v.isReadable && allReadable rest

def allMembersReadable : List (String × Json) → Bool
  | [] => true
  | (_, v) :: rest => v.isReadable && allMembersReadable rest

end

/-- Replaces the value of a key, or puts the key in its place in ascending order. -/
def putSorted (key : String) (value : Json) : List (String × Json) → List (String × Json)
  | [] => [(key, value)]
  | (k, v) :: rest =>
    if key < k then (key, value) :: (k, v) :: rest
    else if key = k then (key, value) :: rest
    else (k, v) :: putSorted key value rest

mutual

/-- The value with the keys of every object in ascending order, each with the last value given to
it. -/
def canonical : Json → Json
  | array items => array (canonicalItems items)
  | object members => object (canonicalMembers members [])
  | v => v

def canonicalItems : List Json → List Json
  | [] => []
  | v :: rest => v.canonical :: canonicalItems rest

def canonicalMembers : List (String × Json) → List (String × Json) → List (String × Json)
  | [], sorted => sorted
  | (k, v) :: rest, sorted => canonicalMembers rest (putSorted k v.canonical sorted)

end

/-- The value of a key of an object whose keys are distinct. -/
def get? (key : String) : Json → Option Json
  | object members => members.lookup key
  | _ => none

def string? : Json → Option String
  | string s => some s
  | _ => none

def float? : Json → Option Float
  | number n => some n.toFloat
  | _ => none

def items? : Json → Option (List Json)
  | array items => some items
  | _ => none

/-- The items of an array, each read by `f`. -/
def list? {α : Type u} (f : Json → Option α) (v : Json) : Option (List α) :=
  v.items?.bind (·.mapM f)

/-- An integer token below `2 ^ 32`. -/
def exponent? : Json → Option UInt32
  | number (.int n) => if 0 ≤ n ∧ n < Nat.pow 2 32 then some (.ofNat n.toNat) else none
  | _ => none

end Json
end Helmholtz
