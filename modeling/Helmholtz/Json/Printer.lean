import Helmholtz.Json.Basic
import Helmholtz.Decimal.Layout

/-! The compact text of a JSON value. -/

namespace Helmholtz

/-- A double in a JSON text keeps its point; from `1e16` upwards and below `1e-5` it has a signed
exponent. What is not finite is written as `null`. -/
def Layout.json : Layout where
  positional := some (-5, 15)
  pointedIntegers := true
  signedExponent := true
  tie := .even
  nan := "null"
  infinity := "null"
  negativeInfinity := "null"

def Number.toText : Number → String
  | .int n => toString n
  | .float x => Layout.json.write x

namespace Json

/-- Escapes the quote, the backslash and the control characters, and nothing else. -/
def escape (c : Char) : List Char :=
  match c with
  | '"' => ['\\', '"']
  | '\\' => ['\\', '\\']
  | '\x08' => ['\\', 'b']
  | '\t' => ['\\', 't']
  | '\n' => ['\\', 'n']
  | '\x0c' => ['\\', 'f']
  | '\r' => ['\\', 'r']
  | c =>
    if c.toNat < 0x20 then
      ['\\', 'u', '0', '0', Nat.digitChar (c.toNat / 16), Nat.digitChar (c.toNat % 16)]
    else [c]

/-- A string in quotes. -/
def quote (s : String) : String :=
  String.ofList ('"' :: s.toList.flatMap escape ++ ['"'])

mutual

/-- The text of a value without blanks; `number` writes the numbers. -/
def render (number : Number → String) : Json → String
  | null => "null"
  | bool b => if b then "true" else "false"
  | .number n => number n
  | string s => quote s
  | array items => "[" ++ renderItems number "" items ++ "]"
  | object members => "\x7b" ++ renderMembers number "" members ++ "\x7d"
  | unreadable => "null"

/-- The items of an array, the first one after `lead` and each further one after a comma. -/
def renderItems (number : Number → String) (lead : String) : List Json → String
  | [] => ""
  | v :: rest => lead ++ v.render number ++ renderItems number "," rest

/-- The members of an object, the first one after `lead` and each further one after a comma. -/
def renderMembers (number : Number → String) (lead : String) : List (String × Json) → String
  | [] => ""
  | (k, v) :: rest =>
    lead ++ quote k ++ ":" ++ v.render number ++ renderMembers number "," rest

end

/-- The compact text of a value. -/
def toText (v : Json) : String := v.render Number.toText

end Json
end Helmholtz
