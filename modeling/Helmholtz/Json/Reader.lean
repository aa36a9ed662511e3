import Helmholtz.Json.Token

/-! Reading a JSON text: the value is built while the lexical elements pass, with a stack of the
arrays and objects that are still open. -/

namespace Helmholtz.Json

/-- An array or object that is still open, with its parts so far, the last one first. The members
of an object are absent once it has an unreadable key. -/
inductive Frame where
  | array (items : List Json)
  | object (members : Option (List (String × Json)))
  /-- An object that waits for the value of a key. -/
  | member (members : Option (List (String × Json))) (key : Option String)

/-- What may follow. -/
inductive Expects where
  /-- A value; an array that was just opened may also close. -/
  | value (orClose : Bool)
  /-- A key; an object that was just opened may also close. -/
  | key (orClose : Bool)
  | colon
  /-- A comma or the end of what is open. -/
  | separator

/-- The state between two lexical elements: the open brackets from the innermost outwards, what may
follow, and the value once it is complete. -/
structure Reading where
  frames : List Frame
  expects : Expects
  complete : Option Json

/-- More brackets than these cannot be nested in a value that is read. -/
def maxDepth : Nat := 127

namespace Reading

/-- Before the first lexical element. -/
def start : Reading := ⟨[], .value false, none⟩

/-- Puts a value where it belongs. -/
def accept (v : Json) : List Frame → Reading
  | [] => ⟨[], .separator, some v⟩
  | .array items :: outer => ⟨.array (v :: items) :: outer, .separator, none⟩
  | .member members key :: outer =>
    ⟨.object (members.bind fun ms => key.map fun k => (k, v) :: ms) :: outer, .separator, none⟩
  | .object members :: outer => ⟨.object members :: outer, .separator, none⟩

/-- Closes the innermost bracket; what it held is unreadable below `maxDepth`. -/
def close (v : Json) (outer : List Frame) : Reading :=
  accept (if outer.length < maxDepth then v else .unreadable) outer

/-- Takes one lexical element; absent if it cannot stand here. -/
def step (r : Reading) (t : Token) : Option Reading :=
  match r.expects, t, r.frames with
  | .value _, .scalar v, frames => some (accept v frames)
  | .value _, .string s, frames => some (accept (s.elim .unreadable .string) frames)
  | .value _, .openArray, frames => some ⟨.array [] :: frames, .value true, none⟩
  | .value _, .openObject, frames => some ⟨.object (some []) :: frames, .key true, none⟩
  | .value true, .closeArray, .array items :: outer => some (close (.array items.reverse) outer)
  | .key _, .string s, .object members :: outer => some ⟨.member members s :: outer, .colon, none⟩
  | .key true, .closeObject, .object members :: outer => some (close (ofMembers members) outer)
  | .colon, .colon, frames => some ⟨frames, .value false, none⟩
  | .separator, .comma, .array items :: outer => some ⟨.array items :: outer, .value false, none⟩
  | .separator, .comma, .object members :: outer => some ⟨.object members :: outer, .key false, none⟩
  | .separator, .closeArray, .array items :: outer => some (close (.array items.reverse) outer)
  | .separator, .closeObject, .object members :: outer => some (close (ofMembers members) outer)
  | _, _, _ => none
where
  /-- The object with the given members, the last one first. -/
  ofMembers (members : Option (List (String × Json))) : Json :=
    members.elim .unreadable fun ms => .object ms.reverse

/-- What a lexical element does where it can stand. -/
inductive Step : Reading → Token → Reading → Prop where
  | scalar {frames : List Frame} {orClose : Bool} {complete : Option Json} {v : Json} :
    Step ⟨frames, .value orClose, complete⟩ (.scalar v) (accept v frames)
  | string {frames : List Frame} {orClose : Bool} {complete : Option Json} {s : Option String} :
    Step ⟨frames, .value orClose, complete⟩ (.string s)
      (accept (s.elim .unreadable .string) frames)
  | openArray {frames : List Frame} {orClose : Bool} {complete : Option Json} :
    Step ⟨frames, .value orClose, complete⟩ .openArray ⟨.array [] :: frames, .value true, none⟩
  | openObject {frames : List Frame} {orClose : Bool} {complete : Option Json} :
    Step ⟨frames, .value orClose, complete⟩ .openObject
      ⟨.object (some []) :: frames, .key true, none⟩
  | closeEmptyArray {items : List Json} {outer : List Frame} {complete : Option Json} :
    Step ⟨.array items :: outer, .value true, complete⟩ .closeArray
      (close (.array items.reverse) outer)
  | key {members : Option (List (String × Json))} {outer : List Frame} {orClose : Bool}
    {complete : Option Json} {s : Option String} :
    Step ⟨.object members :: outer, .key orClose, complete⟩ (.string s)
      ⟨.member members s :: outer, .colon, none⟩
  | closeEmptyObject {members : Option (List (String × Json))} {outer : List Frame}
    {complete : Option Json} :
    Step ⟨.object members :: outer, .key true, complete⟩ .closeObject
      (close (step.ofMembers members) outer)
  | colon {frames : List Frame} {complete : Option Json} :
    Step ⟨frames, .colon, complete⟩ .colon ⟨frames, .value false, none⟩
  | nextItem {items : List Json} {outer : List Frame} {complete : Option Json} :
    Step ⟨.array items :: outer, .separator, complete⟩ .comma
      ⟨.array items :: outer, .value false, none⟩
  | nextMember {members : Option (List (String × Json))} {outer : List Frame}
    {complete : Option Json} :
    Step ⟨.object members :: outer, .separator, complete⟩ .comma
      ⟨.object members :: outer, .key false, none⟩
  | closeArray {items : List Json} {outer : List Frame} {complete : Option Json} :
    Step ⟨.array items :: outer, .separator, complete⟩ .closeArray
      (close (.array items.reverse) outer)
  | closeObject {members : Option (List (String × Json))} {outer : List Frame}
    {complete : Option Json} :
    Step ⟨.object members :: outer, .separator, complete⟩ .closeObject
      (close (step.ofMembers members) outer)

theorem step_eq_some_iff {r r' : Reading} {t : Token} : r.step t = some r' ↔ Step r t r' := by
  constructor
  · intro h
    obtain ⟨frames, expects, complete⟩ := r
    unfold step at h
    dsimp only at h
    split at h <;> cases h <;> constructor
  · intro h
    cases h <;> rfl

/-- Takes all lexical elements of a text. -/
def run (r : Reading) (s : List Char) : Option Reading :=
  match s with
  | [] => some r
  | c :: rest =>
    if isBlank c then r.run rest
    else
      match h : Token.next? (c :: rest) with
      | none => none
      | some (t, rest) =>
        have := Token.length_next? h
        match r.step t with
        | none => none
        | some r => r.run rest
termination_by s.length
decreasing_by
  · exact Nat.lt_succ_self _
  · exact this

end Reading

/-- The value that a text writes, if it obeys the grammar. -/
def ofText? (text : String) : Option Json :=
  (Reading.start.run text.toList).bind (·.complete)

/-- The value that a text writes, if it obeys the grammar and all of it can be read. -/
def ofReadableText? (text : String) : Option Json :=
  (ofText? text).filter isReadable

end Helmholtz.Json
