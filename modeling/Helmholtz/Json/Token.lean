import Helmholtz.Json.Basic
import Helmholtz.Decimal.Reading

/-! The lexical elements of a JSON text. -/

namespace Helmholtz.Json

/-- A lexical element. -/
inductive Token where
  | openArray
  | closeArray
  | openObject
  | closeObject
  | comma
  | colon
  /-- A string, absent if it holds half a surrogate pair. -/
  | string (s : Option String)
  /-- `null`, `true`, `false` or a number. -/
  | scalar (v : Json)

def isBlank (c : Char) : Bool := c == ' ' || c == '\t' || c == '\n' || c == '\r'

/-- The value of a hexadecimal digit. -/
def hexDigit? (c : Char) : Option Nat :=
  if '0' ≤ c ∧ c ≤ '9' then some (c.toNat - '0'.toNat)
  else if 'a' ≤ c ∧ c ≤ 'f' then some (c.toNat - 'a'.toNat + 10)
  else if 'A' ≤ c ∧ c ≤ 'F' then some (c.toNat - 'A'.toNat + 10)
  else none

/-- The number with four hexadecimal digits. -/
def hexQuad? (a b c d : Char) : Option Nat := do
  some ((((← hexDigit? a) * 16 + (← hexDigit? b)) * 16 + (← hexDigit? c)) * 16 + (← hexDigit? d))

/-- What a backslash and one letter stand for. -/
def escaped? : Char → Option Char
  | '"' => some '"'
  | '\\' => some '\\'
  | '/' => some '/'
  | 'b' => some '\x08'
  | 'f' => some '\x0c'
  | 'n' => some '\n'
  | 'r' => some '\r'
  | 't' => some '\t'
  | _ => none

/-- The rest of a string after its opening quote, as code points and halves of surrogate pairs,
with what follows the closing quote. Control characters have to be escaped. -/
def scanString : List Char → List Nat → Option (List Nat × List Char)
  | [], _ => none
  | '"' :: rest, read => some (read.reverse, rest)
  | '\\' :: 'u' :: a :: b :: c :: d :: rest, read =>
    match hexQuad? a b c d with
    | some n => scanString rest (n :: read)
    | none => none
  | '\\' :: c :: rest, read =>
    match escaped? c with
    | some c => scanString rest (c.toNat :: read)
    | none => none
  | c :: rest, read => if c.toNat < 0x20 then none else scanString rest (c.toNat :: read)

def isHighSurrogate (n : Nat) : Bool := 0xD800 ≤ n && n < 0xDC00

def isLowSurrogate (n : Nat) : Bool := 0xDC00 ≤ n && n < 0xE000

/-- Joins each surrogate pair to one character; absent if a half stands alone. -/
def joinPairs? : List Nat → Option (List Char)
  | [] => some []
  | h :: l :: rest =>
    if isHighSurrogate h then
      if isLowSurrogate l then
        (joinPairs? rest).map (Char.ofNat (0x10000 + (h - 0xD800) * 0x400 + (l - 0xDC00)) :: ·)
      else none
    else if isLowSurrogate h then none
    else (joinPairs? (l :: rest)).map (Char.ofNat h :: ·)
  | [n] => if isHighSurrogate n || isLowSurrogate n then none else some [Char.ofNat n]

/-- The natural number with the given decimal digits. -/
def ofDigits (digits : List Char) : Nat :=
  digits.foldl (fun n c => 10 * n + (c.toNat - '0'.toNat)) 0

/-- The value of a number token. A token without fraction and exponent is an integer if it fits 64
bits, signed or not; the negative zero is a double. -/
def numberOf (negative : Bool) (whole fraction : List Char) (exponent : Option Int) : Json :=
  let n := ofDigits whole
  let fits := if negative then n ≠ 0 ∧ n ≤ Nat.pow 2 63 else n < Nat.pow 2 64
  if fraction.isEmpty && exponent.isNone && fits then
    .number (.int (if negative then -(n : Int) else n))
  else
    let coefficient := ofDigits (whole ++ fraction)
    match nearestFloat? negative coefficient (exponent.getD 0 - fraction.length) with
    | some x => .number (.float x)
    | none => .unreadable

/-- The fraction of a number: nothing, or a point and at least one digit. -/
def scanFraction : List Char → Option (List Char × List Char)
  | '.' :: rest =>
    let digits := rest.takeWhile Char.isDigit
    if digits.isEmpty then none else some (digits, rest.dropWhile Char.isDigit)
  | rest => some ([], rest)

/-- The digits of an exponent, at least one. -/
def scanExponentDigits (negative : Bool) (rest : List Char) : Option (Option Int × List Char) :=
  let digits := rest.takeWhile Char.isDigit
  if digits.isEmpty then none
  else
    let n : Int := ofDigits digits
    some (some (if negative then -n else n), rest.dropWhile Char.isDigit)

/-- The exponent of a number: nothing, or the letter, a sign or none, and at least one digit. -/
def scanExponent : List Char → Option (Option Int × List Char)
  | c :: rest =>
    if c == 'e' || c == 'E' then
      match rest with
      | '-' :: rest => scanExponentDigits true rest
      | '+' :: rest => scanExponentDigits false rest
      | _ => scanExponentDigits false rest
    else some (none, c :: rest)
  | [] => some (none, [])

/-- A number without its sign. A leading zero stands alone before the fraction. -/
def scanNumber (negative : Bool) (s : List Char) : Option (Json × List Char) :=
  let digits := s.takeWhile Char.isDigit
  if digits = [] ∨ digits.head? = some '0' ∧ digits.length ≠ 1 then none
  else do
    let (fraction, rest) ← scanFraction (s.dropWhile Char.isDigit)
    let (exponent, rest) ← scanExponent rest
    some (numberOf negative digits fraction exponent, rest)

/-- The first lexical element of a text that does not start with a blank, with what follows it. -/
def Token.next? : List Char → Option (Token × List Char)
  | '[' :: rest => some (openArray, rest)
  | ']' :: rest => some (closeArray, rest)
  | '{' :: rest => some (openObject, rest)
  | '}' :: rest => some (closeObject, rest)
  | ',' :: rest => some (comma, rest)
  | ':' :: rest => some (colon, rest)
  | '"' :: rest => (scanString rest []).map fun (read, rest) =>
    (string ((joinPairs? read).map String.ofList), rest)
  | 'n' :: 'u' :: 'l' :: 'l' :: rest => some (scalar .null, rest)
  | 't' :: 'r' :: 'u' :: 'e' :: rest => some (scalar (.bool true), rest)
  | 'f' :: 'a' :: 'l' :: 's' :: 'e' :: rest => some (scalar (.bool false), rest)
  | '-' :: rest => (scanNumber true rest).map fun (v, rest) => (scalar v, rest)
  | s => (scanNumber false s).map fun (v, rest) => (scalar v, rest)

/-- The lexical element that a text starts with, and what follows it. -/
inductive Token.Starts : List Char → Token → List Char → Prop where
  | openArray {rest : List Char} : Starts ('[' :: rest) .openArray rest
  | closeArray {rest : List Char} : Starts (']' :: rest) .closeArray rest
  | openObject {rest : List Char} : Starts ('{' :: rest) .openObject rest
  | closeObject {rest : List Char} : Starts ('}' :: rest) .closeObject rest
  | comma {rest : List Char} : Starts (',' :: rest) .comma rest
  | colon {rest : List Char} : Starts (':' :: rest) .colon rest
  | string {s rest : List Char} {units : List Nat} (h : scanString s [] = some (units, rest)) :
    Starts ('"' :: s) (.string ((joinPairs? units).map String.ofList)) rest
  | null {rest : List Char} : Starts ('n' :: 'u' :: 'l' :: 'l' :: rest) (.scalar .null) rest
  | true {rest : List Char} : Starts ('t' :: 'r' :: 'u' :: 'e' :: rest) (.scalar (.bool true)) rest
  | false {rest : List Char} :
    Starts ('f' :: 'a' :: 'l' :: 's' :: 'e' :: rest) (.scalar (.bool false)) rest
  | negative {s rest : List Char} {v : Json} (h : scanNumber true s = some (v, rest)) :
    Starts ('-' :: s) (.scalar v) rest
  | number {s rest : List Char} {v : Json} (h : scanNumber false s = some (v, rest)) :
    Starts s (.scalar v) rest

theorem Token.starts_of_next? {s rest : List Char} {t : Token}
    (h : next? s = some (t, rest)) : Starts s t rest := by
  have hscalar : ∀ {scanned : Option (Json × List Char)},
      (scanned.map fun (v, rest) => (scalar v, rest)) = some (t, rest) →
        ∃ v, t = .scalar v ∧ scanned = some (v, rest) := by
    intro scanned h
    obtain ⟨⟨v, rest⟩, hv, h⟩ := Option.map_eq_some_iff.mp h
    cases h
    exact ⟨v, rfl, hv⟩
  unfold next? at h
  split at h
  · cases h
    exact .openArray
  · cases h
    exact .closeArray
  · cases h
    exact .openObject
  · cases h
    exact .closeObject
  · cases h
    exact .comma
  · cases h
    exact .colon
  · obtain ⟨⟨units, rest⟩, hunits, h⟩ := Option.map_eq_some_iff.mp h
    cases h
    exact .string hunits
  · cases h
    exact .null
  · cases h
    exact .true
  · cases h
    exact .false
  · obtain ⟨v, rfl, hv⟩ := hscalar h
    exact .negative hv
  · obtain ⟨v, rfl, hv⟩ := hscalar h
    exact .number hv

/-! Every lexical element takes at least one character of the text. -/

theorem length_scanString {s : List Char} {read units : List Nat} {rest : List Char}
    (h : scanString s read = some (units, rest)) : rest.length < s.length := by
  fun_induction scanString s read with
  | case1 => simp at h
  | case2 => simp_all
  | case3 _ _ _ _ _ _ _ _ ih => have := ih h; simp only [List.length_cons]; omega
  | case4 => simp at h
  | case5 _ _ _ _ _ _ ih => have := ih h; simp only [List.length_cons]; omega
  | case6 => simp at h
  | case7 => simp at h
  | case8 _ _ _ _ _ _ _ ih => have := ih h; simp only [List.length_cons]; omega

theorem length_dropWhile_le (p : Char → Bool) (s : List Char) :
    (s.dropWhile p).length ≤ s.length :=
  (List.dropWhile_sublist p).length_le

theorem length_scanFraction {s digits rest : List Char}
    (h : scanFraction s = some (digits, rest)) : rest.length ≤ s.length := by
  unfold scanFraction at h
  grind [length_dropWhile_le]

theorem length_scanExponentDigits {negative : Bool} {s rest : List Char} {e : Option Int}
    (h : scanExponentDigits negative s = some (e, rest)) : rest.length ≤ s.length := by
  unfold scanExponentDigits at h
  grind [length_dropWhile_le]

theorem length_scanExponent {s rest : List Char} {e : Option Int}
    (h : scanExponent s = some (e, rest)) : rest.length ≤ s.length := by
  unfold scanExponent at h
  split at h
  · split at h
    · split at h <;> have := length_scanExponentDigits h <;> simp_all <;> omega
    · simp_all
  · simp_all

theorem length_scanNumber {negative : Bool} {s rest : List Char} {v : Json}
    (h : scanNumber negative s = some (v, rest)) : rest.length < s.length := by
  unfold scanNumber at h
  simp only at h
  split at h
  · simp at h
  · next hd =>
    obtain ⟨⟨_, r1⟩, h1, h⟩ := Option.bind_eq_some_iff.1 h
    obtain ⟨⟨_, r2⟩, h2, h⟩ := Option.bind_eq_some_iff.1 h
    have h1 := length_scanFraction h1
    have h2 := length_scanExponent h2
    have hs := congrArg List.length (List.takeWhile_append_dropWhile (p := Char.isDigit) (l := s))
    have hd : 0 < (s.takeWhile Char.isDigit).length :=
      List.length_pos_iff.2 fun h => hd (.inl h)
    simp only [Option.some.injEq, Prod.mk.injEq] at h
    simp only [List.length_append] at hs h2
    rw [← h.2]
    omega

theorem Token.length_next? {s rest : List Char} {t : Token}
    (h : next? s = some (t, rest)) : rest.length < s.length := by
  cases starts_of_next? h with
  | string hunits =>
    have hlen := length_scanString hunits
    rw [List.length_cons]
    omega
  | negative hv =>
    have hlen := length_scanNumber hv
    rw [List.length_cons]
    omega
  | number hv => exact length_scanNumber hv
  | _ =>
    simp only [List.length_cons]
    omega

end Helmholtz.Json
