import Helmholtz.Proofs.FiniteDoubles
import Helmholtz.Proofs.HigherSlots
import Helmholtz.Proofs.RecordGrammar
import Helmholtz.Proofs.WellFormedRecord

/-! The constants of expressions that are read from JSON are finite.

A text cannot write a number that is not finite: one beyond the doubles makes what holds it
unreadable. While a text is read, all numbers that have been put away are finite. -/

namespace Helmholtz
universe u

namespace Json

mutual

/-- All numbers are finite. -/
def NumbersFinite : Json → Prop
  | number n => n.toFloat.isFinite = true
  | array items => ItemsFinite items
  | object members => MembersFinite members
  | _ => True

def ItemsFinite : List Json → Prop
  | [] => True
  | v :: rest => v.NumbersFinite ∧ ItemsFinite rest

def MembersFinite : List (String × Json) → Prop
  | [] => True
  | (_, v) :: rest => v.NumbersFinite ∧ MembersFinite rest

end

theorem itemsFinite_iff {items : List Json} : ItemsFinite items ↔ ∀ v ∈ items, v.NumbersFinite := by
  induction items with
  | nil => exact ⟨fun _ v hv => absurd hv List.not_mem_nil, fun _ => trivial⟩
  | cons v rest ih => rw [ItemsFinite, ih, List.forall_mem_cons]

theorem membersFinite_iff {members : List (String × Json)} :
    MembersFinite members ↔ ∀ m ∈ members, m.2.NumbersFinite := by
  induction members with
  | nil => exact ⟨fun _ v hv => absurd hv List.not_mem_nil, fun _ => trivial⟩
  | cons m rest ih => rw [MembersFinite, ih, List.forall_mem_cons]

theorem itemsFinite_reverse {items : List Json} (h : ItemsFinite items) :
    ItemsFinite items.reverse := by
  rw [itemsFinite_iff] at h ⊢
  exact fun v hv => h v (List.mem_reverse.mp hv)

theorem membersFinite_reverse {members : List (String × Json)} (h : MembersFinite members) :
    MembersFinite members.reverse := by
  rw [membersFinite_iff] at h ⊢
  exact fun m hm => h m (List.mem_reverse.mp hm)

section Tokens

/-- An integer token fits 64 bits, and any other one stands for the nearest double. -/
theorem numbersFinite_numberOf (negative : Bool) (whole fraction : List Char)
    (exponent : Option ℤ) : (numberOf negative whole fraction exponent).NumbersFinite := by
  have hpow : Nat.pow 2 63 ≤ 2 ^ 64 := by decide
  unfold numberOf
  cases negative with
  | true =>
    simp only [if_true]
    split
    · next h =>
      have hfits : ofDigits whole ≠ 0 ∧ ofDigits whole ≤ Nat.pow 2 63 :=
        of_decide_eq_true (Bool.and_eq_true_iff.mp h).2
      refine Double.isFinite_ofInt ?_
      rw [Int.natAbs_neg, Int.natAbs_natCast]
      exact hfits.2.trans hpow
    · split
      · next x hx => exact Double.isFinite_nearestFloat? hx
      · trivial
  | false =>
    simp only [Bool.false_eq_true, if_false]
    split
    · next h =>
      have hfits : ofDigits whole < Nat.pow 2 64 := of_decide_eq_true (Bool.and_eq_true_iff.mp h).2
      refine Double.isFinite_ofInt ?_
      rw [Int.natAbs_natCast]
      exact hfits.le
    · split
      · next x hx => exact Double.isFinite_nearestFloat? hx
      · trivial

theorem numbersFinite_scanNumber {negative : Bool} {s rest : List Char} {v : Json}
    (h : scanNumber negative s = some (v, rest)) : v.NumbersFinite := by
  unfold scanNumber at h
  dsimp only at h
  split at h
  · cases h
  · obtain ⟨_, _, h⟩ := Option.bind_eq_some_iff.mp h
    obtain ⟨_, _, h⟩ := Option.bind_eq_some_iff.mp h
    cases h
    exact numbersFinite_numberOf _ _ _ _

/-- The value that a lexical element carries, if any, has finite numbers. -/
def Token.NumbersFinite : Token → Prop
  | scalar v => v.NumbersFinite
  | _ => True

theorem Token.numbersFinite_next? {s rest : List Char} {t : Token}
    (h : next? s = some (t, rest)) : t.NumbersFinite := by
  cases starts_of_next? h with
  | negative hv => exact numbersFinite_scanNumber hv
  | number hv => exact numbersFinite_scanNumber hv
  | _ => trivial

end Tokens

section Reader

def OptionalMembersFinite (members : Option (List (String × Json))) : Prop :=
  ∀ ms, members = some ms → MembersFinite ms

def Frame.NumbersFinite : Frame → Prop
  | array items => ItemsFinite items
  | object members => OptionalMembersFinite members
  | member members _ => OptionalMembersFinite members

namespace Reading

/-- The invariant of reading. -/
structure NumbersFinite (r : Reading) : Prop where
  frames : ∀ f ∈ r.frames, f.NumbersFinite
  complete : ∀ v, r.complete = some v → v.NumbersFinite

theorem numbersFinite_accept {v : Json} {frames : List Frame} (hv : v.NumbersFinite)
    (hframes : ∀ f ∈ frames, f.NumbersFinite) : (accept v frames).NumbersFinite := by
  cases frames with
  | nil =>
    constructor
    · exact fun f hf => absurd hf List.not_mem_nil
    · intro w hw
      cases hw
      exact hv
  | cons f outer =>
    rw [List.forall_mem_cons] at hframes
    obtain ⟨hf, houter⟩ := hframes
    cases f with
    | array items => exact ⟨List.forall_mem_cons.mpr ⟨⟨hv, hf⟩, houter⟩, nofun⟩
    | object members => exact ⟨List.forall_mem_cons.mpr ⟨hf, houter⟩, nofun⟩
    | member members key =>
      have hmembers : OptionalMembersFinite
          (members.bind fun ms => key.map fun k => (k, v) :: ms) := by
        intro ms hms
        obtain ⟨ms', hms', h⟩ := Option.bind_eq_some_iff.mp hms
        obtain ⟨k, -, rfl⟩ := Option.map_eq_some_iff.mp h
        exact ⟨hv, hf ms' hms'⟩
      exact ⟨List.forall_mem_cons.mpr ⟨hmembers, houter⟩, nofun⟩

theorem numbersFinite_close {v : Json} {outer : List Frame} (hv : v.NumbersFinite)
    (houter : ∀ f ∈ outer, f.NumbersFinite) : (close v outer).NumbersFinite := by
  refine numbersFinite_accept ?_ houter
  split
  · exact hv
  · trivial

theorem numbersFinite_ofMembers {members : Option (List (String × Json))}
    (h : OptionalMembersFinite members) : (step.ofMembers members).NumbersFinite := by
  cases members with
  | none => trivial
  | some ms => exact membersFinite_reverse (h ms rfl)

/-- One lexical element: a value is put away, or a bracket is opened or closed. -/
theorem numbersFinite_step {r r' : Reading} {t : Token} (hr : r.NumbersFinite)
    (ht : t.NumbersFinite) (h : Step r t r') : r'.NumbersFinite := by
  have hframes := hr.frames
  have hopen : ∀ (f : Frame) (outer : List Frame) e, f.NumbersFinite →
      (∀ g ∈ outer, g.NumbersFinite) → (⟨f :: outer, e, none⟩ : Reading).NumbersFinite := by
    intro f outer e hf houter
    exact ⟨List.forall_mem_cons.mpr ⟨hf, houter⟩, nofun⟩
  cases h with
  | scalar => exact numbersFinite_accept ht hframes
  | @string _ _ _ s =>
    have hs : (s.elim unreadable Json.string).NumbersFinite := by
      cases s <;> trivial
    exact numbersFinite_accept hs hframes
  | openArray => exact hopen _ _ _ trivial hframes
  | openObject =>
    have hempty : OptionalMembersFinite (some []) := by
      rintro _ ⟨⟩
      trivial
    exact hopen _ _ _ hempty hframes
  | colon => exact ⟨hframes, nofun⟩
  | key | nextMember =>
    obtain ⟨hmembers, houter⟩ := List.forall_mem_cons.mp hframes
    exact hopen _ _ _ hmembers houter
  | nextItem =>
    obtain ⟨hitems, houter⟩ := List.forall_mem_cons.mp hframes
    exact hopen _ _ _ hitems houter
  | closeEmptyArray | closeArray =>
    obtain ⟨hitems, houter⟩ := List.forall_mem_cons.mp hframes
    exact numbersFinite_close (itemsFinite_reverse hitems) houter
  | closeEmptyObject | closeObject =>
    obtain ⟨hmembers, houter⟩ := List.forall_mem_cons.mp hframes
    exact numbersFinite_close (numbersFinite_ofMembers hmembers) houter

/-- All lexical elements of a text. -/
theorem numbersFinite_run {r r' : Reading} {s : List Char} (hr : r.NumbersFinite)
    (h : r.run s = some r') : r'.NumbersFinite := by
  fun_induction run r s with
  | case1 r =>
    cases h
    exact hr
  | case2 r c rest hblank ih => exact ih hr h
  | case3 => cases h
  | case4 => cases h
  | case5 r c rest hblank t rest' hnext hlt r'' hstep ih =>
    have ht : t.NumbersFinite := Token.numbersFinite_next? hnext
    exact ih (numbersFinite_step hr ht (step_eq_some_iff.mp hstep)) h

end Reading

/-- A reader of texts that returns finite numbers only: a text can write no others, and a number
beyond the doubles is an error. How numbers are rounded is left open. -/
def ReadsFinite (read : String → Option Json) : Prop :=
  ∀ text v, read text = some v → v.NumbersFinite

theorem readsFinite_ofText? : ReadsFinite ofText? := by
  intro text v h
  obtain ⟨r, hr, hv⟩ := Option.bind_eq_some_iff.mp h
  have hstart : Reading.start.NumbersFinite := by
    constructor
    · intro f hf
      exact absurd hf List.not_mem_nil
    · intro v hv
      cases hv
  exact (Reading.numbersFinite_run hstart hr).complete v hv

end Reader
end Json

section Records

mutual

/-- All constants are finite. -/
def ExprRecord.ConstantsFinite : ExprRecord → Prop
  | .node _ _ arg argx argy =>
    ExprRecord.ArgumentConstantsFinite arg ∧ ExprRecord.ArgumentConstantsFinite argx ∧
      ExprRecord.ArgumentConstantsFinite argy
  | .group terms => ExprRecord.TermsConstantsFinite terms

def ExprRecord.ArgumentConstantsFinite : Option ExprRecord → Prop
  | none => True
  | some r => r.ConstantsFinite

def ExprRecord.TermsConstantsFinite : List (List FactorRecord) → Prop
  | [] => True
  | t :: rest => ExprRecord.FactorsConstantsFinite t ∧ ExprRecord.TermsConstantsFinite rest

def ExprRecord.FactorsConstantsFinite : List FactorRecord → Prop
  | [] => True
  | .constant c :: rest => c.isFinite = true ∧ ExprRecord.FactorsConstantsFinite rest
  | .expr r :: rest => r.ConstantsFinite ∧ ExprRecord.FactorsConstantsFinite rest

end

namespace ExprRecord

theorem numbersFinite_member {members : List (String × Json)} (h : Json.MembersFinite members)
    (key : String) : (member members key).NumbersFinite := by
  unfold member
  cases hv : members.lookup key with
  | none => trivial
  | some v =>
    obtain ⟨before, after, hmembers, -⟩ := List.lookup_eq_some_iff.mp hv
    have hmem : (key, v) ∈ members := by simp [hmembers]
    exact Json.membersFinite_iff.mp h (key, v) hmem

mutual

/-- The constants of an expression are numbers of the value that writes it. -/
theorem Reads.constantsFinite {v : Json} {r : ExprRecord} :
    Reads v r → v.NumbersFinite → r.ConstantsFinite
  | .group h, hv => h.constantsFinite hv
  | .node h, hv => h.constantsFinite hv

theorem NodeReads.constantsFinite {v : Json} {r : ExprRecord} :
    NodeReads v r → v.NumbersFinite → r.ConstantsFinite
  | .items harg hargx hargy, ⟨_, _, hv, hvx, hvy, _⟩ =>
    ⟨harg.constantsFinite hv, hargx.constantsFinite hvx, hargy.constantsFinite hvy⟩
  | .members _ _ _ harg hargx hargy, hmembers =>
    ⟨harg.constantsFinite (numbersFinite_member hmembers "arg"),
      hargx.constantsFinite (numbersFinite_member hmembers "argx"),
      hargy.constantsFinite (numbersFinite_member hmembers "argy")⟩

theorem ArgumentReads.constantsFinite {v : Json} {g : Option ExprRecord} :
    ArgumentReads v g → v.NumbersFinite → ArgumentConstantsFinite g
  | .null, _ => trivial
  | .some h, hv => h.constantsFinite hv

theorem TermsRead.constantsFinite {items : List Json} {terms : List (List FactorRecord)} :
    TermsRead items terms → Json.ItemsFinite items → TermsConstantsFinite terms
  | .nil, _ => trivial
  | .cons hitems hrest, ⟨hv, hvs⟩ => ⟨hitems.constantsFinite hv, hrest.constantsFinite hvs⟩

theorem FactorsRead.constantsFinite {items : List Json} {factors : List FactorRecord} :
    FactorsRead items factors → Json.ItemsFinite items → FactorsConstantsFinite factors
  | .nil, _ => trivial
  | .cons .constant hrest, ⟨hv, hvs⟩ => ⟨hv, hrest.constantsFinite hvs⟩
  | .cons (.expr h) hrest, ⟨hv, hvs⟩ => ⟨h.constantsFinite hv, hrest.constantsFinite hvs⟩

end

end ExprRecord
end Records

instance : SignedZeros Float where
  IsZero x := (x == 0) = true
  IsFinite x := x.isFinite = true
  isZero_zero := by decide
  isZero_add := Double.add_eq_zero
  isZero_mul := Double.mul_eq_zero

section Conversion

namespace Expr1

mutual

theorem constantsFinite_of_described {r : ExprRecord} {e : Expr1 Float} (h : Described r e)
    (hr : r.ConstantsFinite) : e.ConstantsFinite := by
  cases r with
  | node tag param arg argx argy =>
    cases h with
    | node hf hg => exact argumentConstantsFinite_of_described hg hr.1
  | group terms =>
    cases h with
    | group hts => exact termsConstantsFinite_of_described hts hr

theorem argumentConstantsFinite_of_described {arg : Option ExprRecord}
    {g : Option (Expr1 Float)} (h : ArgumentDescribed arg g)
    (harg : ExprRecord.ArgumentConstantsFinite arg) : ArgumentConstantsFinite g := by
  cases arg with
  | none =>
    cases h
    trivial
  | some r =>
    cases h with
    | some he => exact constantsFinite_of_described he harg

theorem termsConstantsFinite_of_described {terms : List (List FactorRecord)}
    {ts : List (List (Factor1 Float))} (h : TermsDescribed terms ts)
    (hterms : ExprRecord.TermsConstantsFinite terms) : TermsConstantsFinite ts := by
  cases terms with
  | nil =>
    cases h
    trivial
  | cons term rest =>
    cases h with
    | cons ht hts =>
      exact ⟨factorsConstantsFinite_of_described ht hterms.1,
        termsConstantsFinite_of_described hts hterms.2⟩

theorem factorsConstantsFinite_of_described {factors : List FactorRecord}
    {fs : List (Factor1 Float)} (h : FactorsDescribed factors fs)
    (hfactors : ExprRecord.FactorsConstantsFinite factors) : FactorsConstantsFinite fs := by
  cases factors with
  | nil =>
    cases h
    trivial
  | cons factor rest =>
    cases factor with
    | constant c =>
      cases h with
      | constant hfs => exact ⟨hfactors.1, factorsConstantsFinite_of_described hfs hfactors.2⟩
    | expr r =>
      cases h with
      | expr he hfs =>
        exact ⟨constantsFinite_of_described he hfactors.1,
          factorsConstantsFinite_of_described hfs hfactors.2⟩

end
end Expr1

namespace Expr2

mutual

theorem constantsFinite_of_described {r : ExprRecord} {e : Expr2 Float} (h : Described r e)
    (hr : r.ConstantsFinite) : e.ConstantsFinite := by
  cases r with
  | node tag param arg argx argy =>
    cases h with
    | node hf hx hy =>
      exact ⟨Expr1.argumentConstantsFinite_of_described hx hr.2.1,
        Expr1.argumentConstantsFinite_of_described hy hr.2.2⟩
  | group terms =>
    cases h with
    | group hts => exact termsConstantsFinite_of_described hts hr

theorem termsConstantsFinite_of_described {terms : List (List FactorRecord)}
    {ts : List (List (Factor2 Float))} (h : TermsDescribed terms ts)
    (hterms : ExprRecord.TermsConstantsFinite terms) : TermsConstantsFinite ts := by
  cases terms with
  | nil =>
    cases h
    trivial
  | cons term rest =>
    cases h with
    | cons ht hts =>
      exact ⟨factorsConstantsFinite_of_described ht hterms.1,
        termsConstantsFinite_of_described hts hterms.2⟩

theorem factorsConstantsFinite_of_described {factors : List FactorRecord}
    {fs : List (Factor2 Float)} (h : FactorsDescribed factors fs)
    (hfactors : ExprRecord.FactorsConstantsFinite factors) : FactorsConstantsFinite fs := by
  cases factors with
  | nil =>
    cases h
    trivial
  | cons factor rest =>
    cases factor with
    | constant c =>
      cases h with
      | constant hfs => exact ⟨hfactors.1, factorsConstantsFinite_of_described hfs hfactors.2⟩
    | expr r =>
      cases h with
      | expr he hfs =>
        exact ⟨constantsFinite_of_described he hfactors.1,
          factorsConstantsFinite_of_described hfs hfactors.2⟩

end
end Expr2
end Conversion

/-- The record that a text writes, as an expression, a node or a group. -/
def ExprRecord.WrittenBy (read : String → Option Json) (text : String) (r : ExprRecord) : Prop :=
  ∃ v, read text = some v ∧ (ofJson? v = some r ∨ nodeOfJson? v = some r ∨ groupOfJson? v = some r)

theorem ExprRecord.constantsFinite_of_writtenBy {read : String → Option Json}
    (hread : Json.ReadsFinite read) {text : String} {r : ExprRecord} (h : r.WrittenBy read text) :
    r.ConstantsFinite := by
  obtain ⟨v, hv, h⟩ := h
  have hnumbers : v.NumbersFinite := hread text v hv
  rcases h with h | h | h
  · exact ((ofJson?_eq_some_iff v r).mp h).constantsFinite hnumbers
  · exact ((nodeOfJson?_eq_some_iff v r).mp h).constantsFinite hnumbers
  · obtain ⟨items, terms, rfl, hterms, rfl⟩ := (groupOfJson?_eq_some_iff v r).mp h
    exact hterms.constantsFinite hnumbers

/-- Every slot above the order is a zero, of either sign, for expressions whose constants are finite
and for all parts of a fit, whatever the point and the parameters of functions are. The constants of
an expression that is read from a text are finite, with every reader that returns finite numbers. -/
theorem slots_zero_above_order {α : Type u} [Zero α] [One α] [Add α] [Sub α] [Mul α] [Neg α]
    [Div α] [NatCast α] [IntCast α] [Transcendental α] [BEq α] [SignedZeros α] (o : Order) :
    ((∀ e : Expr1 α, e.ConstantsFinite → ∀ x, (e.eval x o).ZeroAbove o) ∧
      (∀ t : List (Factor1 α), Expr1.FactorsConstantsFinite t →
        ∀ x, (Expr1.evalTerm x o t).ZeroAbove o) ∧
      (∀ e : Expr2 α, e.ConstantsFinite → ∀ x y, (e.eval x y o).ZeroAbove o) ∧
      (∀ t : List (Factor2 α), Expr2.FactorsConstantsFinite t →
        ∀ x y, (Expr2.evalTerm x y o t).ZeroAbove o)) ∧
    ((∀ (b : Block α) x y, (b.eval x y o).ZeroAbove o) ∧
      (∀ (b : WeightedBlock α) x y, (b.eval x y o).ZeroAbove o) ∧
      (∀ (r : Residual α) x y, (r.eval x y o).ZeroAbove o) ∧
      (∀ (g : IdealGas α) x y, (g.eval x y o).ZeroAbove o)) ∧
    ∀ read, Json.ReadsFinite read → ∀ text r, ExprRecord.WrittenBy read text r →
      (∀ e, Expr1.ofRecord? r = .ok e → e.ConstantsFinite) ∧
      ∀ e, Expr2.ofRecord? r = .ok e → e.ConstantsFinite := by
  refine ⟨⟨?_, ?_, ?_, ?_⟩, ⟨?_, ?_, ?_, ?_⟩, ?_⟩
  · exact fun e h x => Expr1.zeroAbove_eval o x h
  · exact fun t h x => Expr1.zeroAbove_mulFactors o x h (.constant 1)
  · exact fun e h x y => Expr2.zeroAbove_eval o x y h
  · exact fun t h x y => Expr2.zeroAbove_mulFactors o x y h (.constant 1)
  · exact fun b x y => b.zeroAbove_eval o x y
  · exact fun b x y => b.zeroAbove_eval o x y
  · exact fun r x y => r.zeroAbove_eval o x y
  · exact fun g x y => g.zeroAbove_eval o x y
  · intro read hread text r hr
    have hconstants := ExprRecord.constantsFinite_of_writtenBy hread hr
    constructor
    · intro e he
      exact Expr1.constantsFinite_of_described ((Expr1.ofRecord?_eq_ok_iff r e).mp he) hconstants
    · intro e he
      exact Expr2.constantsFinite_of_described ((Expr2.ofRecord?_eq_ok_iff r e).mp he) hconstants

def sampleText : String :=
  "[[2.5, \x7b\"type\": \"powx\", \"param\": 0.5\x7d], [-1e-3]]"

/-- First derivatives at a point with a number that is none and with a negative zero. -/
theorem sampleText_slots : ∃ r e, ExprRecord.WrittenBy Json.ofText? sampleText r ∧
    Expr2.ofRecord? r = .ok e ∧ e.ConstantsFinite ∧
    (e.eval (0 / 0) (-0) .first).ZeroAbove .first := by
  have hread : ((Json.ofText? sampleText).bind fun v => (ExprRecord.groupOfJson? v).bind fun r =>
      (Expr2.ofRecord? r).toOption).isSome = true := by
    decide +kernel
  obtain ⟨e, he⟩ := Option.isSome_iff_exists.mp hread
  obtain ⟨v, hv, he⟩ := Option.bind_eq_some_iff.mp he
  obtain ⟨r, hr, he⟩ := Option.bind_eq_some_iff.mp he
  have hwritten : r.WrittenBy Json.ofText? sampleText := ⟨v, hv, .inr (.inr hr)⟩
  have hrecord : Expr2.ofRecord? r = .ok e := by
    cases h : Expr2.ofRecord? r with
    | error fault =>
      rw [h] at he
      cases he
    | ok e' =>
      rw [h] at he
      cases he
      rfl
  obtain ⟨⟨-, -, hslots, -⟩, -, hfinite⟩ := slots_zero_above_order (α := Float) .first
  have hconstants : e.ConstantsFinite :=
    (hfinite _ Json.readsFinite_ofText? sampleText r hwritten).2 e hrecord
  exact ⟨r, e, hwritten, hrecord, hconstants, hslots e hconstants _ _⟩

end Helmholtz
