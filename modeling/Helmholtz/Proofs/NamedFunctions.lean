import Helmholtz.Expr.Build
import Helmholtz.Proofs.BlockRows

/-! The functions that go by the tags of nodes.

Tags, parameters and functions are listed in a relation that does not look at the conversion: a
number, a list of numbers of a fixed length, or a list of terms in strictly descending order of the
exponents. The conversion finds exactly these functions. -/

namespace Helmholtz
universe u v

section Parameters

/-- The pair of an exponent and a coefficient. -/
def Monomial1.row (t : UInt32 × Number) : Json :=
  .array [.number (.int t.1.toNat), .number t.2]

/-- The triple of two exponents and a coefficient. -/
def Monomial2.row (t : Exponents × Number) : Json :=
  .array [.number (.int t.1.x.toNat), .number (.int t.1.y.toNat), .number t.2]

/-- The polynomial with the given exponents and coefficients. -/
def Polynomial1.ofRows (rows : List (UInt32 × Number)) (h : Descending (rows.map Prod.fst)) :
    Polynomial1 Float :=
  ⟨rows.map fun t => ⟨t.1, t.2.toFloat⟩, by rwa [List.map_map]⟩

/-- The polynomial with the given exponents and coefficients. -/
def Polynomial2.ofRows (rows : List (Exponents × Number)) (h : Descending (rows.map Prod.fst)) :
    Polynomial2 Float :=
  ⟨rows.map fun t => ⟨t.1, t.2.toFloat⟩, by rwa [List.map_map]⟩

end Parameters

/-- The tags of nodes in one variable, with the parameters that they take. -/
inductive Elementary1.Named : String → Option Json → Elementary1 Float → Prop where
  | identity (param : Option Json) : Named "x" param .identity
  | inverse (param : Option Json) : Named "inv" param .inverse
  | log (param : Option Json) : Named "log" param .log
  | linear (a b : Number) :
    Named "lin" (some (.array [.number a, .number b])) (.linear a.toFloat b.toFloat)
  | power (p : Number) : Named "pow" (some (.number p)) (.power p.toFloat)
  | exponential (p : Number) : Named "exp" (some (.number p)) (.exponential p.toFloat)
  | polynomial (rows : List (UInt32 × Number)) (h : Descending (rows.map Prod.fst)) :
    Named "poly" (some (.array (rows.map Monomial1.row))) (.polynomial (.ofRows rows h))

/-- The tags of nodes in two variables, with the parameters that they take. -/
inductive Elementary2.Named : String → Option Json → Elementary2 Float → Prop where
  | x (param : Option Json) : Named "x" param (.ofX .identity)
  | y (param : Option Json) : Named "y" param (.ofY .identity)
  | linear (a b c : Number) : Named "lin" (some (.array [.number a, .number b, .number c]))
      (.linear a.toFloat b.toFloat c.toFloat)
  | polynomial (rows : List (Exponents × Number)) (h : Descending (rows.map Prod.fst)) :
    Named "poly" (some (.array (rows.map Monomial2.row))) (.polynomial (.ofRows rows h))
  | termwise (rows : List (Exponents × Number)) (h : Descending (rows.map Prod.fst)) :
    Named "spoly" (some (.array (rows.map Monomial2.row))) (.termwise (.ofRows rows h))
  | ofX {name : String} {param : Option Json} {f : Elementary1 Float} (h : f.Named name param) :
    Named (name ++ "x") param (.ofX f)
  | ofY {name : String} {param : Option Json} {f : Elementary1 Float} (h : f.Named name param) :
    Named (name ++ "y") param (.ofY f)

section Parameters

theorem Except.bind_eq_ok_iff {ε : Type u} {β γ : Type v} {x : Except ε β}
    {f : β → Except ε γ} {c : γ} : x >>= f = .ok c ↔ ∃ b, x = .ok b ∧ f b = .ok c := by
  cases x with
  | error e => simp [bind, Except.bind]
  | ok b => simp [bind, Except.bind]

theorem Except.map_eq_ok_iff {ε : Type u} {β γ : Type v} {x : Except ε β} {f : β → γ} {c : γ} :
    x.map f = .ok c ↔ ∃ b, x = .ok b ∧ f b = c := by
  cases x with
  | error e => simp [Except.map]
  | ok b => simp [Except.map]

theorem Except.mapError_eq_ok_iff {ε ε' : Type u} {β : Type v} {x : Except ε β} {f : ε → ε'}
    {b : β} : x.mapError f = .ok b ↔ x = .ok b := by
  cases x <;> simp [Except.mapError]

namespace Json

theorem float?_eq_some_iff {v : Json} {x : Float} :
    v.float? = some x ↔ ∃ n : Number, v = .number n ∧ n.toFloat = x := by
  cases v <;> simp [float?]

/-- An exponent is a token of an integer in the range of its type. -/
theorem exponent?_eq_some_iff {v : Json} {n : UInt32} :
    v.exponent? = some n ↔ v = .number (.int n.toNat) := by
  constructor
  · intro h
    unfold exponent? at h
    split at h
    · next m =>
      split at h
      · next hm =>
        cases h
        have hpow : Nat.pow 2 32 = 2 ^ 32 := rfl
        have hlt : m.toNat < 2 ^ 32 := by omega
        rw [UInt32.toNat_ofNat_of_lt' hlt, Int.toNat_of_nonneg hm.1]
      · cases h
    · cases h
  · rintro rfl
    have hlt : (n.toNat : Int) < Nat.pow 2 32 := by exact_mod_cast n.toNat_lt
    have hrange : 0 ≤ (n.toNat : Int) ∧ (n.toNat : Int) < Nat.pow 2 32 := ⟨by omega, hlt⟩
    rw [exponent?, if_pos hrange, Int.toNat_natCast]
    exact congrArg some (UInt32.ofNat_toNat)

/-- If what is read of an item determines the item and the other way round, so it is for a list. -/
theorem list?_eq_some_iff {κ β : Type} {read : Json → Option β} {write : κ → Json} {value : κ → β}
    (hread : ∀ v b, read v = some b ↔ ∃ k, v = write k ∧ value k = b) {v : Json} {bs : List β} :
    v.list? read = some bs ↔ ∃ ks : List κ, v = .array (ks.map write) ∧ ks.map value = bs := by
  have hitems : ∀ (items : List Json) (bs : List β), items.mapM read = some bs ↔
      ∃ ks : List κ, items = ks.map write ∧ ks.map value = bs := by
    intro items
    induction items with
    | nil =>
      intro bs
      constructor
      · intro h
        cases h
        exact ⟨[], rfl, rfl⟩
      · rintro ⟨ks, hks, rfl⟩
        rw [List.map_eq_nil_iff.mp hks.symm]
        rfl
    | cons item rest ih =>
      intro bs
      rw [List.mapM_cons]
      constructor
      · intro h
        obtain ⟨b, hb, h⟩ := Option.bind_eq_some_iff.mp h
        obtain ⟨bs', hbs, h⟩ := Option.bind_eq_some_iff.mp h
        cases h
        obtain ⟨k, rfl, rfl⟩ := (hread item b).mp hb
        obtain ⟨ks, rfl, rfl⟩ := (ih bs').mp hbs
        exact ⟨k :: ks, rfl, rfl⟩
      · rintro ⟨ks, hks, rfl⟩
        cases ks with
        | nil => cases hks
        | cons k ks =>
          rw [List.map_cons, List.cons.injEq] at hks
          obtain ⟨rfl, rfl⟩ := hks
          have hk := (hread _ _).mpr ⟨k, rfl, rfl⟩
          have hks := (ih _).mpr ⟨ks, rfl, rfl⟩
          rw [hk, hks]
          rfl
  cases v with
  | array items => simp [list?, items?, hitems]
  | _ => simp [list?, items?]

end Json

theorem Monomial1.ofJson?_eq_some_iff (v : Json) (t : Monomial1 Float) :
    ofJson? v = some t ↔ ∃ k, v = row k ∧ (⟨k.1, k.2.toFloat⟩ : Monomial1 Float) = t := by
  constructor
  · intro h
    unfold ofJson? at h
    split at h
    · next n c =>
      obtain ⟨n', hn, h⟩ := Option.bind_eq_some_iff.mp h
      obtain ⟨c', hc, h⟩ := Option.bind_eq_some_iff.mp h
      cases h
      obtain rfl := Json.exponent?_eq_some_iff.mp hn
      obtain ⟨c, rfl, rfl⟩ := Json.float?_eq_some_iff.mp hc
      exact ⟨(n', c), rfl, rfl⟩
    · cases h
  · rintro ⟨⟨n, c⟩, rfl, rfl⟩
    have hn := Json.exponent?_eq_some_iff.mpr (rfl : _ = Json.number (.int n.toNat))
    simp only [row, ofJson?, hn, Json.float?]
    rfl

theorem Monomial2.ofJson?_eq_some_iff (v : Json) (t : Monomial2 Float) :
    ofJson? v = some t ↔ ∃ k, v = row k ∧ (⟨k.1, k.2.toFloat⟩ : Monomial2 Float) = t := by
  constructor
  · intro h
    unfold ofJson? at h
    split at h
    · next i j c =>
      obtain ⟨i', hi, h⟩ := Option.bind_eq_some_iff.mp h
      obtain ⟨j', hj, h⟩ := Option.bind_eq_some_iff.mp h
      obtain ⟨c', hc, h⟩ := Option.bind_eq_some_iff.mp h
      cases h
      obtain rfl := Json.exponent?_eq_some_iff.mp hi
      obtain rfl := Json.exponent?_eq_some_iff.mp hj
      obtain ⟨c, rfl, rfl⟩ := Json.float?_eq_some_iff.mp hc
      exact ⟨(⟨i', j'⟩, c), rfl, rfl⟩
    · cases h
  · rintro ⟨⟨⟨i, j⟩, c⟩, rfl, rfl⟩
    have hi := Json.exponent?_eq_some_iff.mpr (rfl : _ = Json.number (.int i.toNat))
    have hj := Json.exponent?_eq_some_iff.mpr (rfl : _ = Json.number (.int j.toNat))
    simp only [row, ofJson?, hi, hj, Json.float?]
    rfl

theorem ExprRecord.readParameter?_eq_ok_iff {β : Type} {tag : String} {param : Option Json}
    {read : Json → Option β} {b : β} :
    readParameter? tag param read = .ok b ↔ ∃ v, param = some v ∧ read v = some b := by
  cases param with
  | none => simp [readParameter?]
  | some v => cases h : read v <;> simp [readParameter?, h]

theorem ExprRecord.rejectArgument_eq_ok_iff {tag key : String} {arg : Option ExprRecord}
    {u : Unit} : rejectArgument tag key arg = .ok u ↔ arg = none := by
  cases arg <;> simp [rejectArgument]

/-- Exactly the strictly descending lists of terms make a polynomial. -/
theorem Polynomial1.ofTerms?_eq_ok_iff {α : Type u} {terms : List (Monomial1 α)}
    {p : Polynomial1 α} : ofTerms? terms = .ok p ↔ p.terms = terms := by
  constructor
  · intro h
    unfold ofTerms? at h
    split at h <;> cases h
    rfl
  · rintro rfl
    have h := firstUnsorted?_eq_none p.descending
    unfold ofTerms?
    split
    · rfl
    · next h' =>
      rw [h] at h'
      cases h'

theorem Polynomial2.ofTerms?_eq_ok_iff {α : Type u} {terms : List (Monomial2 α)}
    {p : Polynomial2 α} : ofTerms? terms = .ok p ↔ p.terms = terms :=
  ⟨terms_of_ofTerms?, fun h => h ▸ ofTerms?_terms p⟩

theorem Polynomial1.ofParameter?_eq_ok_iff {tag : String} {param : Option Json}
    {p : Polynomial1 Float} : ofParameter? tag param = .ok p ↔
      ∃ rows h, param = some (.array (rows.map Monomial1.row)) ∧ ofRows rows h = p := by
  simp only [ofParameter?, Except.bind_eq_ok_iff, ExprRecord.readParameter?_eq_ok_iff,
    Json.list?_eq_some_iff Monomial1.ofJson?_eq_some_iff, Except.mapError_eq_ok_iff,
    ofTerms?_eq_ok_iff]
  constructor
  · rintro ⟨_, ⟨_, rfl, rows, rfl, rfl⟩, hp⟩
    have h : Descending (rows.map Prod.fst) := by
      have hd := p.descending
      rwa [hp, List.map_map] at hd
    refine ⟨rows, h, rfl, ?_⟩
    cases p
    cases hp
    rfl
  · rintro ⟨rows, h, rfl, rfl⟩
    exact ⟨_, ⟨_, rfl, rows, rfl, rfl⟩, rfl⟩

theorem Polynomial2.ofParameter?_eq_ok_iff {tag : String} {param : Option Json}
    {p : Polynomial2 Float} : ofParameter? tag param = .ok p ↔
      ∃ rows h, param = some (.array (rows.map Monomial2.row)) ∧ ofRows rows h = p := by
  simp only [ofParameter?, Except.bind_eq_ok_iff, ExprRecord.readParameter?_eq_ok_iff,
    Json.list?_eq_some_iff Monomial2.ofJson?_eq_some_iff, Except.mapError_eq_ok_iff,
    ofTerms?_eq_ok_iff]
  constructor
  · rintro ⟨_, ⟨_, rfl, rows, rfl, rfl⟩, hp⟩
    have h : Descending (rows.map Prod.fst) := by
      have hd := p.descending
      rwa [hp, List.map_map] at hd
    refine ⟨rows, h, rfl, ?_⟩
    cases p
    cases hp
    rfl
  · rintro ⟨rows, h, rfl, rfl⟩
    exact ⟨_, ⟨_, rfl, rows, rfl, rfl⟩, rfl⟩

theorem ExprRecord.readNumber?_eq_ok_iff {tag : String} {param : Option Json} {x : Float} :
    readParameter? tag param Json.float? = .ok x ↔
      ∃ n : Number, param = some (.number n) ∧ n.toFloat = x := by
  simp only [readParameter?_eq_ok_iff, Json.float?_eq_some_iff]
  constructor
  · rintro ⟨_, rfl, n, rfl, rfl⟩
    exact ⟨n, rfl, rfl⟩
  · rintro ⟨n, rfl, rfl⟩
    exact ⟨_, rfl, n, rfl, rfl⟩

end Parameters

section Tags

theorem Elementary1.ofName?_eq_ok_iff {tag name : String} {param : Option Json}
    {f : Elementary1 Float} : ofName? tag param name = .ok f ↔ Named name param f := by
  constructor
  · intro h
    unfold ofName? at h
    split at h
    · cases h
      exact .identity param
    · obtain ⟨⟨a, b⟩, hab, h⟩ := Except.bind_eq_ok h
      cases h
      obtain ⟨v, rfl, hv⟩ := ExprRecord.readParameter?_eq_ok_iff.mp hab
      split at hv
      · obtain ⟨_, ha, hv⟩ := Option.bind_eq_some_iff.mp hv
        obtain ⟨_, hb, hv⟩ := Option.bind_eq_some_iff.mp hv
        cases hv
        obtain ⟨a, rfl, rfl⟩ := Json.float?_eq_some_iff.mp ha
        obtain ⟨b, rfl, rfl⟩ := Json.float?_eq_some_iff.mp hb
        exact .linear a b
      · cases hv
    · obtain ⟨x, hx, rfl⟩ := Except.map_eq_ok_iff.mp h
      obtain ⟨p, rfl, rfl⟩ := ExprRecord.readNumber?_eq_ok_iff.mp hx
      exact .power p
    · cases h
      exact .inverse param
    · obtain ⟨x, hx, rfl⟩ := Except.map_eq_ok_iff.mp h
      obtain ⟨p, rfl, rfl⟩ := ExprRecord.readNumber?_eq_ok_iff.mp hx
      exact .exponential p
    · cases h
      exact .log param
    · obtain ⟨p, hp, rfl⟩ := Except.map_eq_ok_iff.mp h
      obtain ⟨rows, hd, rfl, rfl⟩ := Polynomial1.ofParameter?_eq_ok_iff.mp hp
      exact .polynomial rows hd
    · cases h
  · intro h
    cases h with
    | identity => rfl
    | inverse => rfl
    | log => rfl
    | linear a b => rfl
    | power p => rfl
    | exponential p => rfl
    | polynomial rows h =>
      have hp : Polynomial1.ofParameter? tag _ = .ok _ :=
        Polynomial1.ofParameter?_eq_ok_iff.mpr ⟨rows, h, rfl, rfl⟩
      exact Except.map_eq_ok_iff.mpr ⟨_, hp, rfl⟩

/-- The last letter of a tag and the name before it. -/
theorem ExprRecord.splitVariable?_eq_some {tag name : String} {v : Char}
    (h : splitVariable? tag = some (name, v)) : tag = name ++ String.singleton v := by
  unfold splitVariable? at h
  split at h
  · next hrev =>
    cases h
    apply String.toList_injective
    rw [← List.reverse_reverse tag.toList, hrev]
    simp
  · cases h

/-- No tag in one variable with a letter behind it is a tag of its own. -/
theorem Elementary2.ofTag?_append {name : String} {param : Option Json} {f : Elementary1 Float}
    (h : f.Named name param) :
    ofTag? (name ++ "x") param = .ok (.ofX f) ∧ ofTag? (name ++ "y") param = .ok (.ofY f) := by
  have hx : Elementary1.ofName? (name ++ "x") param name = .ok f :=
    Elementary1.ofName?_eq_ok_iff.mpr h
  have hy : Elementary1.ofName? (name ++ "y") param name = .ok f :=
    Elementary1.ofName?_eq_ok_iff.mpr h
  have hsplit :
      ofTag? (name ++ "x") param = (Elementary1.ofName? (name ++ "x") param name).map .ofX ∧
      ofTag? (name ++ "y") param = (Elementary1.ofName? (name ++ "y") param name).map .ofY := by
    cases h <;> exact ⟨rfl, rfl⟩
  rw [hsplit.1, hsplit.2, hx, hy]
  exact ⟨rfl, rfl⟩

theorem Elementary2.ofTag?_eq_ok_iff {tag : String} {param : Option Json}
    {f : Elementary2 Float} : ofTag? tag param = .ok f ↔ Named tag param f := by
  constructor
  · intro h
    unfold ofTag? at h
    split at h
    · cases h
      exact .x param
    · cases h
      exact .y param
    · obtain ⟨⟨a, b, c⟩, habc, h⟩ := Except.bind_eq_ok h
      cases h
      obtain ⟨v, rfl, hv⟩ := ExprRecord.readParameter?_eq_ok_iff.mp habc
      split at hv
      · obtain ⟨_, ha, hv⟩ := Option.bind_eq_some_iff.mp hv
        obtain ⟨_, hb, hv⟩ := Option.bind_eq_some_iff.mp hv
        obtain ⟨_, hc, hv⟩ := Option.bind_eq_some_iff.mp hv
        cases hv
        obtain ⟨a, rfl, rfl⟩ := Json.float?_eq_some_iff.mp ha
        obtain ⟨b, rfl, rfl⟩ := Json.float?_eq_some_iff.mp hb
        obtain ⟨c, rfl, rfl⟩ := Json.float?_eq_some_iff.mp hc
        exact .linear a b c
      · cases hv
    · obtain ⟨p, hp, rfl⟩ := Except.map_eq_ok_iff.mp h
      obtain ⟨rows, hd, rfl, rfl⟩ := Polynomial2.ofParameter?_eq_ok_iff.mp hp
      exact .polynomial rows hd
    · obtain ⟨p, hp, rfl⟩ := Except.map_eq_ok_iff.mp h
      obtain ⟨rows, hd, rfl, rfl⟩ := Polynomial2.ofParameter?_eq_ok_iff.mp hp
      exact .termwise rows hd
    · split at h
      · next name hsplit =>
        obtain ⟨f, hf, rfl⟩ := Except.map_eq_ok_iff.mp h
        obtain rfl := ExprRecord.splitVariable?_eq_some hsplit
        exact .ofX (Elementary1.ofName?_eq_ok_iff.mp hf)
      · next name hsplit =>
        obtain ⟨f, hf, rfl⟩ := Except.map_eq_ok_iff.mp h
        obtain rfl := ExprRecord.splitVariable?_eq_some hsplit
        exact .ofY (Elementary1.ofName?_eq_ok_iff.mp hf)
      · cases h
  · intro h
    cases h with
    | x => rfl
    | y => rfl
    | linear a b c => rfl
    | polynomial rows h =>
      have hp : Polynomial2.ofParameter? "poly" _ = .ok _ :=
        Polynomial2.ofParameter?_eq_ok_iff.mpr ⟨rows, h, rfl, rfl⟩
      exact Except.map_eq_ok_iff.mpr ⟨_, hp, rfl⟩
    | termwise rows h =>
      have hp : Polynomial2.ofParameter? "spoly" _ = .ok _ :=
        Polynomial2.ofParameter?_eq_ok_iff.mpr ⟨rows, h, rfl, rfl⟩
      exact Except.map_eq_ok_iff.mpr ⟨_, hp, rfl⟩
    | ofX h => exact (ofTag?_append h).1
    | ofY h => exact (ofTag?_append h).2

end Tags

end Helmholtz
