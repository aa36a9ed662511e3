import Helmholtz.Proofs.NamedFunctions

/-! A record converts exactly when it is well formed, and its expression holds what it says.

Terms, factors and arguments stay where they are, a constant keeps its value, and a node becomes the
function that its tag names. -/

namespace Helmholtz

namespace Expr1

mutual

/-- The expression in one variable that a record describes. -/
inductive Described : ExprRecord → Expr1 Float → Prop where
  | node {tag : String} {param : Option Json} {f : Elementary1 Float} {arg : Option ExprRecord}
    {g : Option (Expr1 Float)} (hf : f.Named tag param) (hg : ArgumentDescribed arg g) :
    Described (.node tag param arg none none) (.node f g)
  | group {terms : List (List FactorRecord)} {ts : List (List (Factor1 Float))}
    (h : TermsDescribed terms ts) : Described (.group terms) (.group ts)

inductive ArgumentDescribed : Option ExprRecord → Option (Expr1 Float) → Prop where
  | none : ArgumentDescribed none none
  | some {r : ExprRecord} {e : Expr1 Float} (h : Described r e) :
    ArgumentDescribed (some r) (some e)

inductive TermsDescribed : List (List FactorRecord) → List (List (Factor1 Float)) → Prop where
  | nil : TermsDescribed [] []
  | cons {term : List FactorRecord} {t : List (Factor1 Float)} {terms : List (List FactorRecord)}
    {ts : List (List (Factor1 Float))} (ht : FactorsDescribed term t)
    (hts : TermsDescribed terms ts) : TermsDescribed (term :: terms) (t :: ts)

inductive FactorsDescribed : List FactorRecord → List (Factor1 Float) → Prop where
  | nil : FactorsDescribed [] []
  | constant {c : Float} {factors : List FactorRecord} {fs : List (Factor1 Float)}
    (h : FactorsDescribed factors fs) :
    FactorsDescribed (.constant c :: factors) (.constant c :: fs)
  | expr {r : ExprRecord} {e : Expr1 Float} {factors : List FactorRecord}
    {fs : List (Factor1 Float)} (he : Described r e) (h : FactorsDescribed factors fs) :
    FactorsDescribed (.expr r :: factors) (.expr e :: fs)

end

mutual

theorem ofRecord?_eq_ok_iff (r : ExprRecord) (e : Expr1 Float) :
    ofRecord? r = .ok e ↔ Described r e := by
  cases r with
  | node tag param arg argx argy =>
    simp only [ofRecord?, Except.bind_eq_ok_iff, ExprRecord.rejectArgument_eq_ok_iff,
      Elementary1.ofName?_eq_ok_iff]
    constructor
    · rintro ⟨_, rfl, _, rfl, f, hf, g, hg, h⟩
      cases h
      exact .node hf ((ofArgument?_eq_ok_iff arg g).mp hg)
    · intro h
      cases h with
      | node hf hg => exact ⟨(), rfl, (), rfl, _, hf, _, (ofArgument?_eq_ok_iff arg _).mpr hg, rfl⟩
  | group terms =>
    simp only [ofRecord?, Except.map_eq_ok_iff]
    constructor
    · rintro ⟨ts, hts, rfl⟩
      exact .group ((ofTerms?_eq_ok_iff terms ts).mp hts)
    · intro h
      cases h with
      | group hts => exact ⟨_, (ofTerms?_eq_ok_iff terms _).mpr hts, rfl⟩

theorem ofArgument?_eq_ok_iff (arg : Option ExprRecord) (g : Option (Expr1 Float)) :
    ofArgument? arg = .ok g ↔ ArgumentDescribed arg g := by
  cases arg with
  | none =>
    rw [ofArgument?]
    constructor
    · intro h
      cases h
      exact .none
    · intro h
      cases h
      rfl
  | some r =>
    simp only [ofArgument?, Except.map_eq_ok_iff]
    constructor
    · rintro ⟨e, he, rfl⟩
      exact .some ((ofRecord?_eq_ok_iff r e).mp he)
    · intro h
      cases h with
      | some he => exact ⟨_, (ofRecord?_eq_ok_iff r _).mpr he, rfl⟩

theorem ofTerms?_eq_ok_iff (terms : List (List FactorRecord)) (ts : List (List (Factor1 Float))) :
    ofTerms? terms = .ok ts ↔ TermsDescribed terms ts := by
  cases terms with
  | nil =>
    rw [ofTerms?]
    constructor
    · intro h
      cases h
      exact .nil
    · intro h
      cases h
      rfl
  | cons term rest =>
    simp only [ofTerms?, Except.bind_eq_ok_iff]
    constructor
    · rintro ⟨t, ht, us, hus, h⟩
      cases h
      exact .cons ((ofFactors?_eq_ok_iff term t).mp ht) ((ofTerms?_eq_ok_iff rest us).mp hus)
    · intro h
      cases h with
      | cons ht hts =>
        exact ⟨_, (ofFactors?_eq_ok_iff term _).mpr ht, _, (ofTerms?_eq_ok_iff rest _).mpr hts, rfl⟩

theorem ofFactors?_eq_ok_iff (factors : List FactorRecord) (fs : List (Factor1 Float)) :
    ofFactors? factors = .ok fs ↔ FactorsDescribed factors fs := by
  cases factors with
  | nil =>
    rw [ofFactors?]
    constructor
    · intro h
      cases h
      exact .nil
    · intro h
      cases h
      rfl
  | cons factor rest =>
    cases factor with
    | constant c =>
      simp only [ofFactors?, Except.map_eq_ok_iff]
      constructor
      · rintro ⟨gs, hgs, rfl⟩
        exact .constant ((ofFactors?_eq_ok_iff rest gs).mp hgs)
      · intro h
        cases h with
        | constant hfs => exact ⟨_, (ofFactors?_eq_ok_iff rest _).mpr hfs, rfl⟩
    | expr r =>
      simp only [ofFactors?, Except.bind_eq_ok_iff]
      constructor
      · rintro ⟨e, he, gs, hgs, h⟩
        cases h
        exact .expr ((ofRecord?_eq_ok_iff r e).mp he) ((ofFactors?_eq_ok_iff rest gs).mp hgs)
      · intro h
        cases h with
        | expr he hfs =>
          exact ⟨_, (ofRecord?_eq_ok_iff r _).mpr he, _, (ofFactors?_eq_ok_iff rest _).mpr hfs,
            rfl⟩

end
end Expr1

namespace Expr2

mutual

/-- The expression in two variables that a record describes; what stands for a variable is an
expression in one variable. -/
inductive Described : ExprRecord → Expr2 Float → Prop where
  | node {tag : String} {param : Option Json} {f : Elementary2 Float}
    {argx argy : Option ExprRecord} {gx gy : Option (Expr1 Float)} (hf : f.Named tag param)
    (hx : Expr1.ArgumentDescribed argx gx) (hy : Expr1.ArgumentDescribed argy gy) :
    Described (.node tag param none argx argy) (.node f gx gy)
  | group {terms : List (List FactorRecord)} {ts : List (List (Factor2 Float))}
    (h : TermsDescribed terms ts) : Described (.group terms) (.group ts)

inductive TermsDescribed : List (List FactorRecord) → List (List (Factor2 Float)) → Prop where
  | nil : TermsDescribed [] []
  | cons {term : List FactorRecord} {t : List (Factor2 Float)} {terms : List (List FactorRecord)}
    {ts : List (List (Factor2 Float))} (ht : FactorsDescribed term t)
    (hts : TermsDescribed terms ts) : TermsDescribed (term :: terms) (t :: ts)

inductive FactorsDescribed : List FactorRecord → List (Factor2 Float) → Prop where
  | nil : FactorsDescribed [] []
  | constant {c : Float} {factors : List FactorRecord} {fs : List (Factor2 Float)}
    (h : FactorsDescribed factors fs) :
    FactorsDescribed (.constant c :: factors) (.constant c :: fs)
  | expr {r : ExprRecord} {e : Expr2 Float} {factors : List FactorRecord}
    {fs : List (Factor2 Float)} (he : Described r e) (h : FactorsDescribed factors fs) :
    FactorsDescribed (.expr r :: factors) (.expr e :: fs)

end

mutual

theorem ofRecord?_eq_ok_iff (r : ExprRecord) (e : Expr2 Float) :
    ofRecord? r = .ok e ↔ Described r e := by
  cases r with
  | node tag param arg argx argy =>
    simp only [ofRecord?, Except.bind_eq_ok_iff, ExprRecord.rejectArgument_eq_ok_iff,
      Elementary2.ofTag?_eq_ok_iff, Expr1.ofArgument?_eq_ok_iff]
    constructor
    · rintro ⟨_, rfl, f, hf, gx, hx, gy, hy, h⟩
      cases h
      exact .node hf hx hy
    · intro h
      cases h with
      | node hf hx hy => exact ⟨(), rfl, _, hf, _, hx, _, hy, rfl⟩
  | group terms =>
    simp only [ofRecord?, Except.map_eq_ok_iff]
    constructor
    · rintro ⟨ts, hts, rfl⟩
      exact .group ((ofTerms?_eq_ok_iff terms ts).mp hts)
    · intro h
      cases h with
      | group hts => exact ⟨_, (ofTerms?_eq_ok_iff terms _).mpr hts, rfl⟩

theorem ofTerms?_eq_ok_iff (terms : List (List FactorRecord)) (ts : List (List (Factor2 Float))) :
    ofTerms? terms = .ok ts ↔ TermsDescribed terms ts := by
  cases terms with
  | nil =>
    rw [ofTerms?]
    constructor
    · intro h
      cases h
      exact .nil
    · intro h
      cases h
      rfl
  | cons term rest =>
    simp only [ofTerms?, Except.bind_eq_ok_iff]
    constructor
    · rintro ⟨t, ht, us, hus, h⟩
      cases h
      exact .cons ((ofFactors?_eq_ok_iff term t).mp ht) ((ofTerms?_eq_ok_iff rest us).mp hus)
    · intro h
      cases h with
      | cons ht hts =>
        exact ⟨_, (ofFactors?_eq_ok_iff term _).mpr ht, _, (ofTerms?_eq_ok_iff rest _).mpr hts, rfl⟩

theorem ofFactors?_eq_ok_iff (factors : List FactorRecord) (fs : List (Factor2 Float)) :
    ofFactors? factors = .ok fs ↔ FactorsDescribed factors fs := by
  cases factors with
  | nil =>
    rw [ofFactors?]
    constructor
    · intro h
      cases h
      exact .nil
    · intro h
      cases h
      rfl
  | cons factor rest =>
    cases factor with
    | constant c =>
      simp only [ofFactors?, Except.map_eq_ok_iff]
      constructor
      · rintro ⟨gs, hgs, rfl⟩
        exact .constant ((ofFactors?_eq_ok_iff rest gs).mp hgs)
      · intro h
        cases h with
        | constant hfs => exact ⟨_, (ofFactors?_eq_ok_iff rest _).mpr hfs, rfl⟩
    | expr r =>
      simp only [ofFactors?, Except.bind_eq_ok_iff]
      constructor
      · rintro ⟨e, he, gs, hgs, h⟩
        cases h
        exact .expr ((ofRecord?_eq_ok_iff r e).mp he) ((ofFactors?_eq_ok_iff rest gs).mp hgs)
      · intro h
        cases h with
        | expr he hfs =>
          exact ⟨_, (ofRecord?_eq_ok_iff r _).mpr he, _, (ofFactors?_eq_ok_iff rest _).mpr hfs,
            rfl⟩

end
end Expr2

namespace ExprRecord

mutual

/-- Every node has only an `arg`, and a tag in one variable with a parameter that it takes. -/
def WellFormed1 : ExprRecord → Prop
  | .node tag param arg argx argy =>
    argx = none ∧ argy = none ∧ (∃ f, Elementary1.Named tag param f) ∧ ArgumentWellFormed1 arg
  | .group terms => TermsWellFormed1 terms

def ArgumentWellFormed1 : Option ExprRecord → Prop
  | none => True
  | some r => r.WellFormed1

def TermsWellFormed1 : List (List FactorRecord) → Prop
  | [] => True
  | t :: rest => FactorsWellFormed1 t ∧ TermsWellFormed1 rest

def FactorsWellFormed1 : List FactorRecord → Prop
  | [] => True
  | .constant _ :: rest => FactorsWellFormed1 rest
  | .expr r :: rest => r.WellFormed1 ∧ FactorsWellFormed1 rest

end

mutual

/-- Every node outside of arguments has no `arg`, and a tag in two variables with a parameter that
it takes; its arguments are well formed in one variable. -/
def WellFormed2 : ExprRecord → Prop
  | .node tag param arg argx argy =>
    arg = none ∧ (∃ f, Elementary2.Named tag param f) ∧ ArgumentWellFormed1 argx ∧
      ArgumentWellFormed1 argy
  | .group terms => TermsWellFormed2 terms

def TermsWellFormed2 : List (List FactorRecord) → Prop
  | [] => True
  | t :: rest => FactorsWellFormed2 t ∧ TermsWellFormed2 rest

def FactorsWellFormed2 : List FactorRecord → Prop
  | [] => True
  | .constant _ :: rest => FactorsWellFormed2 rest
  | .expr r :: rest => r.WellFormed2 ∧ FactorsWellFormed2 rest

end

mutual

theorem wellFormed1_iff (r : ExprRecord) : r.WellFormed1 ↔ ∃ e, Expr1.Described r e := by
  cases r with
  | node tag param arg argx argy =>
    constructor
    · rintro ⟨rfl, rfl, ⟨f, hf⟩, harg⟩
      obtain ⟨g, hg⟩ := (argumentWellFormed1_iff arg).mp harg
      exact ⟨_, .node hf hg⟩
    · rintro ⟨e, h⟩
      cases h with
      | node hf hg => exact ⟨rfl, rfl, ⟨_, hf⟩, (argumentWellFormed1_iff arg).mpr ⟨_, hg⟩⟩
  | group terms =>
    constructor
    · intro h
      obtain ⟨ts, hts⟩ := (termsWellFormed1_iff terms).mp h
      exact ⟨_, .group hts⟩
    · rintro ⟨e, h⟩
      cases h with
      | group hts => exact (termsWellFormed1_iff terms).mpr ⟨_, hts⟩

theorem argumentWellFormed1_iff (arg : Option ExprRecord) :
    ArgumentWellFormed1 arg ↔ ∃ g, Expr1.ArgumentDescribed arg g := by
  cases arg with
  | none => exact ⟨fun _ => ⟨none, .none⟩, fun _ => trivial⟩
  | some r =>
    constructor
    · intro h
      obtain ⟨e, he⟩ := (wellFormed1_iff r).mp h
      exact ⟨_, .some he⟩
    · rintro ⟨g, h⟩
      cases h with
      | some he => exact (wellFormed1_iff r).mpr ⟨_, he⟩

theorem termsWellFormed1_iff (terms : List (List FactorRecord)) :
    TermsWellFormed1 terms ↔ ∃ ts, Expr1.TermsDescribed terms ts := by
  cases terms with
  | nil => exact ⟨fun _ => ⟨[], .nil⟩, fun _ => trivial⟩
  | cons t rest =>
    constructor
    · rintro ⟨ht, hrest⟩
      obtain ⟨fs, hfs⟩ := (factorsWellFormed1_iff t).mp ht
      obtain ⟨ts, hts⟩ := (termsWellFormed1_iff rest).mp hrest
      exact ⟨_, .cons hfs hts⟩
    · rintro ⟨ts, h⟩
      cases h with
      | cons hfs hts =>
        exact ⟨(factorsWellFormed1_iff t).mpr ⟨_, hfs⟩, (termsWellFormed1_iff rest).mpr ⟨_, hts⟩⟩

theorem factorsWellFormed1_iff (factors : List FactorRecord) :
    FactorsWellFormed1 factors ↔ ∃ fs, Expr1.FactorsDescribed factors fs := by
  cases factors with
  | nil => exact ⟨fun _ => ⟨[], .nil⟩, fun _ => trivial⟩
  | cons factor rest =>
    cases factor with
    | constant c =>
      constructor
      · intro h
        obtain ⟨fs, hfs⟩ := (factorsWellFormed1_iff rest).mp h
        exact ⟨_, .constant hfs⟩
      · rintro ⟨fs, h⟩
        cases h with
        | constant hfs => exact (factorsWellFormed1_iff rest).mpr ⟨_, hfs⟩
    | expr r =>
      constructor
      · rintro ⟨hr, hrest⟩
        obtain ⟨e, he⟩ := (wellFormed1_iff r).mp hr
        obtain ⟨fs, hfs⟩ := (factorsWellFormed1_iff rest).mp hrest
        exact ⟨_, .expr he hfs⟩
      · rintro ⟨fs, h⟩
        cases h with
        | expr he hfs =>
          exact ⟨(wellFormed1_iff r).mpr ⟨_, he⟩, (factorsWellFormed1_iff rest).mpr ⟨_, hfs⟩⟩

end

mutual

theorem wellFormed2_iff (r : ExprRecord) : r.WellFormed2 ↔ ∃ e, Expr2.Described r e := by
  cases r with
  | node tag param arg argx argy =>
    constructor
    · rintro ⟨rfl, ⟨f, hf⟩, hargx, hargy⟩
      obtain ⟨gx, hx⟩ := (argumentWellFormed1_iff argx).mp hargx
      obtain ⟨gy, hy⟩ := (argumentWellFormed1_iff argy).mp hargy
      exact ⟨_, .node hf hx hy⟩
    · rintro ⟨e, h⟩
      cases h with
      | node hf hx hy =>
        exact ⟨rfl, ⟨_, hf⟩, (argumentWellFormed1_iff argx).mpr ⟨_, hx⟩,
          (argumentWellFormed1_iff argy).mpr ⟨_, hy⟩⟩
  | group terms =>
    constructor
    · intro h
      obtain ⟨ts, hts⟩ := (termsWellFormed2_iff terms).mp h
      exact ⟨_, .group hts⟩
    · rintro ⟨e, h⟩
      cases h with
      | group hts => exact (termsWellFormed2_iff terms).mpr ⟨_, hts⟩

theorem termsWellFormed2_iff (terms : List (List FactorRecord)) :
    TermsWellFormed2 terms ↔ ∃ ts, Expr2.TermsDescribed terms ts := by
  cases terms with
  | nil => exact ⟨fun _ => ⟨[], .nil⟩, fun _ => trivial⟩
  | cons t rest =>
    constructor
    · rintro ⟨ht, hrest⟩
      obtain ⟨fs, hfs⟩ := (factorsWellFormed2_iff t).mp ht
      obtain ⟨ts, hts⟩ := (termsWellFormed2_iff rest).mp hrest
      exact ⟨_, .cons hfs hts⟩
    · rintro ⟨ts, h⟩
      cases h with
      | cons hfs hts =>
        exact ⟨(factorsWellFormed2_iff t).mpr ⟨_, hfs⟩, (termsWellFormed2_iff rest).mpr ⟨_, hts⟩⟩

theorem factorsWellFormed2_iff (factors : List FactorRecord) :
    FactorsWellFormed2 factors ↔ ∃ fs, Expr2.FactorsDescribed factors fs := by
  cases factors with
  | nil => exact ⟨fun _ => ⟨[], .nil⟩, fun _ => trivial⟩
  | cons factor rest =>
    cases factor with
    | constant c =>
      constructor
      · intro h
        obtain ⟨fs, hfs⟩ := (factorsWellFormed2_iff rest).mp h
        exact ⟨_, .constant hfs⟩
      · rintro ⟨fs, h⟩
        cases h with
        | constant hfs => exact (factorsWellFormed2_iff rest).mpr ⟨_, hfs⟩
    | expr r =>
      constructor
      · rintro ⟨hr, hrest⟩
        obtain ⟨e, he⟩ := (wellFormed2_iff r).mp hr
        obtain ⟨fs, hfs⟩ := (factorsWellFormed2_iff rest).mp hrest
        exact ⟨_, .expr he hfs⟩
      · rintro ⟨fs, h⟩
        cases h with
        | expr he hfs =>
          exact ⟨(wellFormed2_iff r).mpr ⟨_, he⟩, (factorsWellFormed2_iff rest).mpr ⟨_, hfs⟩⟩

end
end ExprRecord

/-- A record converts to an expression in one or two variables exactly when it is well formed, and
then to the expression that it describes. -/
theorem ofRecord?_eq_ok_iff_described :
    (∀ r : ExprRecord, ((∃ e, Expr1.ofRecord? r = .ok e) ↔ r.WellFormed1) ∧
      ∀ e, Expr1.ofRecord? r = .ok e ↔ Expr1.Described r e) ∧
    (∀ r : ExprRecord, ((∃ e, Expr2.ofRecord? r = .ok e) ↔ r.WellFormed2) ∧
      ∀ e, Expr2.ofRecord? r = .ok e ↔ Expr2.Described r e) := by
  constructor
  · intro r
    have hr := Expr1.ofRecord?_eq_ok_iff r
    refine ⟨?_, hr⟩
    rw [ExprRecord.wellFormed1_iff]
    exact exists_congr hr
  · intro r
    have hr := Expr2.ofRecord?_eq_ok_iff r
    refine ⟨?_, hr⟩
    rw [ExprRecord.wellFormed2_iff]
    exact exists_congr hr

end Helmholtz
