import Helmholtz.Proofs.NodeFaults

/-! A conversion that fails reports the first faulty node of the record in reading order.

The walk through a record meets a node before its arguments, and terms and factors from left to
right. What is wrong with a node is said of the node by itself, without its surroundings. The
conversion and the walk are composed in the same way: one part after the other, the second one only
if nothing is wrong with the first one. -/

namespace Helmholtz

/-- How many variables a node is read in. -/
inductive Arity where
  | one
  | two

def Arity.Takes : Arity → String → ParameterKind → Prop
  | one => Elementary1.Takes
  | two => Elementary2.Takes

/-- A node as it is met on the walk through a record. -/
structure NodeVisit where
  arity : Arity
  tag : String
  param : Option Json
  arg : Option ExprRecord
  argx : Option ExprRecord
  argy : Option ExprRecord

namespace NodeVisit

/-- The arguments that the node must not have, in the order of the checks. -/
def excluded (v : NodeVisit) : List (String × Option ExprRecord) :=
  match v.arity with
  | .one => [("argx", v.argx), ("argy", v.argy)]
  | .two => [("arg", v.arg)]

/-- The fault of a node by itself: the first argument that it must not have, else a tag that no
function goes by, else the fault of its parameter. -/
inductive Fault (v : NodeVisit) : RecordFault → Prop where
  | argument {before after : List (String × Option ExprRecord)} {key : String} {r : ExprRecord}
    (h : v.excluded = before ++ (key, some r) :: after) (hbefore : ∀ a ∈ before, a.2 = none) :
    Fault v (.forbiddenArgument v.tag key)
  | tag (hargs : ∀ a ∈ v.excluded, a.2 = none) (h : ∀ k, ¬v.arity.Takes v.tag k) :
    Fault v (.unknownFunction v.tag)
  | parameter {k : ParameterKind} {e : RecordFault} (hargs : ∀ a ∈ v.excluded, a.2 = none)
    (hk : v.arity.Takes v.tag k) (h : k.Fault v.tag v.param e) : Fault v e

def Faultless (v : NodeVisit) : Prop := ∀ e, ¬v.Fault e

end NodeVisit

namespace ExprRecord

mutual

/-- All nodes of a record in reading order, with the number of variables they are read in. What is
inside of an argument is read in one variable. -/
def visits (n : Arity) : ExprRecord → List NodeVisit
  | .node tag param arg argx argy =>
    ⟨n, tag, param, arg, argx, argy⟩ ::
      (argumentVisits arg ++ argumentVisits argx ++ argumentVisits argy)
  | .group terms => termVisits n terms

def argumentVisits : Option ExprRecord → List NodeVisit
  | none => []
  | some r => r.visits .one

def termVisits (n : Arity) : List (List FactorRecord) → List NodeVisit
  | [] => []
  | t :: rest => factorVisits n t ++ termVisits n rest

def factorVisits (n : Arity) : List FactorRecord → List NodeVisit
  | [] => []
  | .constant _ :: rest => factorVisits n rest
  | .expr r :: rest => r.visits n ++ factorVisits n rest

end

theorem visits_node (n : Arity) (tag : String) (param : Option Json)
    (arg argx argy : Option ExprRecord) : (node tag param arg argx argy).visits n =
      [⟨n, tag, param, arg, argx, argy⟩] ++
        (argumentVisits arg ++ argumentVisits argx ++ argumentVisits argy) := rfl

end ExprRecord

/-- The fault of the first node that has one; whatever comes after this node is not looked at. -/
def FirstFault (visits : List NodeVisit) (e : RecordFault) : Prop :=
  ∃ before v after, visits = before ++ v :: after ∧ (∀ w ∈ before, w.Faultless) ∧ v.Fault e

section Walk
variable {v : NodeVisit} {l l' : List NodeVisit} {e : RecordFault}

theorem not_firstFault_nil : ¬FirstFault [] e := by
  rintro ⟨before, v, after, h, -, -⟩
  cases before <;> cases h

theorem firstFault_cons : FirstFault (v :: l) e ↔ v.Fault e ∨ v.Faultless ∧ FirstFault l e := by
  constructor
  · rintro ⟨before, w, after, h, hbefore, hw⟩
    cases before with
    | nil =>
      obtain ⟨rfl, -⟩ := List.cons.inj h
      exact .inl hw
    | cons u before =>
      obtain ⟨rfl, hl⟩ := List.cons.inj h
      rw [List.forall_mem_cons] at hbefore
      exact .inr ⟨hbefore.1, before, w, after, hl, hbefore.2, hw⟩
  · rintro (hv | ⟨hv, before, w, after, rfl, hbefore, hw⟩)
    · exact ⟨[], v, l, rfl, nofun, hv⟩
    · exact ⟨v :: before, w, after, rfl, List.forall_mem_cons.mpr ⟨hv, hbefore⟩, hw⟩

theorem firstFault_append : FirstFault (l ++ l') e ↔
    FirstFault l e ∨ (∀ v ∈ l, v.Faultless) ∧ FirstFault l' e := by
  induction l with
  | nil => simp [not_firstFault_nil]
  | cons v rest ih =>
    rw [List.cons_append, firstFault_cons, ih, firstFault_cons, List.forall_mem_cons]
    tauto

theorem forall_faultless_iff : (∀ v ∈ l, v.Faultless) ↔ ∀ e, ¬FirstFault l e := by
  constructor
  · rintro h e ⟨before, v, after, rfl, -, hv⟩
    exact h v (by simp) e hv
  · intro h
    induction l with
    | nil => exact nofun
    | cons v rest ih =>
      have hv : v.Faultless := fun e he => h e (firstFault_cons.mpr (.inl he))
      refine List.forall_mem_cons.mpr ⟨hv, ih fun e he => ?_⟩
      exact h e (firstFault_cons.mpr (.inr ⟨hv, he⟩))

end Walk

/-- A computation reports what is wrong with a list of nodes: it fails with the first fault, and
only if there is one. -/
def Reports {β : Type} (x : Except RecordFault β) (l : List NodeVisit) : Prop :=
  ∀ e, x = .error e ↔ FirstFault l e

namespace Reports
variable {β γ : Type} {x : Except RecordFault β} {l l' : List NodeVisit}

theorem ok (b : β) : Reports (.ok b) [] :=
  fun _ => ⟨nofun, fun h => absurd h not_firstFault_nil⟩

theorem visit {v : NodeVisit} (h : ∀ e, x = .error e ↔ v.Fault e) : Reports x [v] := by
  intro e
  rw [h, firstFault_cons]
  simp [not_firstFault_nil]

theorem map (h : Reports x l) (f : β → γ) : Reports (x.map f) l := by
  intro e
  rw [Except.map_eq_error_iff, h]

theorem exists_ok_iff (h : Reports x l) : (∃ b, x = .ok b) ↔ ∀ v ∈ l, v.Faultless := by
  rw [forall_faultless_iff]
  cases x with
  | ok b =>
    refine ⟨fun _ e he => ?_, fun _ => ⟨b, rfl⟩⟩
    cases (h e).mpr he
  | error e => exact ⟨nofun, fun hl => absurd ((h e).mp rfl) (hl e)⟩

/-- One part after the other. -/
theorem bind (h : Reports x l) {f : β → Except RecordFault γ}
    (hf : ∀ b, x = .ok b → Reports (f b) l') : Reports (x >>= f) (l ++ l') := by
  intro e
  rw [Except.bind_eq_error_iff, firstFault_append, h]
  refine or_congr_right ?_
  rw [← h.exists_ok_iff]
  constructor
  · rintro ⟨b, hb, he⟩
    exact ⟨⟨b, hb⟩, (hf b hb e).mp he⟩
  · rintro ⟨⟨b, hb⟩, he⟩
    exact ⟨b, hb, (hf b hb e).mpr he⟩

end Reports

section Nodes
variable {tag : String} {e : RecordFault}

namespace ExprRecord

theorem rejectArgument_eq_error_iff {key : String} {arg : Option ExprRecord} :
    rejectArgument tag key arg = .error e ↔
      (∃ r, arg = some r) ∧ e = .forbiddenArgument tag key := by
  cases arg <;> simp [rejectArgument, eq_comm]

/-- Fails at the first argument that is present. -/
def rejectAll (tag : String) : List (String × Option ExprRecord) → Except RecordFault Unit
  | [] => .ok ()
  | (key, arg) :: rest => do
    rejectArgument tag key arg
    rejectAll tag rest

theorem rejectAll_eq_ok_iff {args : List (String × Option ExprRecord)} {u : Unit} :
    rejectAll tag args = .ok u ↔ ∀ a ∈ args, a.2 = none := by
  induction args with
  | nil => simp [rejectAll]
  | cons a rest ih =>
    simp only [rejectAll, Except.bind_eq_ok_iff, rejectArgument_eq_ok_iff, ih, List.forall_mem_cons]
    exact ⟨fun ⟨_, ha, hrest⟩ => ⟨ha, hrest⟩, fun ⟨ha, hrest⟩ => ⟨(), ha, hrest⟩⟩

theorem rejectAll_eq_error_iff {args : List (String × Option ExprRecord)} :
    rejectAll tag args = .error e ↔ ∃ before key r after, args = before ++ (key, some r) :: after ∧
      (∀ a ∈ before, a.2 = none) ∧ e = .forbiddenArgument tag key := by
  induction args with
  | nil => simp [rejectAll]
  | cons a rest ih =>
    obtain ⟨key, arg⟩ := a
    simp only [rejectAll, Except.bind_eq_error_iff, rejectArgument_eq_error_iff,
      rejectArgument_eq_ok_iff, ih]
    constructor
    · rintro (⟨⟨r, rfl⟩, rfl⟩ | ⟨_, rfl, before, key', r, after, rfl, hbefore, rfl⟩)
      · exact ⟨[], key, r, rest, rfl, nofun, rfl⟩
      · exact ⟨(key, none) :: before, key', r, after, rfl, List.forall_mem_cons.mpr ⟨rfl, hbefore⟩,
          rfl⟩
    · rintro ⟨before, key', r, after, hargs, hbefore, rfl⟩
      cases before with
      | nil =>
        cases hargs
        exact .inl ⟨⟨r, rfl⟩, rfl⟩
      | cons a before =>
        obtain ⟨rfl, hrest⟩ := List.cons.inj hargs
        obtain ⟨harg, hrests⟩ := List.forall_mem_cons.mp hbefore
        exact .inr ⟨(), harg, before, key', r, after, hrest, hrests, rfl⟩

end ExprRecord

open ExprRecord

/-- The checks of a node, one after the other, fail with its fault. -/
theorem NodeVisit.fault_iff {β : Type} {v : NodeVisit} {x : Except RecordFault β}
    (hx : ∀ e, x = .error e ↔ (e = .unknownFunction v.tag ∧ ∀ k, ¬v.arity.Takes v.tag k) ∨
      ∃ k, v.arity.Takes v.tag k ∧ k.Fault v.tag v.param e) :
    (rejectAll v.tag v.excluded >>= fun _ => x) = .error e ↔ v.Fault e := by
  simp only [Except.bind_eq_error_iff, rejectAll_eq_error_iff, rejectAll_eq_ok_iff, hx]
  constructor
  · rintro (⟨before, key, r, after, hargs, hbefore, rfl⟩ | ⟨_, hargs, ⟨rfl, htag⟩ | ⟨k, hk, h⟩⟩)
    · exact .argument hargs hbefore
    · exact .tag hargs htag
    · exact .parameter hargs hk h
  · intro h
    cases h with
    | argument hargs hbefore => exact .inl ⟨_, _, _, _, hargs, hbefore, rfl⟩
    | tag hargs htag => exact .inr ⟨(), hargs, .inl ⟨rfl, htag⟩⟩
    | parameter hargs hk h => exact .inr ⟨(), hargs, .inr ⟨_, hk, h⟩⟩

end Nodes

open ExprRecord

namespace Expr1

/-- The node is checked before its argument. -/
theorem ofRecord?_node (tag : String) (param : Option Json) (arg argx argy : Option ExprRecord) :
    ofRecord? (.node tag param arg argx argy) =
      (rejectAll tag [("argx", argx), ("argy", argy)] >>= fun _ =>
        Elementary1.ofName? tag param tag) >>= fun f =>
      (ofArgument? arg).map fun g => .node f g := by
  cases argx <;> cases argy <;> rfl

mutual

theorem reports_ofRecord? (r : ExprRecord) : Reports (ofRecord? r) (r.visits .one) := by
  cases r with
  | node tag param arg argx argy =>
    rw [ofRecord?_node, visits_node]
    refine .bind (.visit fun e => ?_) fun f hf => ?_
    · exact NodeVisit.fault_iff (v := ⟨.one, tag, param, arg, argx, argy⟩) fun e =>
        Elementary1.ofName?_eq_error_iff
    · obtain ⟨_, hargs, -⟩ := Except.bind_eq_ok_iff.mp hf
      obtain ⟨rfl, rfl⟩ : argx = none ∧ argy = none := by
        simpa using rejectAll_eq_ok_iff.mp hargs
      simp only [argumentVisits, List.append_nil]
      exact (reports_ofArgument? arg).map _
  | group terms =>
    rw [ofRecord?, visits]
    exact (reports_ofTerms? terms).map _

theorem reports_ofArgument? (arg : Option ExprRecord) :
    Reports (ofArgument? arg) (argumentVisits arg) := by
  cases arg with
  | none => exact .ok none
  | some r =>
    rw [ofArgument?, argumentVisits]
    exact (reports_ofRecord? r).map _

theorem reports_ofTerms? (terms : List (List FactorRecord)) :
    Reports (ofTerms? terms) (termVisits .one terms) := by
  cases terms with
  | nil => exact .ok []
  | cons t rest =>
    rw [ofTerms?, termVisits]
    exact (reports_ofFactors? t).bind fun fs _ => (reports_ofTerms? rest).map (fs :: ·)

theorem reports_ofFactors? (factors : List FactorRecord) :
    Reports (ofFactors? factors) (factorVisits .one factors) := by
  cases factors with
  | nil => exact .ok []
  | cons factor rest =>
    cases factor with
    | constant c =>
      rw [ofFactors?, factorVisits]
      exact (reports_ofFactors? rest).map _
    | expr r =>
      rw [ofFactors?, factorVisits]
      exact (reports_ofRecord? r).bind fun e _ =>
        (reports_ofFactors? rest).map (Factor1.expr e :: ·)

end
end Expr1

namespace Expr2

/-- The node is checked before its arguments, and the argument for `x` before the one for `y`. -/
theorem ofRecord?_node (tag : String) (param : Option Json) (arg argx argy : Option ExprRecord) :
    ofRecord? (.node tag param arg argx argy) =
      (rejectAll tag [("arg", arg)] >>= fun _ => Elementary2.ofTag? tag param) >>= fun f =>
      Expr1.ofArgument? argx >>= fun gx =>
      (Expr1.ofArgument? argy).map fun gy => .node f gx gy := by
  cases arg <;> rfl

mutual

theorem reports_ofRecord? (r : ExprRecord) : Reports (ofRecord? r) (r.visits .two) := by
  cases r with
  | node tag param arg argx argy =>
    rw [ofRecord?_node, visits_node]
    refine .bind (.visit fun e => ?_) fun f hf => ?_
    · exact NodeVisit.fault_iff (v := ⟨.two, tag, param, arg, argx, argy⟩) fun e =>
        Elementary2.ofTag?_eq_error_iff
    · obtain ⟨_, hargs, -⟩ := Except.bind_eq_ok_iff.mp hf
      obtain rfl : arg = none := by simpa using rejectAll_eq_ok_iff.mp hargs
      rw [argumentVisits, List.nil_append]
      exact (Expr1.reports_ofArgument? argx).bind fun gx _ =>
        (Expr1.reports_ofArgument? argy).map fun gy => node f gx gy
  | group terms =>
    rw [ofRecord?, visits]
    exact (reports_ofTerms? terms).map _

theorem reports_ofTerms? (terms : List (List FactorRecord)) :
    Reports (ofTerms? terms) (termVisits .two terms) := by
  cases terms with
  | nil => exact .ok []
  | cons t rest =>
    rw [ofTerms?, termVisits]
    exact (reports_ofFactors? t).bind fun fs _ => (reports_ofTerms? rest).map (fs :: ·)

theorem reports_ofFactors? (factors : List FactorRecord) :
    Reports (ofFactors? factors) (factorVisits .two factors) := by
  cases factors with
  | nil => exact .ok []
  | cons factor rest =>
    cases factor with
    | constant c =>
      rw [ofFactors?, factorVisits]
      exact (reports_ofFactors? rest).map _
    | expr r =>
      rw [ofFactors?, factorVisits]
      exact (reports_ofRecord? r).bind fun e _ =>
        (reports_ofFactors? rest).map (Factor2.expr e :: ·)

end
end Expr2

/-- A record is rejected exactly if a node of it has a fault by itself, and then with the fault of
the first such node in reading order. The nodes after it may be whatever they are. -/
theorem ofRecord?_eq_error_iff_firstFault :
    (∀ r e, Expr1.ofRecord? r = .error e ↔ ∃ before v after, r.visits .one = before ++ v :: after ∧
      (∀ w ∈ before, ∀ e', ¬w.Fault e') ∧ v.Fault e) ∧
    (∀ r e, Expr2.ofRecord? r = .error e ↔ ∃ before v after, r.visits .two = before ++ v :: after ∧
      (∀ w ∈ before, ∀ e', ¬w.Fault e') ∧ v.Fault e) :=
  ⟨Expr1.reports_ofRecord?, Expr2.reports_ofRecord?⟩

end Helmholtz
