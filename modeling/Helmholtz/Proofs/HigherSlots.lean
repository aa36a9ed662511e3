import Helmholtz.Expr.Bivariate
import Helmholtz.Fit.Residual
import Helmholtz.Fit.IdealGas
import Mathlib.Logic.Basic

/-! Slots above the order that is asked for are zero.

Products and compositions leave in these slots what their left operand holds, so each rule has to
keep them zero, whatever the other slots are. Of the arithmetic only two facts are used: a sum of
zeros is a zero, and so is the product of a zero and a finite constant. -/

namespace Helmholtz
universe u

/-- Scalars that may have more than one zero, and of which not all are finite. -/
class SignedZeros (α : Type u) [Zero α] [Add α] [Mul α] where
  IsZero : α → Prop
  IsFinite : α → Prop
  isZero_zero : IsZero 0
  isZero_add {a b : α} : IsZero a → IsZero b → IsZero (a + b)
  isZero_mul {a c : α} : IsZero a → IsFinite c → IsZero (a * c)

open SignedZeros

section Slots
variable {α : Type u} [Zero α] [Add α] [Mul α] [SignedZeros α]

/-- Zeros in the slots above an order. -/
structure Jet1.ZeroAbove (o : Order) (a : Jet1 α) : Prop where
  fx : o.hasFirst = false → IsZero a.fx
  fxx : o.hasSecond = false → IsZero a.fxx

/-- Zeros in the slots above an order. -/
structure Jet2.ZeroAbove (o : Order) (a : Jet2 α) : Prop where
  fx : o.hasFirst = false → IsZero a.fx
  fy : o.hasFirst = false → IsZero a.fy
  fxx : o.hasSecond = false → IsZero a.fxx
  fxy : o.hasSecond = false → IsZero a.fxy
  fyy : o.hasSecond = false → IsZero a.fyy

theorem isZero_ite {c : Bool} {x z : α} (hz : c = false → IsZero z) (hc : c = false) :
    IsZero (if c then x else z) := by
  rw [hc]
  exact hz hc

namespace Jet1.ZeroAbove
variable {o : Order} {a b : Jet1 α}

theorem constant (c : α) : (Jet1.constant c).ZeroAbove o :=
  ⟨fun _ => isZero_zero, fun _ => isZero_zero⟩

theorem zero : (Jet1.zero : Jet1 α).ZeroAbove o := constant 0

/-- A rule that changes no slot above the order. -/
theorem keep (ha : a.ZeroAbove o) (f fx fxx : α) :
    (⟨f, if o.hasFirst then fx else a.fx, if o.hasSecond then fxx else a.fxx⟩ : Jet1 α).ZeroAbove o :=
  ⟨isZero_ite ha.fx, isZero_ite ha.fxx⟩

/-- A function whose slots are filled as far as they are asked for. -/
theorem slots (f fx fxx : α) :
    (⟨f, if o.hasFirst then fx else 0, if o.hasSecond then fxx else 0⟩ : Jet1 α).ZeroAbove o :=
  zero.keep f fx fxx

/-- A function whose second derivative vanishes. -/
theorem linear (f fx : α) : (⟨f, if o.hasFirst then fx else 0, 0⟩ : Jet1 α).ZeroAbove o :=
  ⟨isZero_ite zero.fx, zero.fxx⟩

theorem identity [One α] (x : α) : (Jet1.identity x o).ZeroAbove o := linear x 1

theorem add (ha : a.ZeroAbove o) (hb : b.ZeroAbove o) : (a + b).ZeroAbove o where
  fx h := isZero_add (ha.fx h) (hb.fx h)
  fxx h := isZero_add (ha.fxx h) (hb.fxx h)

theorem scale (ha : a.ZeroAbove o) {c : α} (hc : IsFinite c) : (a.scale c).ZeroAbove o where
  fx h := isZero_mul (ha.fx h) hc
  fxx h := isZero_mul (ha.fxx h) hc

theorem compose (ha : a.ZeroAbove o) : (a.compose b o).ZeroAbove o := ha.keep _ _ _

theorem product [NatCast α] (ha : a.ZeroAbove o) : (a.product b o).ZeroAbove o := ha.keep _ _ _

theorem ofX (ha : a.ZeroAbove o) : (Jet2.ofX a).ZeroAbove o :=
  ⟨ha.fx, fun _ => isZero_zero, ha.fxx, fun _ => isZero_zero, fun _ => isZero_zero⟩

theorem ofY (ha : a.ZeroAbove o) : (Jet2.ofY a).ZeroAbove o :=
  ⟨fun _ => isZero_zero, ha.fx, fun _ => isZero_zero, fun _ => isZero_zero, ha.fxx⟩

end Jet1.ZeroAbove

namespace Jet2.ZeroAbove
variable {o : Order} {a b : Jet2 α}

theorem constant (c : α) : (Jet2.constant c).ZeroAbove o :=
  ⟨fun _ => isZero_zero, fun _ => isZero_zero, fun _ => isZero_zero, fun _ => isZero_zero,
    fun _ => isZero_zero⟩

theorem zero : (Jet2.zero : Jet2 α).ZeroAbove o := constant 0

/-- A rule that changes no slot above the order. -/
theorem keep (ha : a.ZeroAbove o) (f fx fy fxx fxy fyy : α) :
    (⟨f, if o.hasFirst then fx else a.fx, if o.hasFirst then fy else a.fy,
      if o.hasSecond then fxx else a.fxx, if o.hasSecond then fxy else a.fxy,
      if o.hasSecond then fyy else a.fyy⟩ : Jet2 α).ZeroAbove o :=
  ⟨isZero_ite ha.fx, isZero_ite ha.fy, isZero_ite ha.fxx, isZero_ite ha.fxy, isZero_ite ha.fyy⟩

theorem add (ha : a.ZeroAbove o) (hb : b.ZeroAbove o) : (a + b).ZeroAbove o where
  fx h := isZero_add (ha.fx h) (hb.fx h)
  fy h := isZero_add (ha.fy h) (hb.fy h)
  fxx h := isZero_add (ha.fxx h) (hb.fxx h)
  fxy h := isZero_add (ha.fxy h) (hb.fxy h)
  fyy h := isZero_add (ha.fyy h) (hb.fyy h)

theorem scale (ha : a.ZeroAbove o) {c : α} (hc : IsFinite c) : (a.scale c).ZeroAbove o where
  fx h := isZero_mul (ha.fx h) hc
  fy h := isZero_mul (ha.fy h) hc
  fxx h := isZero_mul (ha.fxx h) hc
  fxy h := isZero_mul (ha.fxy h) hc
  fyy h := isZero_mul (ha.fyy h) hc

theorem compose (ha : a.ZeroAbove o) (g h : Jet1 α) : (a.compose g h o).ZeroAbove o :=
  ha.keep _ _ _ _ _ _

theorem product [NatCast α] (ha : a.ZeroAbove o) : (a.product b o).ZeroAbove o :=
  ha.keep _ _ _ _ _ _

theorem ite {c : Prop} [Decidable c] (ha : a.ZeroAbove o) (hb : b.ZeroAbove o) :
    (if c then a else b).ZeroAbove o := by
  split
  · exact ha
  · exact hb

end Jet2.ZeroAbove
end Slots

section Evaluators
variable {α : Type u} [Zero α] [Add α] [Mul α] [NatCast α] [SignedZeros α] (o : Order)

theorem Polynomial1.zeroAbove_hornerFrom (x : α) (n : Nat) (terms : List (Monomial1 α)) {p : Jet1 α}
    (hp : p.ZeroAbove o) : (hornerFrom x o n terms p).ZeroAbove o := by
  induction n generalizing terms p with
  | zero => exact hp
  | succ n ih => exact ih _ (hp.keep _ _ _)

theorem Polynomial1.zeroAbove_horner (p : Polynomial1 α) (x : α) : (p.horner x o).ZeroAbove o := by
  unfold horner
  cases p.degree? with
  | none => exact .zero
  | some n => exact zeroAbove_hornerFrom o x _ _ .zero

theorem Polynomial2.zeroAbove_hornerFrom (x y : α) (n : Nat) (terms : List (Monomial2 α))
    {p : Jet2 α} (hp : p.ZeroAbove o) : (hornerFrom x y o n terms p).ZeroAbove o := by
  induction n generalizing terms p with
  | zero => exact hp
  | succ n ih => exact ih _ (hp.keep _ _ _ _ _ _)

theorem Polynomial2.zeroAbove_horner (p : Polynomial2 α) (x y : α) :
    (p.horner x y o).ZeroAbove o := by
  unfold horner
  cases p.degreeX? with
  | none => exact .zero
  | some n => exact zeroAbove_hornerFrom o x y _ _ .zero

variable [One α] [Sub α] [Div α]

/-- A term is added to the slots up to the order, and there only where it has a derivative. -/
theorem Polynomial1.zeroAbove_addTerm (x : α) {p : Jet1 α} (hp : p.ZeroAbove o)
    (t : Monomial1 α) : (addTerm x o p t).ZeroAbove o := by
  constructor
  · intro h
    simp only [addTerm, h, Bool.false_eq_true, false_and]
    exact hp.fx h
  · intro h
    simp only [addTerm, h, Bool.false_eq_true, false_and]
    exact hp.fxx h

theorem Polynomial1.zeroAbove_directSum (p : Polynomial1 α) (x : α) :
    (p.directSum x o).ZeroAbove o :=
  List.foldlRecOn p.terms (addTerm x o) .zero fun _ hs t _ => zeroAbove_addTerm o x hs t

theorem Polynomial2.zeroAbove_addTerm (x y : α) {p : Jet2 α} (hp : p.ZeroAbove o)
    (t : Monomial2 α) : (addTerm x y o p t).ZeroAbove o := by
  constructor
  · intro h
    simp only [addTerm, h, Bool.false_and]
    exact hp.fx h
  · intro h
    simp only [addTerm, h, Bool.false_and]
    exact hp.fy h
  · intro h
    simp only [addTerm, h, Bool.false_and]
    exact hp.fxx h
  · intro h
    simp only [addTerm, h, Bool.false_and]
    exact hp.fxy h
  · intro h
    simp only [addTerm, h, Bool.false_and]
    exact hp.fyy h

theorem Polynomial2.zeroAbove_directSum (p : Polynomial2 α) (x y : α) :
    (p.directSum x y o).ZeroAbove o :=
  List.foldlRecOn p.terms (addTerm x y o) .zero fun _ hs t _ => zeroAbove_addTerm o x y hs t

variable [Neg α] [Transcendental α]

theorem Elementary1.zeroAbove_eval (f : Elementary1 α) (x : α) : (f.eval x o).ZeroAbove o := by
  cases f with
  | identity => exact .linear _ _
  | linear a b => exact .linear _ _
  | power p => exact .slots _ _ _
  | inverse => exact .slots _ _ _
  | exponential p => exact .slots _ _ _
  | log => exact .slots _ _ _
  | polynomial p => exact p.zeroAbove_horner o x

theorem Elementary2.zeroAbove_eval (f : Elementary2 α) (x y : α) : (f.eval x y o).ZeroAbove o := by
  cases f with
  | ofX f => exact (f.zeroAbove_eval o x).ofX
  | ofY f => exact (f.zeroAbove_eval o y).ofY
  | linear a b c =>
    have hzero : (Jet2.zero : Jet2 α).ZeroAbove o := .zero
    exact ⟨isZero_ite hzero.fx, isZero_ite hzero.fy, hzero.fxx, hzero.fxy, hzero.fyy⟩
  | polynomial p => exact p.zeroAbove_horner o x y
  | termwise p => exact p.zeroAbove_directSum o x y

theorem IdealGas.zeroAbove_eval (g : IdealGas α) (x y : α) : (g.eval x y o).ZeroAbove o := by
  have hzero : (Jet2.zero : Jet2 α).ZeroAbove o := .zero
  exact ⟨isZero_ite hzero.fx, isZero_ite hzero.fy, isZero_ite hzero.fxx, hzero.fxy,
    isZero_ite hzero.fyy⟩

end Evaluators

section Expressions
variable {α : Type u} [Zero α] [One α] [Add α] [Sub α] [Mul α] [Neg α] [Div α] [NatCast α]
  [Transcendental α] [SignedZeros α]

namespace Expr1

mutual

/-- All constants are finite, those in arguments and in nested groups included. -/
def ConstantsFinite : Expr1 α → Prop
  | .node _ arg => ArgumentConstantsFinite arg
  | .group terms => TermsConstantsFinite terms

def ArgumentConstantsFinite : Option (Expr1 α) → Prop
  | none => True
  | some g => g.ConstantsFinite

def TermsConstantsFinite : List (List (Factor1 α)) → Prop
  | [] => True
  | t :: rest => FactorsConstantsFinite t ∧ TermsConstantsFinite rest

def FactorsConstantsFinite : List (Factor1 α) → Prop
  | [] => True
  | .constant c :: rest => IsFinite c ∧ FactorsConstantsFinite rest
  | .expr e :: rest => e.ConstantsFinite ∧ FactorsConstantsFinite rest

end

variable (o : Order)

/-- One more factor at a time; only constants multiply all slots. -/
theorem zeroAbove_mulFactors (x : α) {factors : List (Factor1 α)}
    (h : FactorsConstantsFinite factors) {p : Jet1 α} (hp : p.ZeroAbove o) :
    (mulFactors x o p factors).ZeroAbove o := by
  induction factors generalizing p with
  | nil => exact hp
  | cons a rest ih =>
    cases a with
    | constant c => exact ih h.2 (hp.scale h.1)
    | expr e => exact ih h.2 hp.product

theorem zeroAbove_addTerms (x : α) {terms : List (List (Factor1 α))}
    (h : TermsConstantsFinite terms) {s : Jet1 α} (hs : s.ZeroAbove o) :
    (addTerms x o s terms).ZeroAbove o := by
  induction terms generalizing s with
  | nil => exact hs
  | cons t rest ih =>
    have ht : (mulFactors x o (.constant 1) t).ZeroAbove o :=
      zeroAbove_mulFactors o x h.1 (.constant 1)
    exact ih h.2 (hs.add ht)

theorem zeroAbove_eval (x : α) {e : Expr1 α} (h : e.ConstantsFinite) :
    (e.eval x o).ZeroAbove o := by
  cases e with
  | node f arg =>
    cases arg with
    | none => exact f.zeroAbove_eval o x
    | some g =>
      have hf : (f.eval (g.eval x o).f o).ZeroAbove o := f.zeroAbove_eval o _
      rw [eval]
      exact hf.compose
  | group terms => exact zeroAbove_addTerms o x h .zero

end Expr1

namespace Expr2

mutual

/-- All constants are finite, those in arguments and in nested groups included. -/
def ConstantsFinite : Expr2 α → Prop
  | .node _ argx argy =>
    Expr1.ArgumentConstantsFinite argx ∧ Expr1.ArgumentConstantsFinite argy
  | .group terms => TermsConstantsFinite terms

def TermsConstantsFinite : List (List (Factor2 α)) → Prop
  | [] => True
  | t :: rest => FactorsConstantsFinite t ∧ TermsConstantsFinite rest

def FactorsConstantsFinite : List (Factor2 α) → Prop
  | [] => True
  | .constant c :: rest => IsFinite c ∧ FactorsConstantsFinite rest
  | .expr e :: rest => e.ConstantsFinite ∧ FactorsConstantsFinite rest

end

variable (o : Order)

theorem zeroAbove_mulFactors (x y : α) {factors : List (Factor2 α)}
    (h : FactorsConstantsFinite factors) {p : Jet2 α} (hp : p.ZeroAbove o) :
    (mulFactors x y o p factors).ZeroAbove o := by
  induction factors generalizing p with
  | nil => exact hp
  | cons a rest ih =>
    cases a with
    | constant c => exact ih h.2 (hp.scale h.1)
    | expr e => exact ih h.2 hp.product

theorem zeroAbove_addTerms (x y : α) {terms : List (List (Factor2 α))}
    (h : TermsConstantsFinite terms) {s : Jet2 α} (hs : s.ZeroAbove o) :
    (addTerms x y o s terms).ZeroAbove o := by
  induction terms generalizing s with
  | nil => exact hs
  | cons t rest ih =>
    have ht : (mulFactors x y o (.constant 1) t).ZeroAbove o :=
      zeroAbove_mulFactors o x y h.1 (.constant 1)
    exact ih h.2 (hs.add ht)

theorem zeroAbove_evalNode (x y : α) (f : Elementary2 α) (argx argy : Option (Expr1 α)) :
    (evalNode x y o f argx argy).ZeroAbove o := by
  have hf : ∀ x y, (f.eval x y o).ZeroAbove o := fun x y => f.zeroAbove_eval o x y
  have hcompose : ∀ g h : Jet1 α, ((f.eval g.f h.f o).compose g h o).ZeroAbove o :=
    fun g h => (hf g.f h.f).compose g h
  cases argx <;> cases argy
  · exact hf x y
  all_goals exact hcompose _ _

theorem zeroAbove_eval (x y : α) {e : Expr2 α} (h : e.ConstantsFinite) :
    (e.eval x y o).ZeroAbove o := by
  cases e with
  | node f argx argy => exact zeroAbove_evalNode o x y f argx argy
  | group terms => exact zeroAbove_addTerms o x y h .zero

end Expr2
end Expressions

section Fits
variable {α : Type u} [Zero α] [One α] [Add α] [Sub α] [Mul α] [Div α] [NatCast α]
  [Transcendental α] [BEq α] [SignedZeros α] (o : Order)

theorem Block.zeroAbove_eval (b : Block α) (x y : α) : (b.eval x y o).ZeroAbove o := by
  have hhorner : ∀ x y, (b.polynomial.horner x y o).ZeroAbove o :=
    fun x y => b.polynomial.zeroAbove_horner o x y
  have hpre : (b.evalPre x y o).ZeroAbove o := .ite (hhorner x y) ((hhorner _ _).compose _ _)
  have hpostX : ∀ g : Jet2 α, (if b.postX != 0 then (b.evalPre x y o).product g o
      else b.evalPre x y o).ZeroAbove o := fun g => .ite hpre.product hpre
  exact .ite (hpostX _).product (hpostX _)

variable [Neg α] [IntCast α]

theorem WeightedBlock.zeroAbove_eval (b : WeightedBlock α) (x y : α) :
    (b.eval x y o).ZeroAbove o :=
  (b.block.zeroAbove_eval o x y).product

theorem Residual.zeroAbove_eval (r : Residual α) (x y : α) : (r.eval x y o).ZeroAbove o :=
  List.foldlRecOn r.weighted _ (r.base.zeroAbove_eval o x y) fun _ hs b _ =>
    hs.add (b.zeroAbove_eval o x y)

end Fits
end Helmholtz
