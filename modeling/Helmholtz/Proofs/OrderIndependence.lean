import Helmholtz.Expr.Bivariate
import Helmholtz.Fit.Basic
import Mathlib.Logic.Basic

/-! The slots that are asked for do not depend on what else is asked for.

Nothing is assumed of the operations of the scalars, so that the slots are the same numbers and not
only close to each other. -/

namespace Helmholtz
universe u

namespace Order

/-- No derivative is evaluated at the lower order that is not evaluated at the higher one. -/
instance : LE Order := ⟨fun a b => a.toNat ≤ b.toNat⟩

instance (a b : Order) : Decidable (a ≤ b) := inferInstanceAs (Decidable (a.toNat ≤ b.toNat))

variable {o o' : Order} (h : o ≤ o')
include h

theorem hasFirst_mono (h₁ : o.hasFirst = true) : o'.hasFirst = true := by
  revert h h₁
  cases o <;> cases o' <;> decide

theorem hasSecond_mono (h₂ : o.hasSecond = true) : o'.hasSecond = true := by
  revert h h₂
  cases o <;> cases o' <;> decide

omit h in
theorem hasFirst_of_hasSecond (h₂ : o.hasSecond = true) : o.hasFirst = true := by
  revert h₂
  cases o <;> decide

end Order

/-- Equal slots up to an order. -/
structure Jet1.AgreeUpTo {α : Type u} (o : Order) (a b : Jet1 α) : Prop where
  f : a.f = b.f
  fx : o.hasFirst = true → a.fx = b.fx
  fxx : o.hasSecond = true → a.fxx = b.fxx

/-- Equal slots up to an order. -/
structure Jet2.AgreeUpTo {α : Type u} (o : Order) (a b : Jet2 α) : Prop where
  f : a.f = b.f
  fx : o.hasFirst = true → a.fx = b.fx
  fy : o.hasFirst = true → a.fy = b.fy
  fxx : o.hasSecond = true → a.fxx = b.fxx
  fxy : o.hasSecond = true → a.fxy = b.fxy
  fyy : o.hasSecond = true → a.fyy = b.fyy

variable {α : Type u}

theorem Jet1.AgreeUpTo.refl (o : Order) (a : Jet1 α) : a.AgreeUpTo o a :=
  ⟨rfl, fun _ => rfl, fun _ => rfl⟩

theorem Jet2.AgreeUpTo.refl (o : Order) (a : Jet2 α) : a.AgreeUpTo o a :=
  ⟨rfl, fun _ => rfl, fun _ => rfl, fun _ => rfl, fun _ => rfl, fun _ => rfl⟩

theorem Jet2.AgreeUpTo.of_orders {o : Order} {a b : Jet2 α} (hf : a.f = b.f)
    (hfirst : o.hasFirst = true → a.fx = b.fx ∧ a.fy = b.fy)
    (hsecond : o.hasSecond = true → a.fxx = b.fxx ∧ a.fxy = b.fxy ∧ a.fyy = b.fyy) :
    a.AgreeUpTo o b :=
  ⟨hf, fun h₁ => (hfirst h₁).1, fun h₁ => (hfirst h₁).2, fun h₂ => (hsecond h₂).1,
    fun h₂ => (hsecond h₂).2.1, fun h₂ => (hsecond h₂).2.2⟩

variable {o o' : Order}

/-! The rules form no slot from a higher one. -/

namespace Jet1.AgreeUpTo
variable {a a' b b' : Jet1 α} (ha : a.AgreeUpTo o a') (hb : b.AgreeUpTo o b')
include ha

theorem scale [Mul α] (c : α) : (a.scale c).AgreeUpTo o (a'.scale c) where
  f := congrArg (· * c) ha.f
  fx h₁ := congrArg (· * c) (ha.fx h₁)
  fxx h₂ := congrArg (· * c) (ha.fxx h₂)

theorem ofX [Zero α] : (Jet2.ofX a).AgreeUpTo o (.ofX a') where
  f := ha.f
  fx := ha.fx
  fy _ := rfl
  fxx := ha.fxx
  fxy _ := rfl
  fyy _ := rfl

theorem ofY [Zero α] : (Jet2.ofY a).AgreeUpTo o (.ofY a') where
  f := ha.f
  fx _ := rfl
  fy := ha.fx
  fxx _ := rfl
  fxy _ := rfl
  fyy := ha.fxx

variable [Add α]
include hb

theorem add : (a + b).AgreeUpTo o (a' + b') where
  f := congrArg₂ (· + ·) ha.f hb.f
  fx h₁ := congrArg₂ (· + ·) (ha.fx h₁) (hb.fx h₁)
  fxx h₂ := congrArg₂ (· + ·) (ha.fxx h₂) (hb.fxx h₂)

variable [Mul α] (h : o ≤ o')
include h

theorem compose : (a.compose b o).AgreeUpTo o (a'.compose b' o') := by
  constructor
  · exact ha.f
  · intro h₁
    have h₁' := Order.hasFirst_mono h h₁
    simp only [Jet1.compose, h₁, h₁', if_true, ha.fx h₁, hb.fx h₁]
  · intro h₂
    have h₁ := Order.hasFirst_of_hasSecond h₂
    have h₂' := Order.hasSecond_mono h h₂
    simp only [Jet1.compose, h₂, h₂', if_true, ha.fx h₁, ha.fxx h₂, hb.fx h₁, hb.fxx h₂]

theorem product [NatCast α] : (a.product b o).AgreeUpTo o (a'.product b' o') := by
  constructor
  · exact congrArg₂ (· * ·) ha.f hb.f
  · intro h₁
    have h₁' := Order.hasFirst_mono h h₁
    simp only [Jet1.product, h₁, h₁', if_true, ha.f, hb.f, ha.fx h₁, hb.fx h₁]
  · intro h₂
    have h₁ := Order.hasFirst_of_hasSecond h₂
    have h₂' := Order.hasSecond_mono h h₂
    simp only [Jet1.product, h₂, h₂', if_true, ha.f, hb.f, ha.fx h₁, hb.fx h₁, ha.fxx h₂,
      hb.fxx h₂]

end Jet1.AgreeUpTo

namespace Jet2.AgreeUpTo
variable {a a' b b' : Jet2 α} (ha : a.AgreeUpTo o a')
include ha

theorem scale [Mul α] (c : α) : (a.scale c).AgreeUpTo o (a'.scale c) where
  f := congrArg (· * c) ha.f
  fx h₁ := congrArg (· * c) (ha.fx h₁)
  fy h₁ := congrArg (· * c) (ha.fy h₁)
  fxx h₂ := congrArg (· * c) (ha.fxx h₂)
  fxy h₂ := congrArg (· * c) (ha.fxy h₂)
  fyy h₂ := congrArg (· * c) (ha.fyy h₂)

variable [Add α]

theorem add (hb : b.AgreeUpTo o b') : (a + b).AgreeUpTo o (a' + b') where
  f := congrArg₂ (· + ·) ha.f hb.f
  fx h₁ := congrArg₂ (· + ·) (ha.fx h₁) (hb.fx h₁)
  fy h₁ := congrArg₂ (· + ·) (ha.fy h₁) (hb.fy h₁)
  fxx h₂ := congrArg₂ (· + ·) (ha.fxx h₂) (hb.fxx h₂)
  fxy h₂ := congrArg₂ (· + ·) (ha.fxy h₂) (hb.fxy h₂)
  fyy h₂ := congrArg₂ (· + ·) (ha.fyy h₂) (hb.fyy h₂)

variable [Mul α] (h : o ≤ o')
include h

theorem compose {g g' k k' : Jet1 α} (hg : g.AgreeUpTo o g') (hk : k.AgreeUpTo o k') :
    (a.compose g k o).AgreeUpTo o (a'.compose g' k' o') := by
  refine .of_orders ha.f (fun h₁ => ?_) fun h₂ => ?_
  · have h₁' := Order.hasFirst_mono h h₁
    simp only [Jet2.compose, h₁, h₁', if_true, ha.fx h₁, ha.fy h₁, hg.fx h₁, hk.fx h₁, and_self]
  · have h₁ := Order.hasFirst_of_hasSecond h₂
    have h₂' := Order.hasSecond_mono h h₂
    simp only [Jet2.compose, h₂, h₂', if_true, ha.fx h₁, ha.fy h₁, ha.fxx h₂, ha.fxy h₂, ha.fyy h₂,
      hg.fx h₁, hk.fx h₁, hg.fxx h₂, hk.fxx h₂, and_self]

theorem product [NatCast α] (hb : b.AgreeUpTo o b') :
    (a.product b o).AgreeUpTo o (a'.product b' o') := by
  refine .of_orders (congrArg₂ (· * ·) ha.f hb.f) (fun h₁ => ?_) fun h₂ => ?_
  · have h₁' := Order.hasFirst_mono h h₁
    simp only [Jet2.product, h₁, h₁', if_true, ha.f, hb.f, ha.fx h₁, ha.fy h₁, hb.fx h₁, hb.fy h₁,
      and_self]
  · have h₁ := Order.hasFirst_of_hasSecond h₂
    have h₂' := Order.hasSecond_mono h h₂
    simp only [Jet2.product, h₂, h₂', if_true, ha.f, hb.f, ha.fx h₁, ha.fy h₁, hb.fx h₁, hb.fy h₁,
      ha.fxx h₂, ha.fxy h₂, ha.fyy h₂, hb.fxx h₂, hb.fxy h₂, hb.fyy h₂, and_self]

end Jet2.AgreeUpTo

theorem Jet2.AgreeUpTo.ite {c : Prop} [Decidable c] {a a' b b' : Jet2 α} (ha : a.AgreeUpTo o a')
    (hb : b.AgreeUpTo o b') :
    (if c then a else b).AgreeUpTo o (if c then a' else b') := by
  by_cases hc : c
  · rw [if_pos hc, if_pos hc]
    exact ha
  · rw [if_neg hc, if_neg hc]
    exact hb

section Slots
variable (h : o ≤ o')
include h

/-- A function whose second derivative vanishes. -/
theorem Jet1.agreeUpTo_linear (f fx z : α) :
    (⟨f, if o.hasFirst then fx else z, z⟩ : Jet1 α).AgreeUpTo o
      ⟨f, if o'.hasFirst then fx else z, z⟩ := by
  refine ⟨rfl, fun h₁ => ?_, fun _ => rfl⟩
  have h₁' := Order.hasFirst_mono h h₁
  simp only [h₁, h₁', if_true]

/-- A function whose second derivative is formed from the first one. -/
theorem Jet1.agreeUpTo_slots (f fx z : α) (next : α → α) :
    (⟨f, if o.hasFirst then fx else z,
      if o.hasSecond then next (if o.hasFirst then fx else z) else z⟩ : Jet1 α).AgreeUpTo o
      ⟨f, if o'.hasFirst then fx else z,
        if o'.hasSecond then next (if o'.hasFirst then fx else z) else z⟩ := by
  refine ⟨rfl, fun h₁ => ?_, fun h₂ => ?_⟩
  · have h₁' := Order.hasFirst_mono h h₁
    simp only [h₁, h₁', if_true]
  · have h₁ := Order.hasFirst_of_hasSecond h₂
    have h₁' := Order.hasFirst_mono h h₁
    have h₂' := Order.hasSecond_mono h h₂
    simp only [h₁, h₁', h₂, h₂', if_true]

end Slots

section Horner
variable [Add α] [Mul α] [NatCast α] (h : o ≤ o')
include h

theorem Polynomial1.agreeUpTo_hornerStep (x : α) {p p' : Jet1 α} (hp : p.AgreeUpTo o p') (c : α) :
    (hornerStep x o p c).AgreeUpTo o (hornerStep x o' p' c) := by
  constructor
  · exact congrArg (c + x * ·) hp.f
  · intro h₁
    have h₁' := Order.hasFirst_mono h h₁
    simp only [hornerStep, h₁, h₁', if_true, hp.f, hp.fx h₁]
  · intro h₂
    have h₁ := Order.hasFirst_of_hasSecond h₂
    have h₂' := Order.hasSecond_mono h h₂
    simp only [hornerStep, h₂, h₂', if_true, hp.fx h₁, hp.fxx h₂]

theorem Polynomial2.agreeUpTo_hornerStep (x : α) {p p' : Jet2 α} {q q' : Jet1 α}
    (hp : p.AgreeUpTo o p') (hq : q.AgreeUpTo o q') :
    (hornerStep x o p q).AgreeUpTo o (hornerStep x o' p' q') := by
  refine .of_orders ?_ (fun h₁ => ?_) fun h₂ => ?_
  · simp only [hornerStep, hp.f, hq.f]
  · have h₁' := Order.hasFirst_mono h h₁
    simp only [hornerStep, h₁, h₁', if_true, hp.f, hp.fx h₁, hp.fy h₁, hq.fx h₁, and_self]
  · have h₁ := Order.hasFirst_of_hasSecond h₂
    have h₂' := Order.hasSecond_mono h h₂
    simp only [hornerStep, h₂, h₂', if_true, hp.fx h₁, hp.fy h₁, hp.fxx h₂, hp.fxy h₂, hp.fyy h₂,
      hq.fxx h₂, and_self]

variable [Zero α]

theorem Polynomial1.agreeUpTo_hornerFrom (x : α) (n : Nat) (terms : List (Monomial1 α))
    {p p' : Jet1 α} (hp : p.AgreeUpTo o p') :
    (hornerFrom x o n terms p).AgreeUpTo o (hornerFrom x o' n terms p') := by
  induction n generalizing terms p p' with
  | zero => exact hp
  | succ n ih => exact ih _ (agreeUpTo_hornerStep h x hp _)

theorem Polynomial1.agreeUpTo_horner (p : Polynomial1 α) (x : α) :
    (p.horner x o).AgreeUpTo o (p.horner x o') := by
  unfold horner
  cases p.degree? with
  | none => exact .refl o _
  | some n => exact agreeUpTo_hornerFrom h x _ _ (.refl o _)

/-- The terms that are left over do not depend on the order either. -/
theorem Polynomial2.agreeUpTo_innerFrom (y : α) (i n : Nat) (terms : List (Monomial2 α))
    {q q' : Jet1 α} (hq : q.AgreeUpTo o q') :
    (innerFrom y o i n terms q).1.AgreeUpTo o (innerFrom y o' i n terms q').1 ∧
      (innerFrom y o i n terms q).2 = (innerFrom y o' i n terms q').2 := by
  induction n generalizing terms q q' with
  | zero => exact ⟨hq, rfl⟩
  | succ n ih => exact ih _ (Polynomial1.agreeUpTo_hornerStep h y hq _)

theorem Polynomial2.agreeUpTo_inner (y : α) (i : Nat) (terms : List (Monomial2 α)) :
    (inner y o i terms).1.AgreeUpTo o (inner y o' i terms).1 ∧
      (inner y o i terms).2 = (inner y o' i terms).2 := by
  unfold inner
  cases terms.head?.filter (·.exponents.x.toNat == i) with
  | none => exact ⟨.refl o _, rfl⟩
  | some t => exact agreeUpTo_innerFrom h y i _ terms (.refl o _)

theorem Polynomial2.agreeUpTo_hornerFrom (x y : α) (n : Nat) (terms : List (Monomial2 α))
    {p p' : Jet2 α} (hp : p.AgreeUpTo o p') :
    (hornerFrom x y o n terms p).AgreeUpTo o (hornerFrom x y o' n terms p') := by
  induction n generalizing terms p p' with
  | zero => exact hp
  | succ n ih =>
    obtain ⟨hq, hrest⟩ := agreeUpTo_inner h y n terms
    have hstep := ih (inner y o n terms).2 (agreeUpTo_hornerStep h x hp hq)
    simp only [hornerFrom, ← hrest]
    exact hstep

theorem Polynomial2.agreeUpTo_horner (p : Polynomial2 α) (x y : α) :
    (p.horner x y o).AgreeUpTo o (p.horner x y o') := by
  unfold horner
  cases p.degreeX? with
  | none => exact .refl o _
  | some n => exact agreeUpTo_hornerFrom h x y _ _ (.refl o _)

end Horner

section DirectSum
variable [One α] [Add α] [Sub α] [Mul α] [Div α] [NatCast α] (h : o ≤ o')
include h

theorem Polynomial1.agreeUpTo_addTerm (x : α) {p p' : Jet1 α} (hp : p.AgreeUpTo o p')
    (t : Monomial1 α) : (addTerm x o p t).AgreeUpTo o (addTerm x o' p' t) := by
  constructor
  · exact congrArg (· + _) hp.f
  · intro h₁
    have h₁' := Order.hasFirst_mono h h₁
    simp only [addTerm, h₁, h₁', true_and, hp.fx h₁]
  · intro h₂
    have h₂' := Order.hasSecond_mono h h₂
    simp only [addTerm, h₂, h₂', true_and, hp.fxx h₂]

theorem Polynomial2.agreeUpTo_addTerm (x y : α) {p p' : Jet2 α} (hp : p.AgreeUpTo o p')
    (t : Monomial2 α) : (addTerm x y o p t).AgreeUpTo o (addTerm x y o' p' t) := by
  refine .of_orders (congrArg (· + _) hp.f) (fun h₁ => ?_) fun h₂ => ?_
  · have h₁' := Order.hasFirst_mono h h₁
    simp only [addTerm, h₁, h₁', hp.fx h₁, hp.fy h₁, and_self]
  · have h₂' := Order.hasSecond_mono h h₂
    simp only [addTerm, h₂, h₂', hp.fxx h₂, hp.fxy h₂, hp.fyy h₂, and_self]

variable [Zero α]

theorem Polynomial1.agreeUpTo_directSum (p : Polynomial1 α) (x : α) :
    (p.directSum x o).AgreeUpTo o (p.directSum x o') :=
  List.foldl_rel (.refl o _) fun t _ _ _ hs => agreeUpTo_addTerm h x hs t

theorem Polynomial2.agreeUpTo_directSum (p : Polynomial2 α) (x y : α) :
    (p.directSum x y o).AgreeUpTo o (p.directSum x y o') :=
  List.foldl_rel (.refl o _) fun t _ _ _ hs => agreeUpTo_addTerm h x y hs t

end DirectSum

section Elementary
variable [Zero α] [One α] [Sub α] [Mul α] [Div α] [Transcendental α] (h : o ≤ o')
include h

theorem Elementary1.agreeUpTo_evalPower (p x : α) :
    (evalPower p x o).AgreeUpTo o (evalPower p x o') :=
  Jet1.agreeUpTo_slots h _ _ 0 fun fx => (p - 1) * fx / x

variable [Add α] [Neg α] [NatCast α]

theorem Elementary1.agreeUpTo_eval (f : Elementary1 α) (x : α) :
    (f.eval x o).AgreeUpTo o (f.eval x o') := by
  cases f with
  | identity => exact Jet1.agreeUpTo_linear h _ _ _
  | linear a b => exact Jet1.agreeUpTo_linear h _ _ _
  | power p => exact agreeUpTo_evalPower h p x
  | inverse => exact Jet1.agreeUpTo_slots h _ _ 0 fun fx => -(2 : Nat) * fx / x
  | exponential p => exact Jet1.agreeUpTo_slots h _ _ 0 fun fx => p * fx
  | log => exact Jet1.agreeUpTo_slots h _ _ 0 fun fx => -fx / x
  | polynomial p => exact p.agreeUpTo_horner h x

theorem Elementary2.agreeUpTo_eval (f : Elementary2 α) (x y : α) :
    (f.eval x y o).AgreeUpTo o (f.eval x y o') := by
  cases f with
  | ofX f => exact (f.agreeUpTo_eval h x).ofX
  | ofY f => exact (f.agreeUpTo_eval h y).ofY
  | linear a b c =>
    refine .of_orders rfl (fun h₁ => ?_) fun _ => ⟨rfl, rfl, rfl⟩
    have h₁' := Order.hasFirst_mono h h₁
    simp only [eval, h₁, h₁', if_true, and_self]
  | polynomial p => exact p.agreeUpTo_horner h x y
  | termwise p => exact p.agreeUpTo_directSum h x y

theorem IdealGas.agreeUpTo_eval (g : IdealGas α) (x y : α) :
    (g.eval x y o).AgreeUpTo o (g.eval x y o') := by
  refine .of_orders rfl (fun h₁ => ?_) fun h₂ => ?_
  · have h₁' := Order.hasFirst_mono h h₁
    simp only [eval, h₁, h₁', if_true, and_self]
  · have h₂' := Order.hasSecond_mono h h₂
    simp only [eval, h₂, h₂', if_true, and_self]

end Elementary

section Expressions
variable [Zero α] [One α] [Add α] [Sub α] [Mul α] [Neg α] [Div α] [NatCast α] [Transcendental α]

namespace Expr1

mutual

theorem agreeUpTo_eval (h : o ≤ o') (e : Expr1 α) (x : α) :
    (e.eval x o).AgreeUpTo o (e.eval x o') := by
  cases e with
  | node f arg =>
    cases arg with
    | none => exact f.agreeUpTo_eval h x
    | some g =>
      have hg := agreeUpTo_eval h g x
      have hf : (f.eval (g.eval x o).f o).AgreeUpTo o (f.eval (g.eval x o').f o') := by
        rw [hg.f]
        exact f.agreeUpTo_eval h _
      rw [eval, eval]
      exact hf.compose hg h
  | group terms => exact agreeUpTo_addTerms h terms x (.refl o _)

theorem agreeUpTo_addTerms (h : o ≤ o') (terms : List (List (Factor1 α))) (x : α) {s s' : Jet1 α}
    (hs : s.AgreeUpTo o s') :
    (addTerms x o s terms).AgreeUpTo o (addTerms x o' s' terms) := by
  cases terms with
  | nil => exact hs
  | cons t rest =>
    exact agreeUpTo_addTerms h rest x (hs.add (agreeUpTo_mulFactors h t x (.refl o _)))

theorem agreeUpTo_mulFactors (h : o ≤ o') (factors : List (Factor1 α)) (x : α) {p p' : Jet1 α}
    (hp : p.AgreeUpTo o p') :
    (mulFactors x o p factors).AgreeUpTo o (mulFactors x o' p' factors) := by
  cases factors with
  | nil => exact hp
  | cons a rest =>
    cases a with
    | constant c => exact agreeUpTo_mulFactors h rest x (hp.scale c)
    | expr e => exact agreeUpTo_mulFactors h rest x (hp.product (agreeUpTo_eval h e x) h)

end

theorem agreeUpTo_evalArgument (h : o ≤ o') (arg : Option (Expr1 α)) (x : α) :
    (evalArgument x o arg).AgreeUpTo o (evalArgument x o' arg) := by
  cases arg with
  | none => exact Jet1.agreeUpTo_linear h _ _ _
  | some e => exact e.agreeUpTo_eval h x

end Expr1

namespace Expr2

theorem agreeUpTo_evalNode (h : o ≤ o') (f : Elementary2 α) (argx argy : Option (Expr1 α))
    (x y : α) : (evalNode x y o f argx argy).AgreeUpTo o (evalNode x y o' f argx argy) := by
  have hx := Expr1.agreeUpTo_evalArgument h argx x
  have hy := Expr1.agreeUpTo_evalArgument h argy y
  have hf : (f.eval (Expr1.evalArgument x o argx).f (Expr1.evalArgument y o argy).f o).AgreeUpTo o
      (f.eval (Expr1.evalArgument x o' argx).f (Expr1.evalArgument y o' argy).f o') := by
    rw [hx.f, hy.f]
    exact f.agreeUpTo_eval h _ _
  have hc := hf.compose h hx hy
  cases argx <;> cases argy
  · exact f.agreeUpTo_eval h x y
  all_goals exact hc

mutual

theorem agreeUpTo_eval (h : o ≤ o') (e : Expr2 α) (x y : α) :
    (e.eval x y o).AgreeUpTo o (e.eval x y o') := by
  cases e with
  | node f argx argy => exact agreeUpTo_evalNode h f argx argy x y
  | group terms => exact agreeUpTo_addTerms h terms x y (.refl o _)

theorem agreeUpTo_addTerms (h : o ≤ o') (terms : List (List (Factor2 α))) (x y : α) {s s' : Jet2 α}
    (hs : s.AgreeUpTo o s') :
    (addTerms x y o s terms).AgreeUpTo o (addTerms x y o' s' terms) := by
  cases terms with
  | nil => exact hs
  | cons t rest =>
    exact agreeUpTo_addTerms h rest x y (hs.add (agreeUpTo_mulFactors h t x y (.refl o _)))

theorem agreeUpTo_mulFactors (h : o ≤ o') (factors : List (Factor2 α)) (x y : α) {p p' : Jet2 α}
    (hp : p.AgreeUpTo o p') :
    (mulFactors x y o p factors).AgreeUpTo o (mulFactors x y o' p' factors) := by
  cases factors with
  | nil => exact hp
  | cons a rest =>
    cases a with
    | constant c => exact agreeUpTo_mulFactors h rest x y (hp.scale c)
    | expr e => exact agreeUpTo_mulFactors h rest x y (hp.product h (agreeUpTo_eval h e x y))

end
end Expr2

end Expressions

section Blocks
variable [Zero α] [One α] [Sub α] [Mul α] [Div α] [Transcendental α] [BEq α] (h : o ≤ o')
include h

namespace Block

theorem agreeUpTo_preTransform (v p : α) :
    (preTransform v p o).AgreeUpTo o (preTransform v p o') := by
  unfold preTransform
  by_cases hp : (p == 1) = true
  · rw [if_pos hp, if_pos hp]
    exact Jet1.agreeUpTo_linear h _ _ _
  · rw [if_neg hp, if_neg hp]
    exact Elementary1.agreeUpTo_evalPower h p v

variable [Add α] [NatCast α]

theorem agreeUpTo_evalPre (b : Block α) (x y : α) :
    (b.evalPre x y o).AgreeUpTo o (b.evalPre x y o') := by
  unfold evalPre
  by_cases hp : (b.preX == 1 && b.preY == 1) = true
  · rw [if_pos hp, if_pos hp]
    exact b.polynomial.agreeUpTo_horner h x y
  · rw [if_neg hp, if_neg hp]
    have hx := agreeUpTo_preTransform h x b.preX
    have hy := agreeUpTo_preTransform h y b.preY
    have hf : (b.polynomial.horner (preTransform x b.preX o).f (preTransform y b.preY o).f
        o).AgreeUpTo o (b.polynomial.horner (preTransform x b.preX o').f
          (preTransform y b.preY o').f o') := by
      rw [hx.f, hy.f]
      exact b.polynomial.agreeUpTo_horner h _ _
    exact hf.compose h hx hy

theorem agreeUpTo_eval (b : Block α) (x y : α) : (b.eval x y o).AgreeUpTo o (b.eval x y o') := by
  have hx := (Elementary1.agreeUpTo_evalPower h b.postX x).ofX
  have hy := (Elementary1.agreeUpTo_evalPower h b.postY y).ofY
  have hpre := b.agreeUpTo_evalPre h x y
  have hpostX := Jet2.AgreeUpTo.ite (c := (b.postX != 0) = true) (hpre.product h hx) hpre
  exact .ite (hpostX.product h hy) hpostX

end Block
end Blocks

section Fits
variable [Zero α] [One α] [Sub α] [Mul α] [Neg α] [Div α] [IntCast α] [Transcendental α]

theorem WeightedBlock.agreeUpTo_weight (h : o ≤ o') (k : Int32) (y : α) :
    (weight k y o).AgreeUpTo o (weight k y o') :=
  Jet1.agreeUpTo_slots h _ _ 0 fun _ => _

variable [Add α] [NatCast α] [BEq α]

theorem WeightedBlock.agreeUpTo_eval (h : o ≤ o') (b : WeightedBlock α) (x y : α) :
    (b.eval x y o).AgreeUpTo o (b.eval x y o') :=
  (b.block.agreeUpTo_eval h x y).product h (agreeUpTo_weight h b.k y).ofY

theorem Residual.agreeUpTo_eval (h : o ≤ o') (r : Residual α) (x y : α) :
    (r.eval x y o).AgreeUpTo o (r.eval x y o') :=
  List.foldl_rel (r.base.agreeUpTo_eval h x y) fun b _ _ _ hs => hs.add (b.agreeUpTo_eval h x y)

/-- A property that needs the residual by density only finds it in the batch of second order. -/
theorem Fit.mapPairs?_residualAt_fy (m : Fit α) (g : α → α → α → α) (ts ds : List α) :
    mapPairs? (fun t d => g t d (m.residualAt t d .first).fy) ts ds =
      (m.helmholtz? ts ds .second).map fun c =>
        List.zipWith (fun p fy => g p.1 p.2 fy) (ts.zip ds) c.residual.fy := by
  have hfy : ∀ t d, (m.residualAt t d .first).fy = (m.residualAt t d .second).fy := by
    intro t d
    have hle : Order.first ≤ Order.second := by decide
    exact (m.residual.agreeUpTo_eval hle _ _).fy rfl
  have hzip : ∀ (r : α → α → α) (xs ys : List α), List.zipWith (fun t d => g t d (r t d)) xs ys =
      List.zipWith (fun p fy => g p.1 p.2 fy) (xs.zip ys) (List.zipWith r xs ys) := by
    intro r xs
    induction xs with
    | nil => exact fun ys => rfl
    | cons x rest ih =>
      intro ys
      cases ys with
      | nil => rfl
      | cons y ys => exact congrArg (g x y (r x y) :: ·) (ih ys)
  unfold mapPairs? helmholtz? mapPairs?
  by_cases hlen : ts.length = ds.length
  · rw [if_pos hlen, if_pos hlen]
    simp only [hfy, bind, Except.bind, Except.map, Columns2.ofJets, List.map_zipWith]
    exact congrArg Except.ok (hzip _ ts ds)
  · rw [if_neg hlen, if_neg hlen]
    rfl

end Fits

/-- Every slot that is asked for at an order is the same at every higher order, for all evaluators
and all scalars. The pressure and the compressibility therefore use the derivative of the residual
by density that the reduced Helmholtz energy reports. -/
theorem slots_eq_of_le {α : Type u} [Zero α] [One α] [Add α] [Sub α] [Mul α] [Neg α] [Div α]
    [NatCast α] [IntCast α] [Transcendental α] [BEq α] {o o' : Order} (h : o ≤ o') :
    ((∀ (f : Elementary1 α) x, (f.eval x o).AgreeUpTo o (f.eval x o')) ∧
      (∀ (f : Elementary2 α) x y, (f.eval x y o).AgreeUpTo o (f.eval x y o'))) ∧
    ((∀ (p : Polynomial1 α) x, (p.horner x o).AgreeUpTo o (p.horner x o') ∧
        (p.directSum x o).AgreeUpTo o (p.directSum x o')) ∧
      (∀ (p : Polynomial2 α) x y, (p.horner x y o).AgreeUpTo o (p.horner x y o') ∧
        (p.directSum x y o).AgreeUpTo o (p.directSum x y o'))) ∧
    ((∀ (e : Expr1 α) x, (e.eval x o).AgreeUpTo o (e.eval x o')) ∧
      (∀ (t : List (Factor1 α)) x,
        (Expr1.evalTerm x o t).AgreeUpTo o (Expr1.evalTerm x o' t)) ∧
      (∀ (e : Expr2 α) x y, (e.eval x y o).AgreeUpTo o (e.eval x y o')) ∧
      (∀ (t : List (Factor2 α)) x y,
        (Expr2.evalTerm x y o t).AgreeUpTo o (Expr2.evalTerm x y o' t))) ∧
    ((∀ (b : Block α) x y, (b.eval x y o).AgreeUpTo o (b.eval x y o')) ∧
      (∀ (b : WeightedBlock α) x y, (b.eval x y o).AgreeUpTo o (b.eval x y o')) ∧
      (∀ (r : Residual α) x y, (r.eval x y o).AgreeUpTo o (r.eval x y o')) ∧
      (∀ (g : IdealGas α) x y, (g.eval x y o).AgreeUpTo o (g.eval x y o'))) ∧
    ∀ (m : Fit α) ts ds,
      m.property? .compressibility ts ds = (m.helmholtz? ts ds .second).map (fun c =>
        List.zipWith (fun p fy => 1 + m.reducedDensity p.2 * fy) (ts.zip ds) c.residual.fy) ∧
      m.property? .pressure ts ds = (m.helmholtz? ts ds .second).map (fun c =>
        List.zipWith (fun p fy => m.r * p.1 * p.2 * (1 + m.reducedDensity p.2 * fy)) (ts.zip ds)
          c.residual.fy) := by
  refine ⟨⟨?_, ?_⟩, ⟨?_, ?_⟩, ⟨?_, ?_, ?_, ?_⟩, ⟨?_, ?_, ?_, ?_⟩, ?_⟩
  · exact fun f x => f.agreeUpTo_eval h x
  · exact fun f x y => f.agreeUpTo_eval h x y
  · exact fun p x => ⟨p.agreeUpTo_horner h x, p.agreeUpTo_directSum h x⟩
  · exact fun p x y => ⟨p.agreeUpTo_horner h x y, p.agreeUpTo_directSum h x y⟩
  · exact fun e x => e.agreeUpTo_eval h x
  · exact fun t x => Expr1.agreeUpTo_mulFactors h t x (.refl o _)
  · exact fun e x y => e.agreeUpTo_eval h x y
  · exact fun t x y => Expr2.agreeUpTo_mulFactors h t x y (.refl o _)
  · exact fun b x y => b.agreeUpTo_eval h x y
  · exact fun b x y => b.agreeUpTo_eval h x y
  · exact fun r x y => r.agreeUpTo_eval h x y
  · exact fun g x y => g.agreeUpTo_eval h x y
  · intro m ts ds
    constructor
    · exact m.mapPairs?_residualAt_fy (fun _ d fy => 1 + m.reducedDensity d * fy) ts ds
    · exact m.mapPairs?_residualAt_fy (fun t d fy => m.r * t * d * (1 + m.reducedDensity d * fy))
        ts ds

def sampleWeightedBlock : WeightedBlock Float :=
  ⟨2, 1, 0.5, -0.5, 1, ⟨[⟨⟨2, 1⟩, 0.25⟩, ⟨⟨0, 3⟩, -4⟩], by simp [Descending, Exponents.lt_def]⟩⟩

/-- First derivatives at a point with a number that is none and with a negative zero. -/
theorem sampleWeightedBlock_slots : Order.first ≤ Order.second ∧
    (sampleWeightedBlock.eval (0 / 0) (-0) .first).AgreeUpTo .first
      (sampleWeightedBlock.eval (0 / 0) (-0) .second) := by
  have hle : Order.first ≤ Order.second := by decide
  exact ⟨hle, (slots_eq_of_le (α := Float) hle).2.2.2.1.2.1 sampleWeightedBlock _ _⟩

end Helmholtz
