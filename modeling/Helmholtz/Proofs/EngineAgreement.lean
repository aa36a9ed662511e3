import Helmholtz.Expr.Bivariate
import Helmholtz.Proofs.Formula

/-! The engines for one and for two variables agree.

A tree in one variable is read as a tree in two variables that depends on one of them only. The
slots of this variable are then the same numbers in both engines, whatever the operations of the
scalars are, since both rules multiply and add in the same order. That all other slots are zero
needs the laws of arithmetic: a zero may have met an infinity. -/

namespace Helmholtz
universe u

def Axis.other : Axis → Axis
  | x => y
  | y => x

/-- An elementary function of one variable, taken of the variable `v`. -/
def Elementary2.of {α : Type u} : Axis → Elementary1 α → Elementary2 α
  | .x => ofX
  | .y => ofY

namespace Expr1
variable {α : Type u}

/-- A node of the variable `v`, with its argument in the place for this variable. -/
def liftNode (v : Axis) (f : Elementary1 α) (arg : Option (Expr1 α)) : Expr2 α :=
  match v with
  | .x => .node (.of .x f) arg none
  | .y => .node (.of .y f) none arg

mutual

/-- A tree in one variable as a tree in two variables that depends on `v` only. Constants, terms and
nested groups stay, and so does everything inside of arguments. -/
def lift (v : Axis) : Expr1 α → Expr2 α
  | .node f arg => liftNode v f arg
  | .group terms => .group (liftTerms v terms)

def liftTerms (v : Axis) : List (List (Factor1 α)) → List (List (Factor2 α))
  | [] => []
  | t :: rest => liftFactors v t :: liftTerms v rest

def liftFactors (v : Axis) : List (Factor1 α) → List (Factor2 α)
  | [] => []
  | .constant c :: rest => .constant c :: liftFactors v rest
  | .expr e :: rest => .expr (e.lift v) :: liftFactors v rest

end
end Expr1

section Slots
variable {α : Type u}

/-- The value and the derivatives by one variable alone. -/
def Jet2.slots : Axis → Jet2 α → Jet1 α
  | .x, a => ⟨a.f, a.fx, a.fxx⟩
  | .y, a => ⟨a.f, a.fy, a.fyy⟩

namespace Jet2
variable (v : Axis)

theorem slots_add [Add α] (a b : Jet2 α) : (a + b).slots v = a.slots v + b.slots v := by
  cases v <;> rfl

theorem slots_scale [Mul α] (a : Jet2 α) (c : α) : (a.scale c).slots v = (a.slots v).scale c := by
  cases v <;> rfl

theorem slots_product [Add α] [Mul α] [NatCast α] (a b : Jet2 α) (o : Order) :
    (a.product b o).slots v = (a.slots v).product (b.slots v) o := by
  cases v <;> rfl

end Jet2

variable [Zero α] [One α] [Add α] [Sub α] [Mul α] [Neg α] [Div α] [NatCast α] [Transcendental α]
  (v : Axis) (x y : α) (o : Order)

theorem Expr1.slots_eval_liftNode (f : Elementary1 α) (arg : Option (Expr1 α)) :
    ((liftNode v f arg).eval x y o).slots v = (node f arg).eval (v.pick x y) o := by
  cases v <;> cases arg <;> rfl

namespace Expr1

mutual

/-- By induction on the tree; sums and products are compared with any that come before them. -/
theorem slots_eval_lift (e : Expr1 α) :
    ((e.lift v).eval x y o).slots v = e.eval (v.pick x y) o := by
  cases e with
  | node f arg => exact slots_eval_liftNode v x y o f arg
  | group terms =>
    have hzero : (Jet2.zero : Jet2 α).slots v = .zero := by cases v <;> rfl
    rw [lift, Expr2.eval, slots_addTerms_lift terms, hzero, eval]

theorem slots_addTerms_lift (terms : List (List (Factor1 α))) (s : Jet2 α) :
    (Expr2.addTerms x y o s (liftTerms v terms)).slots v =
      addTerms (v.pick x y) o (s.slots v) terms := by
  cases terms with
  | nil => rfl
  | cons t rest =>
    have hone : (Jet2.constant 1 : Jet2 α).slots v = .constant 1 := by cases v <;> rfl
    rw [liftTerms, Expr2.addTerms, slots_addTerms_lift rest, Jet2.slots_add,
      slots_mulFactors_lift t, hone, addTerms]

theorem slots_mulFactors_lift (factors : List (Factor1 α)) (p : Jet2 α) :
    (Expr2.mulFactors x y o p (liftFactors v factors)).slots v =
      mulFactors (v.pick x y) o (p.slots v) factors := by
  cases factors with
  | nil => rfl
  | cons a rest =>
    cases a with
    | constant c =>
      rw [liftFactors, Expr2.mulFactors, slots_mulFactors_lift rest, Jet2.slots_scale, mulFactors]
    | expr e =>
      rw [liftFactors, Expr2.mulFactors, slots_mulFactors_lift rest, Jet2.slots_product,
        slots_eval_lift e, mulFactors]

end
end Expr1
end Slots

section Zeros
variable {α : Type u} [Field α]

/-- All derivatives by the variable vanish. -/
def Jet2.ConstantIn : Axis → Jet2 α → Prop
  | .x, a => a.fx = 0 ∧ a.fxx = 0 ∧ a.fxy = 0
  | .y, a => a.fy = 0 ∧ a.fyy = 0 ∧ a.fxy = 0

namespace Jet2.ConstantIn
variable {v : Axis} {a b : Jet2 α}

theorem constant (c : α) : (Jet2.constant c).ConstantIn v := by
  cases v <;> exact ⟨rfl, rfl, rfl⟩

theorem add (ha : a.ConstantIn v) (hb : b.ConstantIn v) : (a + b).ConstantIn v := by
  cases v <;> simp_all [ConstantIn]

theorem scale (ha : a.ConstantIn v) (c : α) : (a.scale c).ConstantIn v := by
  cases v <;> simp_all [ConstantIn, Jet2.scale]

theorem product (ha : a.ConstantIn v) (hb : b.ConstantIn v) (o : Order) :
    (a.product b o).ConstantIn v := by
  cases v <;> simp_all [ConstantIn, Jet2.product]

theorem compose (ha : a.ConstantIn v) (g h : Jet1 α) (o : Order) :
    (a.compose g h o).ConstantIn v := by
  cases v <;> simp_all [ConstantIn, Jet2.compose]

end Jet2.ConstantIn

variable [Transcendental α] (v : Axis) (x y : α) (o : Order)

theorem Elementary2.constantIn_of (f : Elementary1 α) :
    ((of v f).eval x y o).ConstantIn v.other := by
  cases v <;> exact ⟨rfl, rfl, rfl⟩

theorem Expr2.constantIn_evalNode {w : Axis} {f : Elementary2 α}
    (hf : ∀ x y, (f.eval x y o).ConstantIn w) (argx argy : Option (Expr1 α)) :
    (evalNode x y o f argx argy).ConstantIn w := by
  cases argx <;> cases argy
  · exact hf x y
  all_goals exact (hf _ _).compose _ _ o

namespace Expr1

mutual

theorem constantIn_eval_lift (e : Expr1 α) : ((e.lift v).eval x y o).ConstantIn v.other := by
  cases e with
  | node f arg =>
    have hf : ∀ x y, ((Elementary2.of v f).eval x y o).ConstantIn v.other :=
      fun x y => Elementary2.constantIn_of v x y o f
    cases v with
    | x => exact Expr2.constantIn_evalNode x y o hf arg none
    | y => exact Expr2.constantIn_evalNode x y o hf none arg
  | group terms => exact constantIn_addTerms_lift terms (.constant 0)

theorem constantIn_addTerms_lift (terms : List (List (Factor1 α))) {s : Jet2 α}
    (hs : s.ConstantIn v.other) :
    (Expr2.addTerms x y o s (liftTerms v terms)).ConstantIn v.other := by
  cases terms with
  | nil => exact hs
  | cons t rest =>
    exact constantIn_addTerms_lift rest (hs.add (constantIn_mulFactors_lift t (.constant 1)))

theorem constantIn_mulFactors_lift (factors : List (Factor1 α)) {p : Jet2 α}
    (hp : p.ConstantIn v.other) :
    (Expr2.mulFactors x y o p (liftFactors v factors)).ConstantIn v.other := by
  cases factors with
  | nil => exact hp
  | cons a rest =>
    cases a with
    | constant c => exact constantIn_mulFactors_lift rest (hp.scale c)
    | expr e => exact constantIn_mulFactors_lift rest (hp.product (constantIn_eval_lift e) o)

end
end Expr1
end Zeros

/-- A tree in one variable, read as a tree in `x` or in `y`, has the slots in two variables that it
has in one, at every order, at every point and for all scalars; nothing is assumed of their
operations, so that the slots are the same doubles. In exact arithmetic all other slots are zero. -/
theorem lift_eval_eq {α : Type u} :
    (∀ [Zero α] [One α] [Add α] [Sub α] [Mul α] [Neg α] [Div α] [NatCast α] [Transcendental α]
      (e : Expr1 α) (x y : α) (o : Order),
      (let a := (e.lift .x).eval x y o; (⟨a.f, a.fx, a.fxx⟩ : Jet1 α) = e.eval x o) ∧
      (let b := (e.lift .y).eval x y o; (⟨b.f, b.fy, b.fyy⟩ : Jet1 α) = e.eval y o)) ∧
    (∀ [Field α] [Transcendental α] (e : Expr1 α) (x y : α) (o : Order),
      (let a := (e.lift .x).eval x y o; a.fy = 0 ∧ a.fyy = 0 ∧ a.fxy = 0) ∧
      (let b := (e.lift .y).eval x y o; b.fx = 0 ∧ b.fxx = 0 ∧ b.fxy = 0)) := by
  constructor
  · intro _ _ _ _ _ _ _ _ _ e x y o
    exact ⟨e.slots_eval_lift .x x y o, e.slots_eval_lift .y x y o⟩
  · intro _ _ e x y o
    exact ⟨e.constantIn_eval_lift .x x y o, e.constantIn_eval_lift .y x y o⟩

end Helmholtz
