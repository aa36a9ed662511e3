import Helmholtz.Scalar
import Helmholtz.Jet.Order

/-! Value, first and second derivative of a function of one variable at one point, with the sum,
product and chain rules.

The second derivative is always formed from the first derivatives before they change. Slots above
the requested order are not computed: a product or a composition leaves there what its left operand
holds, which is zero for every evaluated function. -/

namespace Helmholtz

/-- The value of a function at a point together with its first and second derivative there. -/
@[ext]
structure Jet1 (α : Type u) where
  f : α
  fx : α
  fxx : α
  deriving DecidableEq

namespace Jet1
variable {α : Type u}

section Sum
variable [Add α]

/-- Sum rule. -/
def add (a b : Jet1 α) : Jet1 α := ⟨a.f + b.f, a.fx + b.fx, a.fxx + b.fxx⟩

instance : Add (Jet1 α) := ⟨add⟩

@[simp] theorem add_f (a b : Jet1 α) : (a + b).f = a.f + b.f := rfl

@[simp] theorem add_fx (a b : Jet1 α) : (a + b).fx = a.fx + b.fx := rfl

@[simp] theorem add_fxx (a b : Jet1 α) : (a + b).fxx = a.fxx + b.fxx := rfl

end Sum

variable [Zero α] [One α] [Add α] [Mul α] [NatCast α]

def zero : Jet1 α := ⟨0, 0, 0⟩

def constant (c : α) : Jet1 α := ⟨c, 0, 0⟩

/-- The independent variable itself, at the point `x`. -/
def identity (x : α) (o : Order) : Jet1 α := ⟨x, if o.hasFirst then 1 else 0, 0⟩

/-- Chain rule: `a` is the jet of the outer function at the value of the inner one, `g` is the jet
of the inner function. -/
def compose (a g : Jet1 α) (o : Order) : Jet1 α where
  f := a.f
  fx := if o.hasFirst then a.fx * g.fx else a.fx
  fxx := if o.hasSecond then a.fxx * g.fx * g.fx + a.fx * g.fxx else a.fxx

/-- Product rule: the running product `a` times one more factor `b`. -/
def product (a b : Jet1 α) (o : Order) : Jet1 α where
  f := a.f * b.f
  fx := if o.hasFirst then b.f * a.fx + b.fx * a.f else a.fx
  fxx := if o.hasSecond then a.fxx * b.f + (2 : Nat) * a.fx * b.fx + a.f * b.fxx else a.fxx

/-- Multiplies the value and all derivatives by a constant. -/
def scale (a : Jet1 α) (c : α) : Jet1 α := ⟨a.f * c, a.fx * c, a.fxx * c⟩

end Jet1
end Helmholtz
