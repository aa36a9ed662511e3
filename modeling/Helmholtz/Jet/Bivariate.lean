import Helmholtz.Jet.Univariate

/-! Value, gradient and Hessian of a function of two variables at one point, with the sum, product
and chain rules. The rules and the treatment of slots above the requested order are those of one
variable, taken in `x`, in `y` and once in each. -/

namespace Helmholtz

/-- The value of a function of two variables at a point with its five partial derivatives of first
and second order there. -/
@[ext]
structure Jet2 (α : Type u) where
  f : α
  fx : α
  fy : α
  fxx : α
  fxy : α
  fyy : α
  deriving DecidableEq

namespace Jet2
variable {α : Type u}

section Sum
variable [Add α]

/-- Sum rule. -/
def add (a b : Jet2 α) : Jet2 α :=
  ⟨a.f + b.f, a.fx + b.fx, a.fy + b.fy, a.fxx + b.fxx, a.fxy + b.fxy, a.fyy + b.fyy⟩

instance : Add (Jet2 α) := ⟨add⟩

@[simp] theorem add_f (a b : Jet2 α) : (a + b).f = a.f + b.f := rfl

@[simp] theorem add_fx (a b : Jet2 α) : (a + b).fx = a.fx + b.fx := rfl

@[simp] theorem add_fy (a b : Jet2 α) : (a + b).fy = a.fy + b.fy := rfl

@[simp] theorem add_fxx (a b : Jet2 α) : (a + b).fxx = a.fxx + b.fxx := rfl

@[simp] theorem add_fxy (a b : Jet2 α) : (a + b).fxy = a.fxy + b.fxy := rfl

@[simp] theorem add_fyy (a b : Jet2 α) : (a + b).fyy = a.fyy + b.fyy := rfl

end Sum

variable [Zero α] [Add α] [Mul α] [NatCast α]

def zero : Jet2 α := ⟨0, 0, 0, 0, 0, 0⟩

def constant (c : α) : Jet2 α := ⟨c, 0, 0, 0, 0, 0⟩

/-- A function of `x` alone. -/
def ofX (a : Jet1 α) : Jet2 α := ⟨a.f, a.fx, 0, a.fxx, 0, 0⟩

/-- A function of `y` alone. -/
def ofY (a : Jet1 α) : Jet2 α := ⟨a.f, 0, a.fx, 0, 0, a.fxx⟩

/-- Chain rule for independent substitutions `g` for `x` and `h` for `y`. As `g` does not depend on
`y` nor `h` on `x`, the mixed derivative is only multiplied by both inner slopes. -/
def compose (a : Jet2 α) (g h : Jet1 α) (o : Order) : Jet2 α where
  f := a.f
  fx := if o.hasFirst then a.fx * g.fx else a.fx
  fy := if o.hasFirst then a.fy * h.fx else a.fy
  fxx := if o.hasSecond then a.fxx * g.fx * g.fx + a.fx * g.fxx else a.fxx
  fxy := if o.hasSecond then a.fxy * g.fx * h.fx else a.fxy
  fyy := if o.hasSecond then a.fyy * h.fx * h.fx + a.fy * h.fxx else a.fyy

/-- Product rule: the running product `a` times one more factor `b`. -/
def product (a b : Jet2 α) (o : Order) : Jet2 α where
  f := a.f * b.f
  fx := if o.hasFirst then b.f * a.fx + b.fx * a.f else a.fx
  fy := if o.hasFirst then b.f * a.fy + b.fy * a.f else a.fy
  fxx := if o.hasSecond then a.fxx * b.f + (2 : Nat) * a.fx * b.fx + a.f * b.fxx else a.fxx
  fxy := if o.hasSecond then a.fxy * b.f + a.fx * b.fy + a.fy * b.fx + a.f * b.fxy else a.fxy
  fyy := if o.hasSecond then a.fyy * b.f + (2 : Nat) * a.fy * b.fy + a.f * b.fyy else a.fyy

/-- Multiplies the value and all derivatives by a constant. -/
def scale (a : Jet2 α) (c : α) : Jet2 α :=
  ⟨a.f * c, a.fx * c, a.fy * c, a.fxx * c, a.fxy * c, a.fyy * c⟩

end Jet2
end Helmholtz
