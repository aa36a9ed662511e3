import Helmholtz.Proofs.DirectSum
import Helmholtz.Scalar
import Mathlib.Algebra.Field.Basic
import Mathlib.Tactic.FieldSimp

/-! Formulas in two variables and their derivatives by the rules of the textbook.

Differentiation is a map from formulas to formulas and knows nothing of jets. The jet of a formula
at a point collects the values there of the formula and of its derivatives up to the second order.
-/

namespace Helmholtz
universe u

/-- One of two variables. -/
inductive Axis where
  | x
  | y
  deriving DecidableEq

/-- The coordinate of a point. -/
def Axis.pick {α : Type u} : Axis → α → α → α
  | x, a, _ => a
  | y, _, b => b

/-- A formula in two variables. -/
inductive Formula (α : Type u) where
  | const (c : α)
  | var (v : Axis)
  | add (a b : Formula α)
  | mul (a b : Formula α)
  | neg (a : Formula α)
  | inv (a : Formula α)
  | exp (a : Formula α)
  | log (a : Formula α)
  /-- The power with the exponent `p`. -/
  | pow (a : Formula α) (p : α)

namespace Formula
variable {α : Type u}

instance : Add (Formula α) := ⟨add⟩

instance : Mul (Formula α) := ⟨mul⟩

instance : Neg (Formula α) := ⟨neg⟩

/-- The sum of a list of formulas. -/
def sum [Zero α] : List (Formula α) → Formula α
  | [] => .const 0
  | a :: rest => a + sum rest

/-- The product of `n` times the same formula. -/
def npow [One α] (a : Formula α) : ℕ → Formula α
  | 0 => .const 1
  | n + 1 => a.npow n * a

/-- The derivative by the variable `v`: the sum and product rules, and the chain rule for
`(1 / u)' = -1 / (u u)`, `(exp u)' = exp u`, `(ln u)' = 1 / u` and `(u ^ p)' = p u ^ p / u`. -/
def deriv [Zero α] [One α] (v : Axis) : Formula α → Formula α
  | const _ => .const 0
  | var w => .const (if w = v then 1 else 0)
  | add a b => a.deriv v + b.deriv v
  | mul a b => a.deriv v * b + a * b.deriv v
  | neg a => -a.deriv v
  | inv a => -(a.inv * a.inv) * a.deriv v
  | exp a => a.exp * a.deriv v
  | log a => a.inv * a.deriv v
  | pow a p => .const p * a.pow p * a.inv * a.deriv v

section Deriv
variable [Zero α] [One α] (v : Axis) (a b : Formula α)

@[simp] theorem deriv_add : (a + b).deriv v = a.deriv v + b.deriv v := rfl

@[simp] theorem deriv_mul : (a * b).deriv v = a.deriv v * b + a * b.deriv v := rfl

@[simp] theorem deriv_neg : (-a).deriv v = -a.deriv v := rfl

end Deriv

variable [Field α] [Transcendental α]

/-- The value at a point. -/
def value (x y : α) : Formula α → α
  | const c => c
  | var v => v.pick x y
  | add a b => a.value x y + b.value x y
  | mul a b => a.value x y * b.value x y
  | neg a => -a.value x y
  | inv a => (a.value x y)⁻¹
  | exp a => Transcendental.exp (a.value x y)
  | log a => Transcendental.log (a.value x y)
  | pow a p => Transcendental.pow (a.value x y) p

/-- The values of a formula and of its partial derivatives at a point. -/
def jet (x y : α) (a : Formula α) : Jet2 α where
  f := a.value x y
  fx := (a.deriv .x).value x y
  fy := (a.deriv .y).value x y
  fxx := ((a.deriv .x).deriv .x).value x y
  fxy := ((a.deriv .x).deriv .y).value x y
  fyy := ((a.deriv .y).deriv .y).value x y

section Value
variable (x y : α) (a b : Formula α)

@[simp] theorem value_add : (a + b).value x y = a.value x y + b.value x y := rfl

@[simp] theorem value_mul : (a * b).value x y = a.value x y * b.value x y := rfl

@[simp] theorem value_neg : (-a).value x y = -a.value x y := rfl

@[simp] theorem jet_f : (a.jet x y).f = a.value x y := rfl

end Value
end Formula

namespace Jet2
variable {α : Type u} [CommRing α]

/-- A function of one variable, read as a function of the variable `v`. -/
def along : Axis → Jet1 α →+* Jet2 α
  | .x => ofXHom
  | .y => ofYHom

/-- The chain rule for a function of one variable after a fixed function of two, as a map of the
outer function. -/
def chainHom (j : Jet2 α) : Jet1 α →+* Jet2 α where
  toFun h := ⟨h.f, h.fx * j.fx, h.fx * j.fy, h.fxx * j.fx * j.fx + h.fx * j.fxx,
    h.fxx * j.fx * j.fy + h.fx * j.fxy, h.fxx * j.fy * j.fy + h.fx * j.fyy⟩
  map_zero' := by ext <;> simp [zero_def, Jet1.zero_def]
  map_one' := by ext <;> simp [one_def, Jet1.one_def]
  map_add' a b := by ext <;> simp <;> ring
  map_mul' a b := by ext <;> simp only [mul_def, Jet1.mul_def] <;> ring

theorem chainHom_apply (j : Jet2 α) (h : Jet1 α) : chainHom j h =
    ⟨h.f, h.fx * j.fx, h.fx * j.fy, h.fxx * j.fx * j.fx + h.fx * j.fxx,
      h.fxx * j.fx * j.fy + h.fx * j.fxy, h.fxx * j.fy * j.fy + h.fx * j.fyy⟩ := rfl

theorem chainHom_constant (j : Jet2 α) (c : α) : chainHom j (.constant c) = constant c := by
  ext <;> simp [chainHom_apply, Jet1.constant, constant]

theorem chainHom_var (j : Jet2 α) : chainHom j (.var j.f) = j := by
  ext <;> simp [chainHom_apply, Jet1.identity, Order.hasFirst]

theorem chainHom_along (v : Axis) (g h : Jet1 α) :
    chainHom (along v g) h = along v (h.compose g .second) := by
  cases v <;> ext <;> simp [chainHom_apply, along, ofXHom_apply, ofYHom_apply, ofX, ofY,
    Jet1.compose, Order.hasFirst, Order.hasSecond]

theorem along_f (v : Axis) (a : Jet1 α) : (along v a).f = a.f := by
  cases v <;> rfl

theorem along_constant (v : Axis) (c : α) : along v (.constant c) = constant c := by
  cases v <;> rfl

end Jet2

namespace Formula
variable {α : Type u} [Field α] [Transcendental α] (x y : α)

theorem jet_const (c : α) : (const c).jet x y = .constant c := rfl

theorem jet_var (v : Axis) : (var v).jet x y = Jet2.along v (.var (v.pick x y)) := by
  cases v <;> ext <;> simp [jet, deriv, value, Axis.pick, Jet2.along, Jet2.ofXHom_apply,
    Jet2.ofYHom_apply, Jet2.ofX, Jet2.ofY, Jet1.identity, Order.hasFirst]

theorem jet_add (a b : Formula α) : (a + b).jet x y = a.jet x y + b.jet x y := rfl

theorem jet_mul (a b : Formula α) : (a * b).jet x y = a.jet x y * b.jet x y := by
  ext <;> simp [jet, Jet2.mul_def] <;> ring

theorem jet_neg (a : Formula α) : (-a).jet x y = -a.jet x y := rfl

theorem jet_sum (l : List (Formula α)) : (sum l).jet x y = (l.map (·.jet x y)).sum := by
  induction l with
  | nil => rfl
  | cons a rest ih => rw [sum, jet_add, ih, List.map_cons, List.sum_cons]

theorem jet_npow (a : Formula α) (n : ℕ) : (a.npow n).jet x y = a.jet x y ^ n := by
  induction n with
  | zero => rfl
  | succ n ih => rw [npow, jet_mul, ih, pow_succ]

/-! The rules for functions of one variable, at second order. -/

theorem jet_inv (a : Formula α) : (inv a).jet x y =
    let i := (a.value x y)⁻¹
    Jet2.chainHom (a.jet x y) ⟨i, -(i * i), 2 * (i * i * i)⟩ := by
  ext <;> simp only [jet, deriv, value, value_add, value_mul, Jet2.chainHom_apply] <;> ring

theorem jet_exp (a : Formula α) : (exp a).jet x y =
    let e := Transcendental.exp (a.value x y)
    Jet2.chainHom (a.jet x y) ⟨e, e, e⟩ := by
  ext <;> simp only [jet, deriv, value, deriv_mul, value_add, value_mul, Jet2.chainHom_apply]
  all_goals ring

theorem jet_log (a : Formula α) : (log a).jet x y =
    let i := (a.value x y)⁻¹
    Jet2.chainHom (a.jet x y) ⟨Transcendental.log (a.value x y), i, -(i * i)⟩ := by
  ext <;> simp only [jet, deriv, value, deriv_mul, value_add, value_mul, Jet2.chainHom_apply]
  all_goals ring

theorem jet_pow (a : Formula α) (p : α) : (pow a p).jet x y =
    let w := Transcendental.pow (a.value x y) p
    let i := (a.value x y)⁻¹
    Jet2.chainHom (a.jet x y) ⟨w, p * w * i, (p - 1) * (p * w * i) * i⟩ := by
  ext <;> simp only [jet, deriv, value, deriv_mul, value_add, value_mul, Jet2.chainHom_apply]
    <;> ring

end Formula
end Helmholtz
