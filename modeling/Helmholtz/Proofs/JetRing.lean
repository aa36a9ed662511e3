import Helmholtz.Proofs.ChainRule
import Mathlib.Algebra.Ring.Hom.Defs

/-! Jets of second order form commutative rings under the sum rule and the product rule, and the
chain rule is a ring homomorphism in the outer function. Sums of products of jets are therefore
rearranged like numbers, without another look at their slots. -/

namespace Helmholtz
universe u
variable {α : Type u} [CommRing α]

namespace Jet1

instance : Zero (Jet1 α) := ⟨zero⟩

instance : One (Jet1 α) := ⟨constant 1⟩

instance : Neg (Jet1 α) := ⟨fun a => ⟨-a.f, -a.fx, -a.fxx⟩⟩

instance : Mul (Jet1 α) := ⟨fun a b => a.product b .second⟩

theorem zero_def : (0 : Jet1 α) = ⟨0, 0, 0⟩ := rfl

theorem one_def : (1 : Jet1 α) = ⟨1, 0, 0⟩ := rfl

theorem mul_def (a b : Jet1 α) : a * b =
    ⟨a.f * b.f, b.f * a.fx + b.fx * a.f, a.fxx * b.f + (2 : ℕ) * a.fx * b.fx + a.f * b.fxx⟩ := rfl

instance : CommRing (Jet1 α) where
  add_assoc a b c := Jet1.ext (add_assoc ..) (add_assoc ..) (add_assoc ..)
  zero_add a := Jet1.ext (zero_add _) (zero_add _) (zero_add _)
  add_zero a := Jet1.ext (add_zero _) (add_zero _) (add_zero _)
  add_comm a b := Jet1.ext (add_comm ..) (add_comm ..) (add_comm ..)
  neg_add_cancel a := Jet1.ext (neg_add_cancel _) (neg_add_cancel _) (neg_add_cancel _)
  nsmul := nsmulRec
  zsmul := zsmulRec
  mul_assoc a b c := by ext <;> simp only [mul_def] <;> ring
  mul_comm a b := by ext <;> simp only [mul_def] <;> ring
  one_mul a := by ext <;> simp only [mul_def, one_def] <;> ring
  mul_one a := by ext <;> simp only [mul_def, one_def] <;> ring
  zero_mul a := by ext <;> simp only [mul_def, zero_def] <;> ring
  mul_zero a := by ext <;> simp only [mul_def, zero_def] <;> ring
  left_distrib a b c := by ext <;> simp only [mul_def, add_f, add_fx, add_fxx] <;> ring
  right_distrib a b c := by ext <;> simp only [mul_def, add_f, add_fx, add_fxx] <;> ring

/-- The jet of the variable at the point `x`. -/
abbrev var (x : α) : Jet1 α := identity x .second

theorem zero_eq : (zero : Jet1 α) = 0 := rfl

theorem product_second (a b : Jet1 α) : a.product b .second = a * b := rfl

theorem scale_eq_mul (a : Jet1 α) (c : α) : a.scale c = a * constant c := by
  ext <;> simp only [scale, constant, mul_def] <;> ring

/-- The chain rule for a fixed inner function, as a map of the outer function. -/
def composeHom (g : Jet1 α) : Jet1 α →+* Jet1 α where
  toFun a := a.compose g .second
  map_zero' := zero_compose .second g
  map_one' := constant_compose .second g 1
  map_add' a b := add_compose .second a b g
  map_mul' a b := product_compose .second a b g

theorem composeHom_apply (g a : Jet1 α) : composeHom g a = a.compose g .second := rfl

@[simp] theorem composeHom_constant (g : Jet1 α) (c : α) :
    composeHom g (constant c) = constant c :=
  constant_compose .second g c

/-- The variable, read at the value of the inner function, becomes the inner function. -/
@[simp] theorem composeHom_var (g : Jet1 α) : composeHom g (var g.f) = g := by
  ext <;> simp [composeHom_apply, compose, identity, Order.hasFirst, Order.hasSecond]

end Jet1

namespace Jet2

instance : Zero (Jet2 α) := ⟨zero⟩

instance : One (Jet2 α) := ⟨constant 1⟩

instance : Neg (Jet2 α) := ⟨fun a => ⟨-a.f, -a.fx, -a.fy, -a.fxx, -a.fxy, -a.fyy⟩⟩

instance : Mul (Jet2 α) := ⟨fun a b => a.product b .second⟩

theorem zero_def : (0 : Jet2 α) = ⟨0, 0, 0, 0, 0, 0⟩ := rfl

theorem one_def : (1 : Jet2 α) = ⟨1, 0, 0, 0, 0, 0⟩ := rfl

theorem mul_def (a b : Jet2 α) : a * b =
    ⟨a.f * b.f, b.f * a.fx + b.fx * a.f, b.f * a.fy + b.fy * a.f,
      a.fxx * b.f + (2 : ℕ) * a.fx * b.fx + a.f * b.fxx,
      a.fxy * b.f + a.fx * b.fy + a.fy * b.fx + a.f * b.fxy,
      a.fyy * b.f + (2 : ℕ) * a.fy * b.fy + a.f * b.fyy⟩ := rfl

instance : CommRing (Jet2 α) where
  add_assoc a b c := by ext <;> exact add_assoc ..
  zero_add a := by ext <;> exact zero_add _
  add_zero a := by ext <;> exact add_zero _
  add_comm a b := by ext <;> exact add_comm ..
  neg_add_cancel a := by ext <;> exact neg_add_cancel _
  nsmul := nsmulRec
  zsmul := zsmulRec
  mul_assoc a b c := by ext <;> simp only [mul_def] <;> ring
  mul_comm a b := by ext <;> simp only [mul_def] <;> ring
  one_mul a := by ext <;> simp only [mul_def, one_def] <;> ring
  mul_one a := by ext <;> simp only [mul_def, one_def] <;> ring
  zero_mul a := by ext <;> simp only [mul_def, zero_def] <;> ring
  mul_zero a := by ext <;> simp only [mul_def, zero_def] <;> ring
  left_distrib a b c := by
    ext <;> simp only [mul_def, add_f, add_fx, add_fy, add_fxx, add_fxy, add_fyy] <;> ring
  right_distrib a b c := by
    ext <;> simp only [mul_def, add_f, add_fx, add_fy, add_fxx, add_fxy, add_fyy] <;> ring

/-- The jet of the variable `x` at the point `x`. -/
abbrev varX (x : α) : Jet2 α := ofX (.var x)

/-- The jet of the variable `y` at the point `y`. -/
abbrev varY (y : α) : Jet2 α := ofY (.var y)

theorem zero_eq : (zero : Jet2 α) = 0 := rfl

theorem product_second (a b : Jet2 α) : a.product b .second = a * b := rfl

theorem scale_eq_mul (a : Jet2 α) (c : α) : a.scale c = a * constant c := by
  ext <;> simp only [scale, constant, mul_def] <;> ring

/-- The value of a function, without its derivatives. -/
def valueHom : Jet2 α →+* α where
  toFun := f
  map_zero' := rfl
  map_one' := rfl
  map_add' _ _ := rfl
  map_mul' _ _ := rfl

/-- A function of one variable, read as a function of `x`. -/
def ofXHom : Jet1 α →+* Jet2 α where
  toFun := ofX
  map_zero' := rfl
  map_one' := rfl
  map_add' a b := by ext <;> simp [ofX]
  map_mul' a b := by ext <;> simp [ofX, mul_def, Jet1.mul_def]

/-- A function of one variable, read as a function of `y`. -/
def ofYHom : Jet1 α →+* Jet2 α where
  toFun := ofY
  map_zero' := rfl
  map_one' := rfl
  map_add' a b := by ext <;> simp [ofY]
  map_mul' a b := by ext <;> simp [ofY, mul_def, Jet1.mul_def]

theorem ofXHom_apply (a : Jet1 α) : ofXHom a = ofX a := rfl

theorem ofYHom_apply (a : Jet1 α) : ofYHom a = ofY a := rfl

theorem varX_pow (x : α) (n : ℕ) : varX x ^ n = ofX (.var x ^ n) := (map_pow ofXHom _ n).symm

theorem varY_pow (y : α) (n : ℕ) : varY y ^ n = ofY (.var y ^ n) := (map_pow ofYHom _ n).symm

theorem ofY_constant (c : α) : ofY (.constant c) = constant c := rfl

/-- The chain rule for fixed inner functions, as a map of the outer function. -/
def composeHom (g h : Jet1 α) : Jet2 α →+* Jet2 α where
  toFun a := a.compose g h .second
  map_zero' := zero_compose .second g h
  map_one' := constant_compose .second g h 1
  map_add' a b := add_compose .second a b g h
  map_mul' a b := product_compose .second a b g h

theorem composeHom_apply (g h : Jet1 α) (a : Jet2 α) :
    composeHom g h a = a.compose g h .second := rfl

@[simp] theorem composeHom_constant (g h : Jet1 α) (c : α) :
    composeHom g h (constant c) = constant c :=
  constant_compose .second g h c

theorem composeHom_ofX (g h a : Jet1 α) : composeHom g h (ofX a) = ofX (Jet1.composeHom g a) :=
  (ofX_compose .second g h a).symm

theorem composeHom_ofY (g h a : Jet1 α) : composeHom g h (ofY a) = ofY (Jet1.composeHom h a) :=
  (ofY_compose .second g h a).symm

end Jet2
end Helmholtz
