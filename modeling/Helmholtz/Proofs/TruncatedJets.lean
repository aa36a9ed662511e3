import Helmholtz.Proofs.HornerAgreement
import Mathlib.Algebra.Ring.MinimalAxioms

/-! Jets that are zero above an order form a commutative ring at this order.

The product rule passes on what its left operand holds above the order, so that it commutes only on
jets which hold nothing there. All trees over a ring are evaluated to such jets. -/

namespace Helmholtz
universe u

/-- A jet with zeros in the slots above an order. -/
@[ext]
structure Jet1.Truncated (α : Type u) [Ring α] (o : Order) where
  jet : Jet1 α
  zeroAbove : jet.ZeroAbove o

/-- A jet with zeros in the slots above an order. -/
@[ext]
structure Jet2.Truncated (α : Type u) [Ring α] (o : Order) where
  jet : Jet2 α
  zeroAbove : jet.ZeroAbove o

variable {α : Type u} [CommRing α] {o : Order}

namespace Jet1.Truncated

@[simp] theorem fx_zeroth (a : Truncated α .zeroth) : a.jet.fx = 0 := a.zeroAbove.fx rfl

@[simp] theorem fxx_zeroth (a : Truncated α .zeroth) : a.jet.fxx = 0 := a.zeroAbove.fxx rfl

@[simp] theorem fxx_first (a : Truncated α .first) : a.jet.fxx = 0 := a.zeroAbove.fxx rfl

/-- A function that does not depend on the variable. -/
def constant (c : α) : Truncated α o := ⟨.constant c, .constant c⟩

instance : Zero (Truncated α o) := ⟨⟨.zero, .zero⟩⟩

instance : One (Truncated α o) := ⟨constant 1⟩

instance : Add (Truncated α o) := ⟨fun a b => ⟨a.jet + b.jet, a.zeroAbove.add b.zeroAbove⟩⟩

instance : Neg (Truncated α o) := ⟨fun a => ⟨-a.jet,
  ⟨fun h => neg_eq_zero.mpr (a.zeroAbove.fx h), fun h => neg_eq_zero.mpr (a.zeroAbove.fxx h)⟩⟩⟩

instance : Mul (Truncated α o) := ⟨fun a b => ⟨a.jet.product b.jet o, a.zeroAbove.product⟩⟩

theorem one_jet : (1 : Truncated α o).jet = .constant 1 := rfl

theorem add_jet (a b : Truncated α o) : (a + b).jet = a.jet + b.jet := rfl

theorem mul_jet (a b : Truncated α o) : (a * b).jet = a.jet.product b.jet o := rfl

instance : CommRing (Truncated α o) :=
  .ofMinimalAxioms
    (fun a b c => Truncated.ext (add_assoc a.jet b.jet c.jet))
    (fun a => Truncated.ext (zero_add a.jet))
    (fun a => Truncated.ext (neg_add_cancel a.jet))
    (by
      intro a b c
      cases o <;> ext <;>
        simp [mul_jet, product, Order.hasFirst, Order.hasSecond] <;> ring)
    (by
      intro a b
      cases o <;> ext <;>
        simp [mul_jet, product, Order.hasFirst, Order.hasSecond] <;> ring)
    (by
      intro a
      cases o <;> ext <;>
        simp [mul_jet, one_jet, Jet1.constant, product, Order.hasFirst, Order.hasSecond])
    (by
      intro a b c
      cases o <;> ext <;>
        simp [mul_jet, add_jet, product, Order.hasFirst, Order.hasSecond] <;> ring)

theorem scale_jet (a : Truncated α o) (c : α) : a.jet.scale c = (a * constant c).jet := by
  cases o <;> ext <;>
    simp [mul_jet, constant, Jet1.constant, scale, product, Order.hasFirst, Order.hasSecond] <;>
    ring

/-- The variable, read at the value of the inner function, becomes the inner function. -/
theorem identity_compose_jet (g : Truncated α o) :
    (identity g.jet.f o).compose g.jet o = g.jet := by
  cases o <;> ext <;> simp [identity, compose, Order.hasFirst, Order.hasSecond]

end Jet1.Truncated

namespace Jet2.Truncated

@[simp] theorem fx_zeroth (a : Truncated α .zeroth) : a.jet.fx = 0 := a.zeroAbove.fx rfl

@[simp] theorem fy_zeroth (a : Truncated α .zeroth) : a.jet.fy = 0 := a.zeroAbove.fy rfl

@[simp] theorem fxx_zeroth (a : Truncated α .zeroth) : a.jet.fxx = 0 := a.zeroAbove.fxx rfl

@[simp] theorem fxy_zeroth (a : Truncated α .zeroth) : a.jet.fxy = 0 := a.zeroAbove.fxy rfl

@[simp] theorem fyy_zeroth (a : Truncated α .zeroth) : a.jet.fyy = 0 := a.zeroAbove.fyy rfl

@[simp] theorem fxx_first (a : Truncated α .first) : a.jet.fxx = 0 := a.zeroAbove.fxx rfl

@[simp] theorem fxy_first (a : Truncated α .first) : a.jet.fxy = 0 := a.zeroAbove.fxy rfl

@[simp] theorem fyy_first (a : Truncated α .first) : a.jet.fyy = 0 := a.zeroAbove.fyy rfl

/-- A function that does not depend on the variables. -/
def constant (c : α) : Truncated α o := ⟨.constant c, .constant c⟩

instance : Zero (Truncated α o) := ⟨⟨.zero, .zero⟩⟩

instance : One (Truncated α o) := ⟨constant 1⟩

instance : Add (Truncated α o) := ⟨fun a b => ⟨a.jet + b.jet, a.zeroAbove.add b.zeroAbove⟩⟩

instance : Neg (Truncated α o) := ⟨fun a => ⟨-a.jet,
  ⟨fun h => neg_eq_zero.mpr (a.zeroAbove.fx h), fun h => neg_eq_zero.mpr (a.zeroAbove.fy h),
    fun h => neg_eq_zero.mpr (a.zeroAbove.fxx h), fun h => neg_eq_zero.mpr (a.zeroAbove.fxy h),
    fun h => neg_eq_zero.mpr (a.zeroAbove.fyy h)⟩⟩⟩

instance : Mul (Truncated α o) := ⟨fun a b => ⟨a.jet.product b.jet o, a.zeroAbove.product⟩⟩

theorem one_jet : (1 : Truncated α o).jet = .constant 1 := rfl

theorem add_jet (a b : Truncated α o) : (a + b).jet = a.jet + b.jet := rfl

theorem mul_jet (a b : Truncated α o) : (a * b).jet = a.jet.product b.jet o := rfl

instance : CommRing (Truncated α o) :=
  .ofMinimalAxioms
    (fun a b c => Truncated.ext (add_assoc a.jet b.jet c.jet))
    (fun a => Truncated.ext (zero_add a.jet))
    (fun a => Truncated.ext (neg_add_cancel a.jet))
    (by
      intro a b c
      cases o <;> ext <;>
        simp [mul_jet, product, Order.hasFirst, Order.hasSecond] <;> ring)
    (by
      intro a b
      cases o <;> ext <;>
        simp [mul_jet, product, Order.hasFirst, Order.hasSecond] <;> ring)
    (by
      intro a
      cases o <;> ext <;>
        simp [mul_jet, one_jet, Jet2.constant, product, Order.hasFirst, Order.hasSecond])
    (by
      intro a b c
      cases o <;> ext <;>
        simp [mul_jet, add_jet, product, Order.hasFirst, Order.hasSecond] <;> ring)

theorem scale_jet (a : Truncated α o) (c : α) : a.jet.scale c = (a * constant c).jet := by
  cases o <;> ext <;>
    simp [mul_jet, constant, Jet2.constant, scale, product, Order.hasFirst, Order.hasSecond] <;>
    ring

end Jet2.Truncated
end Helmholtz
