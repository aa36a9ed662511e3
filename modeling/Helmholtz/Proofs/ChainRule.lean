import Helmholtz.Jet.Bivariate
import Mathlib.Tactic.Ring

/-! The chain rule at every order.

Composition with a fixed inner function respects constants, sums, multiples and products, and
compositions may be taken in either order. Slots above the requested order are passed on by both
sides of each law in the same way, so that none of them has to be zero. -/

namespace Helmholtz
universe u
variable {α : Type u} [CommRing α] (o : Order)

namespace Jet1
variable (a b g h : Jet1 α)

theorem constant_compose (c : α) : (constant c).compose g o = constant c := by
  cases o <;> ext <;> simp [compose, constant, Order.hasFirst, Order.hasSecond]

theorem zero_compose : (zero : Jet1 α).compose g o = zero := constant_compose o g 0

theorem add_compose : (a + b).compose g o = a.compose g o + b.compose g o := by
  cases o <;> ext <;> simp [compose, Order.hasFirst, Order.hasSecond] <;> ring

theorem scale_compose (c : α) : (a.scale c).compose g o = (a.compose g o).scale c := by
  cases o <;> ext <;> simp [compose, scale, Order.hasFirst, Order.hasSecond] <;> ring

theorem product_compose :
    (a.product b o).compose g o = (a.compose g o).product (b.compose g o) o := by
  cases o <;> ext <;> simp [compose, product, Order.hasFirst, Order.hasSecond] <;> ring

theorem compose_assoc : (a.compose g o).compose h o = a.compose (g.compose h o) o := by
  cases o <;> ext <;> simp [compose, Order.hasFirst, Order.hasSecond] <;> ring

theorem compose_identity (x : α) : a.compose (identity x o) o = a := by
  cases o <;> ext <;> simp [compose, identity, Order.hasFirst, Order.hasSecond]

end Jet1

namespace Jet2
variable (a b : Jet2 α) (g h g' h' : Jet1 α)

theorem constant_compose (c : α) : (constant c).compose g h o = constant c := by
  cases o <;> ext <;> simp [compose, constant, Order.hasFirst, Order.hasSecond]

theorem zero_compose : (zero : Jet2 α).compose g h o = zero := constant_compose o g h 0

theorem add_compose : (a + b).compose g h o = a.compose g h o + b.compose g h o := by
  cases o <;> ext <;> simp [compose, Order.hasFirst, Order.hasSecond] <;> ring

theorem scale_compose (c : α) : (a.scale c).compose g h o = (a.compose g h o).scale c := by
  cases o <;> ext <;> simp [compose, scale, Order.hasFirst, Order.hasSecond] <;> ring

theorem product_compose :
    (a.product b o).compose g h o = (a.compose g h o).product (b.compose g h o) o := by
  cases o <;> ext <;> simp [compose, product, Order.hasFirst, Order.hasSecond] <;> ring

theorem compose_assoc :
    (a.compose g h o).compose g' h' o = a.compose (g.compose g' o) (h.compose h' o) o := by
  cases o <;> ext <;> simp [compose, Jet1.compose, Order.hasFirst, Order.hasSecond] <;> ring

theorem compose_identity (x y : α) :
    a.compose (.identity x o) (.identity y o) o = a := by
  cases o <;> ext <;> simp [compose, Jet1.identity, Order.hasFirst, Order.hasSecond]

/-! Of an inner function only the slots that are asked for are used, and in these the variable
composed with a function is the function. -/

theorem compose_identity_compose_left :
    a.compose ((Jet1.identity g.f o).compose g o) h o = a.compose g h o := by
  cases o <;> ext <;> simp [compose, Jet1.compose, Jet1.identity, Order.hasFirst, Order.hasSecond]

theorem compose_identity_compose_right :
    a.compose g ((Jet1.identity h.f o).compose h o) o = a.compose g h o := by
  cases o <;> ext <;> simp [compose, Jet1.compose, Jet1.identity, Order.hasFirst, Order.hasSecond]

/-! A function of one variable is read as a function of two together with its sums, products and
compositions. What is put in for the other variable leaves no trace. -/

theorem ofX_add : ofX (g + h) = ofX g + ofX h := by
  ext <;> simp [ofX]

theorem ofY_add : ofY (g + h) = ofY g + ofY h := by
  ext <;> simp [ofY]

theorem ofX_product : ofX (g.product h o) = (ofX g).product (ofX h) o := by
  cases o <;> ext <;> simp [ofX, product, Jet1.product, Order.hasFirst, Order.hasSecond]

theorem ofY_product : ofY (g.product h o) = (ofY g).product (ofY h) o := by
  cases o <;> ext <;> simp [ofY, product, Jet1.product, Order.hasFirst, Order.hasSecond]

theorem ofX_compose (f : Jet1 α) : ofX (f.compose g o) = (ofX f).compose g h o := by
  cases o <;> ext <;> simp [ofX, compose, Jet1.compose, Order.hasFirst, Order.hasSecond]

theorem ofY_compose (f : Jet1 α) : ofY (f.compose h o) = (ofY f).compose g h o := by
  cases o <;> ext <;> simp [ofY, compose, Jet1.compose, Order.hasFirst, Order.hasSecond]

end Jet2
end Helmholtz
