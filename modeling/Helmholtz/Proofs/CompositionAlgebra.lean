import Helmholtz.Proofs.TruncatedJets

/-! The laws of sums, products and compositions of jets at every order.

Jets that are zero above the order are closed under all operations, form a commutative ring, and are
composed by ring homomorphisms. The chain rule needs no zeros above the order; the product rule and
the multiples do, since they leave or multiply what their left operand holds there. -/

namespace Helmholtz
universe u

/-- How jets in one variable that are zero above the order calculate. Inner functions may hold
anything above it. -/
structure Jet1.CompositionAlgebra (α : Type u) [CommRing α] (o : Order) : Prop where
  identity_zeroAbove (x : α) : (identity x o).ZeroAbove o
  constant_zeroAbove (c : α) : (constant c).ZeroAbove o
  add_zeroAbove (a b : Truncated α o) : (a.jet + b.jet).ZeroAbove o
  scale_zeroAbove (a : Truncated α o) (c : α) : (a.jet.scale c).ZeroAbove o
  product_zeroAbove (a b : Truncated α o) : (a.jet.product b.jet o).ZeroAbove o
  compose_zeroAbove (a : Truncated α o) (g : Jet1 α) : (a.jet.compose g o).ZeroAbove o
  /-- The sum rule and the product rule are the operations of a commutative ring. -/
  ring : ∃ R : CommRing (Truncated α o), R.zero.jet = .zero ∧ R.one.jet = .constant 1 ∧
    (∀ a b, (R.add a b).jet = a.jet + b.jet) ∧ ∀ a b, (R.mul a b).jet = a.jet.product b.jet o
  scale_eq_product (a : Truncated α o) (c : α) : a.jet.scale c = a.jet.product (constant c) o
  /-- Composition with a fixed inner function fixes constants, zero and one among them. -/
  constant_compose (c : α) (g : Jet1 α) : (constant c).compose g o = constant c
  add_compose (a b g : Jet1 α) : (a + b).compose g o = a.compose g o + b.compose g o
  product_compose (a b g : Jet1 α) :
    (a.product b o).compose g o = (a.compose g o).product (b.compose g o) o
  compose_assoc (a g h : Jet1 α) : (a.compose g o).compose h o = a.compose (g.compose h o) o
  compose_identity (a : Jet1 α) (x : α) : a.compose (identity x o) o = a
  identity_compose (g : Truncated α o) : (identity g.jet.f o).compose g.jet o = g.jet

/-- How jets in two variables that are zero above the order calculate. Inner functions may hold
anything above it. -/
structure Jet2.CompositionAlgebra (α : Type u) [CommRing α] (o : Order) : Prop where
  constant_zeroAbove (c : α) : (constant c).ZeroAbove o
  ofX_zeroAbove (f : Jet1.Truncated α o) : (ofX f.jet).ZeroAbove o
  ofY_zeroAbove (f : Jet1.Truncated α o) : (ofY f.jet).ZeroAbove o
  add_zeroAbove (a b : Truncated α o) : (a.jet + b.jet).ZeroAbove o
  scale_zeroAbove (a : Truncated α o) (c : α) : (a.jet.scale c).ZeroAbove o
  product_zeroAbove (a b : Truncated α o) : (a.jet.product b.jet o).ZeroAbove o
  compose_zeroAbove (a : Truncated α o) (g h : Jet1 α) : (a.jet.compose g h o).ZeroAbove o
  /-- The sum rule and the product rule are the operations of a commutative ring. -/
  ring : ∃ R : CommRing (Truncated α o), R.zero.jet = .zero ∧ R.one.jet = .constant 1 ∧
    (∀ a b, (R.add a b).jet = a.jet + b.jet) ∧ ∀ a b, (R.mul a b).jet = a.jet.product b.jet o
  scale_eq_product (a : Truncated α o) (c : α) : a.jet.scale c = a.jet.product (constant c) o
  /-- Composition with a fixed pair of inner functions fixes constants, zero and one among them. -/
  constant_compose (c : α) (g h : Jet1 α) : (constant c).compose g h o = constant c
  add_compose (a b : Jet2 α) (g h : Jet1 α) :
    (a + b).compose g h o = a.compose g h o + b.compose g h o
  product_compose (a b : Jet2 α) (g h : Jet1 α) :
    (a.product b o).compose g h o = (a.compose g h o).product (b.compose g h o) o
  compose_assoc (a : Jet2 α) (g h g' h' : Jet1 α) :
    (a.compose g h o).compose g' h' o = a.compose (g.compose g' o) (h.compose h' o) o
  compose_identity (a : Jet2 α) (x y : α) :
    a.compose (.identity x o) (.identity y o) o = a
  /-- Each variable becomes the function that is put in for it. -/
  identity_compose (g h : Jet1.Truncated α o) :
    (ofX (.identity g.jet.f o)).compose g.jet h.jet o = ofX g.jet ∧
    (ofY (.identity h.jet.f o)).compose g.jet h.jet o = ofY h.jet
  /-- Functions of one variable are read as functions of two with their constants. -/
  of_constant (c : α) : ofX (.constant c) = constant c ∧ ofY (.constant c) = constant c
  of_add (f g : Jet1 α) : ofX (f + g) = ofX f + ofX g ∧ ofY (f + g) = ofY f + ofY g
  of_product (f g : Jet1 α) : ofX (f.product g o) = (ofX f).product (ofX g) o ∧
    ofY (f.product g o) = (ofY f).product (ofY g) o
  /-- What is put in for the other variable does not matter. -/
  of_compose (f g h : Jet1 α) : ofX (f.compose g o) = (ofX f).compose g h o ∧
    ofY (f.compose h o) = (ofY f).compose g h o

section Laws
variable {α : Type u} [CommRing α] (o : Order)

theorem Jet1.compositionAlgebra : CompositionAlgebra α o where
  identity_zeroAbove x := .identity x
  constant_zeroAbove c := .constant c
  add_zeroAbove a b := a.zeroAbove.add b.zeroAbove
  scale_zeroAbove a c := a.zeroAbove.scale trivial
  product_zeroAbove a b := a.zeroAbove.product
  compose_zeroAbove a g := a.zeroAbove.compose
  ring := by
    refine ⟨inferInstance, ?_, ?_, ?_, ?_⟩
    · rfl
    · rfl
    · exact Truncated.add_jet
    · exact Truncated.mul_jet
  scale_eq_product a c := a.scale_jet c
  constant_compose c g := Jet1.constant_compose o g c
  add_compose a b g := Jet1.add_compose o a b g
  product_compose a b g := Jet1.product_compose o a b g
  compose_assoc a g h := Jet1.compose_assoc o a g h
  compose_identity a x := Jet1.compose_identity o a x
  identity_compose g := g.identity_compose_jet

theorem Jet2.compositionAlgebra : CompositionAlgebra α o where
  constant_zeroAbove c := .constant c
  ofX_zeroAbove f := f.zeroAbove.ofX
  ofY_zeroAbove f := f.zeroAbove.ofY
  add_zeroAbove a b := a.zeroAbove.add b.zeroAbove
  scale_zeroAbove a c := a.zeroAbove.scale trivial
  product_zeroAbove a b := a.zeroAbove.product
  compose_zeroAbove a g h := a.zeroAbove.compose g h
  ring := by
    refine ⟨inferInstance, ?_, ?_, ?_, ?_⟩
    · rfl
    · rfl
    · exact Truncated.add_jet
    · exact Truncated.mul_jet
  scale_eq_product a c := a.scale_jet c
  constant_compose c g h := Jet2.constant_compose o g h c
  add_compose a b g h := Jet2.add_compose o a b g h
  product_compose a b g h := Jet2.product_compose o a b g h
  compose_assoc a g h g' h' := Jet2.compose_assoc o a g h g' h'
  compose_identity a x y := Jet2.compose_identity o a x y
  identity_compose g h := by
    -- one variable at a time, in which the composition takes place before the embedding
    constructor
    · rw [← ofX_compose, g.identity_compose_jet]
    · rw [← ofY_compose, h.identity_compose_jet]
  of_constant c := ⟨rfl, rfl⟩
  of_add f g := ⟨ofX_add f g, ofY_add f g⟩
  of_product f g := ⟨ofX_product o f g, ofY_product o f g⟩
  of_compose f g h := ⟨ofX_compose o g h f, ofY_compose o g h f⟩

end Laws

/-- Over every commutative ring and at every order, the jets that are zero above the order, in one
variable and in two, are closed under all operations, form a commutative ring under the sum rule and
the product rule, and are composed by the chain rule like functions. -/
theorem jets_compositionAlgebra {α : Type u} [CommRing α] (o : Order) :
    Jet1.CompositionAlgebra α o ∧ Jet2.CompositionAlgebra α o :=
  ⟨Jet1.compositionAlgebra o, Jet2.compositionAlgebra o⟩

/-- A product holds above the order what its left operand holds there, so that factors with anything
there do not commute. -/
example : (⟨1, 3, 0⟩ : Jet1 ℤ).product ⟨1, 0, 0⟩ .zeroth ≠
    (⟨1, 0, 0⟩ : Jet1 ℤ).product ⟨1, 3, 0⟩ .zeroth := by decide

end Helmholtz
