import Helmholtz.Proofs.RealScalars
import Helmholtz.Proofs.TruncatedJets
import Mathlib.Algebra.BigOperators.Group.List.Lemmas
import Mathlib.Logic.Relation

/-! The order and the grouping in which a sum of products is written do not matter.

At every order a tree has a value in the ring of jets that are zero above this order. There a term
is the product of its factors and a group the sum of its terms, and these may be rearranged like
numbers: permuted, spliced into what stands around them, and multiplied out. -/

namespace Helmholtz
universe u v

section SumsOfProducts
variable {φ : Type u} {R : Type v} [CommSemiring R] (value : φ → R)

/-- The product of the values of the factors of a term. -/
def productOf (factors : List φ) : R := (factors.map value).prod

/-- The sum of the products of the terms of a group. -/
def sumOfProducts (terms : List (List φ)) : R := (terms.map (productOf value)).sum

variable {value}

theorem productOf_cons (k : φ) (rest : List φ) :
    productOf value (k :: rest) = value k * productOf value rest := by
  rw [productOf, List.map_cons, List.prod_cons, productOf]

theorem productOf_append (s t : List φ) :
    productOf value (s ++ t) = productOf value s * productOf value t := by
  rw [productOf, List.map_append, List.prod_append, productOf, productOf]

theorem productOf_perm {s t : List φ} (h : s.Perm t) : productOf value s = productOf value t :=
  (h.map value).prod_eq

theorem sumOfProducts_cons (t : List φ) (rest : List (List φ)) :
    sumOfProducts value (t :: rest) = productOf value t + sumOfProducts value rest := by
  rw [sumOfProducts, List.map_cons, List.sum_cons, sumOfProducts]

theorem sumOfProducts_append (ts us : List (List φ)) :
    sumOfProducts value (ts ++ us) = sumOfProducts value ts + sumOfProducts value us := by
  rw [sumOfProducts, List.map_append, List.sum_append, sumOfProducts, sumOfProducts]

theorem sumOfProducts_perm {ts us : List (List φ)} (h : ts.Perm us) :
    sumOfProducts value ts = sumOfProducts value us :=
  (h.map (productOf value)).sum_eq

theorem sumOfProducts_singleton (t : List φ) :
    sumOfProducts value [t] = productOf value t := by
  rw [sumOfProducts, List.map_singleton, List.sum_singleton]

/-- A term with a sum among its factors is the sum of the terms in which one summand each stands in
its place. -/
theorem productOf_distribute {k : φ} {inner : List (List φ)}
    (hk : value k = sumOfProducts value inner) (left right : List φ) :
    productOf value (left ++ k :: right) =
      sumOfProducts value (inner.map fun t => left ++ t ++ right) := by
  have hterm : ∀ t, productOf value (left ++ t ++ right) =
      productOf value left * productOf value t * productOf value right := by
    intro t
    rw [productOf_append, productOf_append]
  have hsum : sumOfProducts value (inner.map fun t => left ++ t ++ right) =
      productOf value left * sumOfProducts value inner * productOf value right := by
    rw [sumOfProducts, List.map_map, sumOfProducts, ← List.sum_map_mul_left,
      ← List.sum_map_mul_right]
    exact congrArg List.sum (List.map_congr_left fun t _ => hterm t)
  rw [hsum, productOf_append, productOf_cons, hk, mul_assoc]

end SumsOfProducts

/-! ### One variable -/

namespace Expr1

section Steps
variable {α : Type u}

mutual

/-- One step from a tree to another way of writing it. -/
inductive Rearranges : Expr1 α → Expr1 α → Prop
  /-- The terms of a group are permuted. -/
  | terms {ts us : List (List (Factor1 α))} (h : ts.Perm us) : Rearranges (.group ts) (.group us)
  /-- A term is distributed over a group among its factors. -/
  | distribute (before after inner : List (List (Factor1 α))) (left right : List (Factor1 α)) :
    Rearranges (.group (before ++ (left ++ .expr (.group inner) :: right) :: after))
      (.group (before ++ inner.map (fun t => left ++ t ++ right) ++ after))
  /-- A step in a term. -/
  | term (before after : List (List (Factor1 α))) {t u : List (Factor1 α)}
    (h : TermRearranges t u) :
    Rearranges (.group (before ++ t :: after)) (.group (before ++ u :: after))
  /-- A step in the argument of a node. -/
  | argument (f : Elementary1 α) {g h : Expr1 α} (hgh : Rearranges g h) :
    Rearranges (.node f (some g)) (.node f (some h))

/-- One step from a term to another way of writing it. -/
inductive TermRearranges : List (Factor1 α) → List (Factor1 α) → Prop
  /-- The factors are permuted. -/
  | factors {t u : List (Factor1 α)} (h : t.Perm u) : TermRearranges t u
  /-- The factors of a group of one term take its place. -/
  | splice (left inner right : List (Factor1 α)) :
    TermRearranges (left ++ .expr (.group [inner]) :: right) (left ++ inner ++ right)
  /-- A step in a factor. -/
  | factor (left right : List (Factor1 α)) {e e' : Expr1 α} (h : Rearranges e e') :
    TermRearranges (left ++ .expr e :: right) (left ++ .expr e' :: right)

end
end Steps

section Constants
variable {α : Type u} [Ring α]

mutual

/-- Over a ring there are none but finite constants. -/
theorem constantsFinite (e : Expr1 α) : e.ConstantsFinite := by
  cases e with
  | node f arg => exact argumentConstantsFinite arg
  | group terms => exact termsConstantsFinite terms

theorem argumentConstantsFinite (arg : Option (Expr1 α)) : ArgumentConstantsFinite arg := by
  cases arg with
  | none => trivial
  | some g => exact constantsFinite g

theorem termsConstantsFinite (terms : List (List (Factor1 α))) : TermsConstantsFinite terms := by
  cases terms with
  | nil => trivial
  | cons t rest => exact ⟨factorsConstantsFinite t, termsConstantsFinite rest⟩

theorem factorsConstantsFinite (factors : List (Factor1 α)) : FactorsConstantsFinite factors := by
  cases factors with
  | nil => trivial
  | cons k rest =>
    cases k with
    | constant c => exact ⟨trivial, factorsConstantsFinite rest⟩
    | expr e => exact ⟨constantsFinite e, factorsConstantsFinite rest⟩

end
end Constants

variable {α : Type u} [CommRing α] [Div α] [Transcendental α] (x : α) (o : Order)

/-- The value of a tree in the ring of jets that are zero above the order. -/
def truncated (e : Expr1 α) : Jet1.Truncated α o :=
  ⟨e.eval x o, zeroAbove_eval o x e.constantsFinite⟩

def truncatedFactor : Factor1 α → Jet1.Truncated α o
  | .constant c => .constant c
  | .expr e => e.truncated x o

/-- A running product is multiplied by the product of the factors. -/
theorem mulFactors_jet (p : Jet1.Truncated α o) (factors : List (Factor1 α)) :
    mulFactors x o p.jet factors = (p * productOf (truncatedFactor x o) factors).jet := by
  induction factors generalizing p with
  | nil => exact congrArg Jet1.Truncated.jet (mul_one p).symm
  | cons k rest ih =>
    rw [productOf_cons, ← mul_assoc]
    cases k with
    | constant c =>
      have hscale : p.jet.scale c = (p * .constant c).jet := p.scale_jet c
      rw [mulFactors, hscale, ih]
      rfl
    | expr e => exact ih (p * e.truncated x o)

theorem evalTerm_jet (factors : List (Factor1 α)) :
    evalTerm x o factors = (productOf (truncatedFactor x o) factors).jet := by
  have h := mulFactors_jet x o 1 factors
  rwa [one_mul] at h

/-- A running sum is increased by the sum of the terms. -/
theorem addTerms_jet (s : Jet1.Truncated α o) (terms : List (List (Factor1 α))) :
    addTerms x o s.jet terms = (s + sumOfProducts (truncatedFactor x o) terms).jet := by
  induction terms generalizing s with
  | nil => exact congrArg Jet1.Truncated.jet (add_zero s).symm
  | cons t rest ih =>
    have ht : mulFactors x o (.constant 1) t = (productOf (truncatedFactor x o) t).jet :=
      evalTerm_jet x o t
    rw [addTerms, ht, sumOfProducts_cons, ← add_assoc]
    exact ih (s + productOf (truncatedFactor x o) t)

theorem truncated_group (terms : List (List (Factor1 α))) :
    (group terms).truncated x o = sumOfProducts (truncatedFactor x o) terms := by
  have h := addTerms_jet x o 0 terms
  rw [zero_add] at h
  exact Jet1.Truncated.ext h

theorem truncatedFactor_group (inner : List (List (Factor1 α))) :
    truncatedFactor x o (.expr (.group inner)) = sumOfProducts (truncatedFactor x o) inner :=
  truncated_group x o inner

theorem truncated_node (f : Elementary1 α) {g h : Expr1 α}
    (hgh : g.truncated x o = h.truncated x o) :
    (node f (some g)).truncated x o = (node f (some h)).truncated x o := by
  have heval : g.eval x o = h.eval x o := congrArg Jet1.Truncated.jet hgh
  apply Jet1.Truncated.ext
  simp only [truncated, eval, heval]

mutual

/-- A step leaves the value of a tree as it is. -/
theorem Rearranges.truncated_eq {e e' : Expr1 α} :
    Rearranges e e' → e.truncated x o = e'.truncated x o
  | .terms h => by rw [truncated_group, truncated_group, sumOfProducts_perm h]
  | .distribute before after inner left right => by
    rw [truncated_group, truncated_group, sumOfProducts_append, sumOfProducts_cons,
      productOf_distribute (truncatedFactor_group x o inner), sumOfProducts_append,
      sumOfProducts_append, add_assoc]
  | .term before after h => by
    rw [truncated_group, truncated_group, sumOfProducts_append, sumOfProducts_append,
      sumOfProducts_cons, sumOfProducts_cons, h.productOf_eq]
  | .argument f h => truncated_node x o f h.truncated_eq

/-- A step leaves the product of the factors of a term as it is. -/
theorem TermRearranges.productOf_eq {t u : List (Factor1 α)} :
    TermRearranges t u → productOf (truncatedFactor x o) t = productOf (truncatedFactor x o) u
  | .factors h => productOf_perm h
  | .splice left inner right => by
    rw [productOf_distribute (truncatedFactor_group x o [inner]), List.map_singleton,
      sumOfProducts_singleton]
  | .factor left right h => by
    have hfactor : ∀ e : Expr1 α, truncatedFactor x o (.expr e) = e.truncated x o := fun _ => rfl
    rw [productOf_append, productOf_append, productOf_cons, productOf_cons, hfactor, hfactor,
      h.truncated_eq]

end
end Expr1

/-! ### Two variables -/

namespace Expr2

section Steps
variable {α : Type u}

mutual

/-- One step from a tree to another way of writing it. -/
inductive Rearranges : Expr2 α → Expr2 α → Prop
  /-- The terms of a group are permuted. -/
  | terms {ts us : List (List (Factor2 α))} (h : ts.Perm us) : Rearranges (.group ts) (.group us)
  /-- A term is distributed over a group among its factors. -/
  | distribute (before after inner : List (List (Factor2 α))) (left right : List (Factor2 α)) :
    Rearranges (.group (before ++ (left ++ .expr (.group inner) :: right) :: after))
      (.group (before ++ inner.map (fun t => left ++ t ++ right) ++ after))
  /-- A step in a term. -/
  | term (before after : List (List (Factor2 α))) {t u : List (Factor2 α)}
    (h : TermRearranges t u) :
    Rearranges (.group (before ++ t :: after)) (.group (before ++ u :: after))
  /-- A step in what stands for `x` in a node. -/
  | argumentX (f : Elementary2 α) {g h : Expr1 α} (argy : Option (Expr1 α))
    (hgh : g.Rearranges h) : Rearranges (.node f (some g) argy) (.node f (some h) argy)
  /-- A step in what stands for `y` in a node. -/
  | argumentY (f : Elementary2 α) (argx : Option (Expr1 α)) {g h : Expr1 α}
    (hgh : g.Rearranges h) : Rearranges (.node f argx (some g)) (.node f argx (some h))

/-- One step from a term to another way of writing it. -/
inductive TermRearranges : List (Factor2 α) → List (Factor2 α) → Prop
  /-- The factors are permuted. -/
  | factors {t u : List (Factor2 α)} (h : t.Perm u) : TermRearranges t u
  /-- The factors of a group of one term take its place. -/
  | splice (left inner right : List (Factor2 α)) :
    TermRearranges (left ++ .expr (.group [inner]) :: right) (left ++ inner ++ right)
  /-- A step in a factor. -/
  | factor (left right : List (Factor2 α)) {e e' : Expr2 α} (h : Rearranges e e') :
    TermRearranges (left ++ .expr e :: right) (left ++ .expr e' :: right)

end
end Steps

section Constants
variable {α : Type u} [Ring α]

mutual

theorem constantsFinite (e : Expr2 α) : e.ConstantsFinite := by
  cases e with
  | node f argx argy =>
    exact ⟨Expr1.argumentConstantsFinite argx, Expr1.argumentConstantsFinite argy⟩
  | group terms => exact termsConstantsFinite terms

theorem termsConstantsFinite (terms : List (List (Factor2 α))) : TermsConstantsFinite terms := by
  cases terms with
  | nil => trivial
  | cons t rest => exact ⟨factorsConstantsFinite t, termsConstantsFinite rest⟩

theorem factorsConstantsFinite (factors : List (Factor2 α)) : FactorsConstantsFinite factors := by
  cases factors with
  | nil => trivial
  | cons k rest =>
    cases k with
    | constant c => exact ⟨trivial, factorsConstantsFinite rest⟩
    | expr e => exact ⟨constantsFinite e, factorsConstantsFinite rest⟩

end
end Constants

variable {α : Type u} [CommRing α] [Div α] [Transcendental α] (x y : α) (o : Order)

/-- The value of a tree in the ring of jets that are zero above the order. -/
def truncated (e : Expr2 α) : Jet2.Truncated α o :=
  ⟨e.eval x y o, zeroAbove_eval o x y e.constantsFinite⟩

def truncatedFactor : Factor2 α → Jet2.Truncated α o
  | .constant c => .constant c
  | .expr e => e.truncated x y o

/-- A running product is multiplied by the product of the factors. -/
theorem mulFactors_jet (p : Jet2.Truncated α o) (factors : List (Factor2 α)) :
    mulFactors x y o p.jet factors = (p * productOf (truncatedFactor x y o) factors).jet := by
  induction factors generalizing p with
  | nil => exact congrArg Jet2.Truncated.jet (mul_one p).symm
  | cons k rest ih =>
    rw [productOf_cons, ← mul_assoc]
    cases k with
    | constant c =>
      have hscale : p.jet.scale c = (p * .constant c).jet := p.scale_jet c
      rw [mulFactors, hscale, ih]
      rfl
    | expr e => exact ih (p * e.truncated x y o)

theorem evalTerm_jet (factors : List (Factor2 α)) :
    evalTerm x y o factors = (productOf (truncatedFactor x y o) factors).jet := by
  have h := mulFactors_jet x y o 1 factors
  rwa [one_mul] at h

/-- A running sum is increased by the sum of the terms. -/
theorem addTerms_jet (s : Jet2.Truncated α o) (terms : List (List (Factor2 α))) :
    addTerms x y o s.jet terms = (s + sumOfProducts (truncatedFactor x y o) terms).jet := by
  induction terms generalizing s with
  | nil => exact congrArg Jet2.Truncated.jet (add_zero s).symm
  | cons t rest ih =>
    have ht : mulFactors x y o (.constant 1) t = (productOf (truncatedFactor x y o) t).jet :=
      evalTerm_jet x y o t
    rw [addTerms, ht, sumOfProducts_cons, ← add_assoc]
    exact ih (s + productOf (truncatedFactor x y o) t)

theorem truncated_group (terms : List (List (Factor2 α))) :
    (group terms).truncated x y o = sumOfProducts (truncatedFactor x y o) terms := by
  have h := addTerms_jet x y o 0 terms
  rw [zero_add] at h
  exact Jet2.Truncated.ext h

theorem truncatedFactor_group (inner : List (List (Factor2 α))) :
    truncatedFactor x y o (.expr (.group inner)) = sumOfProducts (truncatedFactor x y o) inner :=
  truncated_group x y o inner

theorem truncated_nodeX (f : Elementary2 α) {g h : Expr1 α} (argy : Option (Expr1 α))
    (hgh : g.truncated x o = h.truncated x o) :
    (node f (some g) argy).truncated x y o = (node f (some h) argy).truncated x y o := by
  have heval : g.eval x o = h.eval x o := congrArg Jet1.Truncated.jet hgh
  apply Jet2.Truncated.ext
  simp only [truncated, eval, evalNode, Expr1.evalArgument, heval]

theorem truncated_nodeY (f : Elementary2 α) (argx : Option (Expr1 α)) {g h : Expr1 α}
    (hgh : g.truncated y o = h.truncated y o) :
    (node f argx (some g)).truncated x y o = (node f argx (some h)).truncated x y o := by
  have heval : g.eval y o = h.eval y o := congrArg Jet1.Truncated.jet hgh
  apply Jet2.Truncated.ext
  simp only [truncated, eval, evalNode, Expr1.evalArgument, heval]

mutual

/-- A step leaves the value of a tree as it is. -/
theorem Rearranges.truncated_eq {e e' : Expr2 α} :
    Rearranges e e' → e.truncated x y o = e'.truncated x y o
  | .terms h => by rw [truncated_group, truncated_group, sumOfProducts_perm h]
  | .distribute before after inner left right => by
    rw [truncated_group, truncated_group, sumOfProducts_append, sumOfProducts_cons,
      productOf_distribute (truncatedFactor_group x y o inner), sumOfProducts_append,
      sumOfProducts_append, add_assoc]
  | .term before after h => by
    rw [truncated_group, truncated_group, sumOfProducts_append, sumOfProducts_append,
      sumOfProducts_cons, sumOfProducts_cons, h.productOf_eq]
  | .argumentX f argy h => truncated_nodeX x y o f argy (h.truncated_eq x o)
  | .argumentY f argx h => truncated_nodeY x y o f argx (h.truncated_eq y o)

/-- A step leaves the product of the factors of a term as it is. -/
theorem TermRearranges.productOf_eq {t u : List (Factor2 α)} :
    TermRearranges t u →
      productOf (truncatedFactor x y o) t = productOf (truncatedFactor x y o) u
  | .factors h => productOf_perm h
  | .splice left inner right => by
    rw [productOf_distribute (truncatedFactor_group x y o [inner]), List.map_singleton,
      sumOfProducts_singleton]
  | .factor left right h => by
    have hfactor : ∀ e : Expr2 α, truncatedFactor x y o (.expr e) = e.truncated x y o :=
      fun _ => rfl
    rw [productOf_append, productOf_append, productOf_cons, productOf_cons, hfactor, hfactor,
      h.truncated_eq]

end
end Expr2

/-! ### Any number of steps -/

section Runs

/-- What no step changes, no number of steps forwards and backwards changes. -/
theorem eq_of_eqvGen {β : Type u} {γ : Type v} {r : β → β → Prop} {f : β → γ}
    (hstep : ∀ a b, r a b → f a = f b) {a b : β} (h : Relation.EqvGen r a b) : f a = f b := by
  induction h with
  | rel a b h => exact hstep a b h
  | refl a => rfl
  | symm a b _ ih => exact ih.symm
  | trans a b c _ _ ihab ihbc => exact ihab.trans ihbc

variable {α : Type u} [CommRing α] [Div α] [Transcendental α]

theorem Expr1.Rearranges.eval_eq (x : α) (o : Order) {e e' : Expr1 α} (h : Rearranges e e') :
    e.eval x o = e'.eval x o :=
  congrArg Jet1.Truncated.jet (h.truncated_eq x o)

theorem Expr1.TermRearranges.evalTerm_eq (x : α) (o : Order) {t u : List (Factor1 α)}
    (h : TermRearranges t u) : evalTerm x o t = evalTerm x o u := by
  rw [evalTerm_jet, evalTerm_jet, h.productOf_eq]

theorem Expr2.Rearranges.eval_eq (x y : α) (o : Order) {e e' : Expr2 α} (h : Rearranges e e') :
    e.eval x y o = e'.eval x y o :=
  congrArg Jet2.Truncated.jet (h.truncated_eq x y o)

theorem Expr2.TermRearranges.evalTerm_eq (x y : α) (o : Order) {t u : List (Factor2 α)}
    (h : TermRearranges t u) : evalTerm x y o t = evalTerm x y o u := by
  rw [evalTerm_jet, evalTerm_jet, h.productOf_eq]

end Runs

/-- Over every commutative ring, at every point and at every order, trees and terms in one and in
two variables return the same slots in whatever order and grouping their sums and products are
written, in nested groups and in arguments as well. -/
theorem eval_eq_of_rearranged {α : Type u} [CommRing α] [Div α] [Transcendental α] (o : Order) :
    (∀ e e' : Expr1 α, Relation.EqvGen Expr1.Rearranges e e' →
      ∀ x, e.eval x o = e'.eval x o) ∧
    (∀ t u : List (Factor1 α), Relation.EqvGen Expr1.TermRearranges t u →
      ∀ x, Expr1.evalTerm x o t = Expr1.evalTerm x o u) ∧
    (∀ e e' : Expr2 α, Relation.EqvGen Expr2.Rearranges e e' →
      ∀ x y, e.eval x y o = e'.eval x y o) ∧
    (∀ t u : List (Factor2 α), Relation.EqvGen Expr2.TermRearranges t u →
      ∀ x y, Expr2.evalTerm x y o t = Expr2.evalTerm x y o u) := by
  refine ⟨?_, ?_, ?_, ?_⟩
  · intro e e' h x
    exact eq_of_eqvGen (fun _ _ hstep => hstep.eval_eq x o) h
  · intro t u h x
    exact eq_of_eqvGen (fun _ _ hstep => hstep.evalTerm_eq x o) h
  · intro e e' h x y
    exact eq_of_eqvGen (fun _ _ hstep => hstep.eval_eq x y o) h
  · intro t u h x y
    exact eq_of_eqvGen (fun _ _ hstep => hstep.evalTerm_eq x y o) h

/-- `a (x + b ln y) + exp (x + b)`. -/
noncomputable def sampleNested (a b : ℝ) : Expr2 ℝ := .group [
  [.constant a, .expr (.group [
    [.expr (.node (.ofX .identity) none none)],
    [.constant b, .expr (.node (.ofY .log) none none)]])],
  [.expr (.node (.ofX (.exponential 1))
    (some (.group [[.expr (.node .identity none)], [.constant b]])) none)]]

/-- `exp (b + x) + x a + a b ln y`. -/
noncomputable def sampleFlattened (a b : ℝ) : Expr2 ℝ := .group [
  [.expr (.node (.ofX (.exponential 1))
    (some (.group [[.constant b], [.expr (.node .identity none)]])) none)],
  [.expr (.node (.ofX .identity) none none), .constant a],
  [.constant a, .constant b, .expr (.node (.ofY .log) none none)]]

/-- The first term is multiplied out, the last one comes to the front, two factors change places,
and so do the terms in the argument of the exponential function. -/
theorem sampleNested_expanded :
    Relation.EqvGen Expr2.Rearranges (sampleNested 3 2) (sampleFlattened 3 2) ∧
      (sampleNested 3 2).eval 2 3 .first = (sampleFlattened 3 2).eval 2 3 .first := by
  have hrun : Relation.EqvGen Expr2.Rearranges (sampleNested 3 2) (sampleFlattened 3 2) := by
    refine .trans _ _ _ (.rel _ _ (.distribute [] _ _ [.constant 3] [])) ?_
    refine .trans _ _ _ (.rel _ _ (.terms (List.perm_append_singleton _ [_, _]))) ?_
    refine .trans _ _ _ (.rel _ _ (.term [_] _ (.factors (.swap _ _ [])))) ?_
    exact .rel _ _ (.term [] _ (.factor [] [] (.argumentX _ _ (.terms (.swap _ _ [])))))
  obtain ⟨-, -, hexpr, -⟩ := eval_eq_of_rearranged (α := ℝ) .first
  exact ⟨hrun, hexpr _ _ hrun 2 3⟩

end Helmholtz
