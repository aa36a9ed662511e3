import Helmholtz.Expr.Bivariate
import Helmholtz.Proofs.ChainRule

/-! Substitution of trees for the variables of a tree.

Putting a tree in for a variable at every node is evaluated as the chain rule says: the outer tree
at the value of the inner one, composed with it. The laws of the chain rule carry this through
sums, products and arguments that have arguments of their own. -/

namespace Helmholtz
universe u

namespace Expr1
variable {α : Type u}

mutual

/-- The tree with `a` in place of the variable: in every node without argument, and in the arguments
of all others, through all terms and nested groups. -/
def subst : Expr1 α → Expr1 α → Expr1 α
  | .node f none, a => .node f (some a)
  | .node f (some g), a => .node f (some (g.subst a))
  | .group terms, a => .group (substTerms terms a)

def substTerms : List (List (Factor1 α)) → Expr1 α → List (List (Factor1 α))
  | [], _ => []
  | t :: rest, a => substFactors t a :: substTerms rest a

def substFactors : List (Factor1 α) → Expr1 α → List (Factor1 α)
  | [], _ => []
  | .constant c :: rest, a => .constant c :: substFactors rest a
  | .expr e :: rest, a => .expr (e.subst a) :: substFactors rest a

end

/-- An argument with `a` in place of the variable; a missing one stands for the variable itself. -/
def substArgument (arg : Option (Expr1 α)) (a : Expr1 α) : Expr1 α := arg.elim a (·.subst a)

end Expr1

namespace Expr2
variable {α : Type u}

mutual

/-- The tree with `a` in place of `x` and `b` in place of `y`, in the arguments of every node. -/
def subst : Expr2 α → Expr1 α → Expr1 α → Expr2 α
  | .node f argx argy, a, b =>
    .node f (some (Expr1.substArgument argx a)) (some (Expr1.substArgument argy b))
  | .group terms, a, b => .group (substTerms terms a b)

def substTerms : List (List (Factor2 α)) → Expr1 α → Expr1 α → List (List (Factor2 α))
  | [], _, _ => []
  | t :: rest, a, b => substFactors t a b :: substTerms rest a b

def substFactors : List (Factor2 α) → Expr1 α → Expr1 α → List (Factor2 α)
  | [], _, _ => []
  | .constant c :: rest, a, b => .constant c :: substFactors rest a b
  | .expr e :: rest, a, b => .expr (e.subst a b) :: substFactors rest a b

end
end Expr2

variable {α : Type u} [CommRing α] [Div α] [Transcendental α] (x y : α) (o : Order)

namespace Expr1
variable (a : Expr1 α)

mutual

/-- By induction on the outer tree; sums and products are compared from any state on that has been
composed with the inner tree. -/
theorem eval_subst (e : Expr1 α) :
    (e.subst a).eval x o = (e.eval (a.eval x o).f o).compose (a.eval x o) o := by
  cases e with
  | node f arg =>
    cases arg with
    | none => rw [subst, eval, eval]
    | some g =>
      have hf : ((g.subst a).eval x o).f = (g.eval (a.eval x o).f o).f := by
        rw [eval_subst g, Jet1.compose]
      rw [subst, eval, eval, hf, eval_subst g, Jet1.compose_assoc]
  | group terms =>
    have h := addTerms_subst terms .zero
    rwa [Jet1.zero_compose] at h

theorem addTerms_subst (terms : List (List (Factor1 α))) (s : Jet1 α) :
    addTerms x o (s.compose (a.eval x o) o) (substTerms terms a) =
      (addTerms (a.eval x o).f o s terms).compose (a.eval x o) o := by
  cases terms with
  | nil => rfl
  | cons t rest =>
    have ht := mulFactors_subst t (.constant 1)
    rw [Jet1.constant_compose] at ht
    rw [substTerms, addTerms, addTerms, ht, ← Jet1.add_compose, addTerms_subst rest]

theorem mulFactors_subst (factors : List (Factor1 α)) (p : Jet1 α) :
    mulFactors x o (p.compose (a.eval x o) o) (substFactors factors a) =
      (mulFactors (a.eval x o).f o p factors).compose (a.eval x o) o := by
  cases factors with
  | nil => rfl
  | cons k rest =>
    cases k with
    | constant c =>
      rw [substFactors, mulFactors, mulFactors, ← Jet1.scale_compose, mulFactors_subst rest]
    | expr e =>
      rw [substFactors, mulFactors, mulFactors, eval_subst e, ← Jet1.product_compose,
        mulFactors_subst rest]

end

theorem evalTerm_subst (factors : List (Factor1 α)) :
    evalTerm x o (substFactors factors a) =
      (evalTerm (a.eval x o).f o factors).compose (a.eval x o) o := by
  have h := mulFactors_subst x o a factors (.constant 1)
  rwa [Jet1.constant_compose] at h

theorem eval_substArgument_f (arg : Option (Expr1 α)) :
    ((substArgument arg a).eval x o).f = (evalArgument (a.eval x o).f o arg).f := by
  cases arg with
  | none => rfl
  | some g =>
    have h : ((g.subst a).eval x o).f = _ := congrArg Jet1.f (eval_subst x o a g)
    exact h

end Expr1

namespace Expr2

/-- A missing argument is the variable itself, and composing with both variables changes nothing. -/
theorem evalNode_eq_compose (f : Elementary2 α) (argx argy : Option (Expr1 α)) :
    evalNode x y o f argx argy =
      (f.eval (Expr1.evalArgument x o argx).f (Expr1.evalArgument y o argy).f o).compose
        (Expr1.evalArgument x o argx) (Expr1.evalArgument y o argy) o := by
  cases argx <;> cases argy
  · exact (Jet2.compose_identity o _ x y).symm
  all_goals rfl

variable (a b : Expr1 α)

/-- A missing argument has become the tree itself; the chain rule does not tell this from the
variable composed with the tree. -/
theorem compose_substArgument (p : Jet2 α) (argx argy : Option (Expr1 α)) :
    p.compose ((Expr1.substArgument argx a).eval x o) ((Expr1.substArgument argy b).eval y o) o =
      (p.compose (Expr1.evalArgument (a.eval x o).f o argx)
        (Expr1.evalArgument (b.eval y o).f o argy) o).compose (a.eval x o) (b.eval y o) o := by
  have hx : ∀ h : Jet1 α, p.compose ((Expr1.substArgument argx a).eval x o) h o =
      p.compose ((Expr1.evalArgument (a.eval x o).f o argx).compose (a.eval x o) o) h o := by
    intro h
    cases argx with
    | none => exact (Jet2.compose_identity_compose_left o p _ h).symm
    | some g => exact congrArg (p.compose · h o) (Expr1.eval_subst x o a g)
  have hy : ∀ g : Jet1 α, p.compose g ((Expr1.substArgument argy b).eval y o) o =
      p.compose g ((Expr1.evalArgument (b.eval y o).f o argy).compose (b.eval y o) o) o := by
    intro g
    cases argy with
    | none => exact (Jet2.compose_identity_compose_right o p g _).symm
    | some h => exact congrArg (p.compose g · o) (Expr1.eval_subst y o b h)
  rw [hx, hy, Jet2.compose_assoc]

mutual

theorem eval_subst (e : Expr2 α) :
    (e.subst a b).eval x y o =
      (e.eval (a.eval x o).f (b.eval y o).f o).compose (a.eval x o) (b.eval y o) o := by
  cases e with
  | node f argx argy =>
    have hnode : ∀ g h : Expr1 α, evalNode x y o f (some g) (some h) =
        (f.eval (g.eval x o).f (h.eval y o).f o).compose (g.eval x o) (h.eval y o) o :=
      fun _ _ => rfl
    rw [subst, eval, eval, hnode, evalNode_eq_compose, Expr1.eval_substArgument_f,
      Expr1.eval_substArgument_f, compose_substArgument]
  | group terms =>
    have h := addTerms_subst terms .zero
    rwa [Jet2.zero_compose] at h

theorem addTerms_subst (terms : List (List (Factor2 α))) (s : Jet2 α) :
    addTerms x y o (s.compose (a.eval x o) (b.eval y o) o) (substTerms terms a b) =
      (addTerms (a.eval x o).f (b.eval y o).f o s terms).compose (a.eval x o) (b.eval y o) o := by
  cases terms with
  | nil => rfl
  | cons t rest =>
    have ht := mulFactors_subst t (.constant 1)
    rw [Jet2.constant_compose] at ht
    rw [substTerms, addTerms, addTerms, ht, ← Jet2.add_compose, addTerms_subst rest]

theorem mulFactors_subst (factors : List (Factor2 α)) (p : Jet2 α) :
    mulFactors x y o (p.compose (a.eval x o) (b.eval y o) o) (substFactors factors a b) =
      (mulFactors (a.eval x o).f (b.eval y o).f o p factors).compose
        (a.eval x o) (b.eval y o) o := by
  cases factors with
  | nil => rfl
  | cons k rest =>
    cases k with
    | constant c =>
      rw [substFactors, mulFactors, mulFactors, ← Jet2.scale_compose, mulFactors_subst rest]
    | expr e =>
      rw [substFactors, mulFactors, mulFactors, eval_subst e, ← Jet2.product_compose,
        mulFactors_subst rest]

end

theorem evalTerm_subst (factors : List (Factor2 α)) :
    evalTerm x y o (substFactors factors a b) =
      (evalTerm (a.eval x o).f (b.eval y o).f o factors).compose (a.eval x o) (b.eval y o) o := by
  have h := mulFactors_subst x y o a b factors (.constant 1)
  rwa [Jet2.constant_compose] at h

end Expr2

/-- Over every commutative ring, at every point and at every order, a tree in which trees have been
put in for the variables returns what the tree returns at their values, composed with them. The same
holds of a single term. -/
theorem subst_eval_eq_compose {α : Type u} [CommRing α] [Div α] [Transcendental α] :
    (∀ (e a : Expr1 α) (x : α) (o : Order),
      (e.subst a).eval x o = (e.eval (a.eval x o).f o).compose (a.eval x o) o) ∧
    (∀ (factors : List (Factor1 α)) (a : Expr1 α) (x : α) (o : Order),
      Expr1.evalTerm x o (Expr1.substFactors factors a) =
        (Expr1.evalTerm (a.eval x o).f o factors).compose (a.eval x o) o) ∧
    (∀ (e : Expr2 α) (a b : Expr1 α) (x y : α) (o : Order),
      (e.subst a b).eval x y o =
        (e.eval (a.eval x o).f (b.eval y o).f o).compose (a.eval x o) (b.eval y o) o) ∧
    (∀ (factors : List (Factor2 α)) (a b : Expr1 α) (x y : α) (o : Order),
      Expr2.evalTerm x y o (Expr2.substFactors factors a b) =
        (Expr2.evalTerm (a.eval x o).f (b.eval y o).f o factors).compose
          (a.eval x o) (b.eval y o) o) :=
  ⟨fun e a x o => Expr1.eval_subst x o a e,
    fun factors a x o => Expr1.evalTerm_subst x o a factors,
    fun e a b x y o => Expr2.eval_subst x y o a b e,
    fun factors a b x y o => Expr2.evalTerm_subst x y o a b factors⟩

end Helmholtz
