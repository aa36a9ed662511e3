import Helmholtz.Elementary.Bivariate
import Helmholtz.Expr.Univariate

/-! Expressions in two variables. The arguments of an elementary function are expressions in one
variable: what stands for `x` depends on `x` alone, and what stands for `y` on `y` alone. -/

namespace Helmholtz

mutual

/-- An expression in two variables. -/
inductive Expr2 (α : Type u) where
  /-- An elementary function of `x` and `y`, each replaced by an inner expression if present. -/
  | node (f : Elementary2 α) (argx argy : Option (Expr1 α))
  /-- The sum of its terms, each of which is the product of its factors. -/
  | group (terms : List (List (Factor2 α)))

/-- A factor of a term. -/
inductive Factor2 (α : Type u) where
  | constant (c : α)
  | expr (e : Expr2 α)

end

namespace Expr2
variable {α : Type u} [Zero α] [One α] [Add α] [Sub α] [Mul α] [Neg α] [Div α] [NatCast α]
  [Transcendental α]

/-- An elementary function with its arguments put in; without any the function itself is taken. -/
def evalNode (x y : α) (o : Order) (f : Elementary2 α) : (argx argy : Option (Expr1 α)) → Jet2 α
  | none, none => f.eval x y o
  | argx, argy =>
    let g := Expr1.evalArgument x o argx
    let h := Expr1.evalArgument y o argy
    (f.eval g.f h.f o).compose g h o

mutual

def eval (x y : α) (o : Order) : Expr2 α → Jet2 α
  | .node f argx argy => evalNode x y o f argx argy
  | .group terms => addTerms x y o .zero terms

/-- Adds the terms to a sum, from the first to the last. -/
def addTerms (x y : α) (o : Order) (sum : Jet2 α) : List (List (Factor2 α)) → Jet2 α
  | [] => sum
  | t :: rest => addTerms x y o (sum + mulFactors x y o (.constant 1) t) rest

/-- Multiplies a product by the factors, from the first to the last. -/
def mulFactors (x y : α) (o : Order) (product : Jet2 α) : List (Factor2 α) → Jet2 α
  | [] => product
  | .constant c :: rest => mulFactors x y o (product.scale c) rest
  | .expr e :: rest => mulFactors x y o (product.product (e.eval x y o) o) rest

end

/-- The value of one term. -/
def evalTerm (x y : α) (o : Order) (factors : List (Factor2 α)) : Jet2 α :=
  mulFactors x y o (.constant 1) factors

theorem addTerms_eq_foldl (x y : α) (o : Order) (sum : Jet2 α)
    (terms : List (List (Factor2 α))) :
    addTerms x y o sum terms = terms.foldl (fun s t => s + evalTerm x y o t) sum := by
  induction terms generalizing sum with
  | nil => rfl
  | cons t rest ih => exact ih _

theorem eval_group (x y : α) (o : Order) (terms : List (List (Factor2 α))) :
    (group terms).eval x y o = terms.foldl (fun s t => s + evalTerm x y o t) .zero :=
  addTerms_eq_foldl x y o .zero terms

end Expr2
end Helmholtz
