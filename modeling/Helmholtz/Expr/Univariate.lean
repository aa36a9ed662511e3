import Helmholtz.Elementary.Univariate

/-! Expressions in one variable: elementary functions, applied to the variable or to an inner
expression, and sums of products of them. Derivatives are carried through by the chain rule, the
product rule and the sum rule. -/

namespace Helmholtz

mutual

/-- An expression in one variable. -/
inductive Expr1 (α : Type u) where
  /-- An elementary function of the variable or, if present, of the inner expression. -/
  | node (f : Elementary1 α) (arg : Option (Expr1 α))
  /-- The sum of its terms, each of which is the product of its factors. -/
  | group (terms : List (List (Factor1 α)))

/-- A factor of a term. -/
inductive Factor1 (α : Type u) where
  | constant (c : α)
  | expr (e : Expr1 α)

end

namespace Expr1
variable {α : Type u} [Zero α] [One α] [Add α] [Sub α] [Mul α] [Neg α] [Div α] [NatCast α]
  [Transcendental α]

mutual

def eval (x : α) (o : Order) : Expr1 α → Jet1 α
  | .node f none => f.eval x o
  | .node f (some arg) =>
    let g := arg.eval x o
    (f.eval g.f o).compose g o
  | .group terms => addTerms x o .zero terms

/-- Adds the terms to a sum, from the first to the last. -/
def addTerms (x : α) (o : Order) (sum : Jet1 α) : List (List (Factor1 α)) → Jet1 α
  | [] => sum
  | t :: rest => addTerms x o (sum + mulFactors x o (.constant 1) t) rest

/-- Multiplies a product by the factors, from the first to the last. -/
def mulFactors (x : α) (o : Order) (product : Jet1 α) : List (Factor1 α) → Jet1 α
  | [] => product
  | .constant c :: rest => mulFactors x o (product.scale c) rest
  | .expr e :: rest => mulFactors x o (product.product (e.eval x o) o) rest

end

/-- The value of one term. -/
def evalTerm (x : α) (o : Order) (factors : List (Factor1 α)) : Jet1 α :=
  mulFactors x o (.constant 1) factors

/-- The inner function of a node: the variable itself if there is no argument. -/
def evalArgument (x : α) (o : Order) : Option (Expr1 α) → Jet1 α
  | none => .identity x o
  | some e => e.eval x o

theorem addTerms_eq_foldl (x : α) (o : Order) (sum : Jet1 α) (terms : List (List (Factor1 α))) :
    addTerms x o sum terms = terms.foldl (fun s t => s + evalTerm x o t) sum := by
  induction terms generalizing sum with
  | nil => rfl
  | cons t rest ih => exact ih _

theorem eval_group (x : α) (o : Order) (terms : List (List (Factor1 α))) :
    (group terms).eval x o = terms.foldl (fun s t => s + evalTerm x o t) .zero :=
  addTerms_eq_foldl x o .zero terms

end Expr1
end Helmholtz
