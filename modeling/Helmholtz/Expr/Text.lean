import Helmholtz.Elementary.Text
import Helmholtz.Expr.Bivariate

/-! The text of an expression: terms joined by plus signs in parentheses, factors joined by stars,
and arguments in brackets behind the function they go into. -/

namespace Helmholtz
namespace Expr1

mutual

def toText : Expr1 Float → String
  | .node f none => f.toText "x"
  | .node f (some arg) => f.toText "x" ++ "[x=" ++ arg.toText ++ "]"
  | .group terms => "(" ++ termsText "" terms ++ ")"

/-- The terms, the first one after `lead` and each further one after a plus sign. -/
def termsText (lead : String) : List (List (Factor1 Float)) → String
  | [] => ""
  | t :: rest => lead ++ factorsText "" t ++ termsText " + " rest

/-- The factors, the first one after `lead` and each further one after a star. -/
def factorsText (lead : String) : List (Factor1 Float) → String
  | [] => ""
  | .constant c :: rest => lead ++ plainText c ++ factorsText " * " rest
  | .expr e :: rest => lead ++ e.toText ++ factorsText " * " rest

end
end Expr1

namespace Expr2

/-- The arguments of a node in brackets, nothing without any. -/
def argumentsText : (argx argy : Option (Expr1 Float)) → String
  | none, none => ""
  | some g, none => "[x=" ++ g.toText ++ "]"
  | none, some h => "[y=" ++ h.toText ++ "]"
  | some g, some h => "[x=" ++ g.toText ++ ", y=" ++ h.toText ++ "]"

mutual

def toText : Expr2 Float → String
  | .node f argx argy => f.toText ++ argumentsText argx argy
  | .group terms => "(" ++ termsText "" terms ++ ")"

/-- The terms, the first one after `lead` and each further one after a plus sign. -/
def termsText (lead : String) : List (List (Factor2 Float)) → String
  | [] => ""
  | t :: rest => lead ++ factorsText "" t ++ termsText " + " rest

/-- The factors, the first one after `lead` and each further one after a star. -/
def factorsText (lead : String) : List (Factor2 Float) → String
  | [] => ""
  | .constant c :: rest => lead ++ plainText c ++ factorsText " * " rest
  | .expr e :: rest => lead ++ e.toText ++ factorsText " * " rest

end
end Expr2
end Helmholtz
