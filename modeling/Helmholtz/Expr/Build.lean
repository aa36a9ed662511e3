import Helmholtz.Expr.Bivariate
import Helmholtz.Expr.Record

/-! From the declarative form to expressions. A node is checked before its arguments, terms and
factors from the first to the last, so the fault that is reported is the first one in reading
order. -/

namespace Helmholtz

/-- What is wrong with a node. -/
inductive RecordFault where
  /-- No function goes by the tag. -/
  | unknownFunction (tag : String)
  | missingParameter (tag : String)
  /-- The parameter is not of the kind that the function takes. -/
  | unfitParameter (tag : String)
  /-- An argument that a node with this number of variables does not have. -/
  | forbiddenArgument (tag key : String)
  | unsorted (terms : UnsortedTerms)
  deriving DecidableEq

namespace RecordFault

/-- The text of a fault of a parameter or an argument, with its reason. -/
def invalidParameterText (tag reason : String) : String :=
  s!"Invalid parameter for function `{tag}`: {reason}"

def message : RecordFault → String
  | unknownFunction tag => s!"Unknown function type `{tag}`."
  | missingParameter tag => invalidParameterText tag "missing `param`"
  | unfitParameter tag => invalidParameterText tag "unfit `param`"
  | forbiddenArgument tag key => invalidParameterText tag s!"`{key}` is not allowed here"
  | unsorted e => e.message

end RecordFault

namespace ExprRecord

/-- The parameter of a node, as `read` takes it. -/
def readParameter? {α : Type} (tag : String) (param : Option Json) (read : Json → Option α) :
    Except RecordFault α :=
  match param with
  | none => .error (.missingParameter tag)
  | some v =>
    match read v with
    | none => .error (.unfitParameter tag)
    | some a => .ok a

/-- Fails if an argument is present. -/
def rejectArgument (tag key : String) (arg : Option ExprRecord) : Except RecordFault Unit :=
  if arg.isSome then .error (.forbiddenArgument tag key) else .ok ()

/-- A nonempty name and the variable behind it: `expx` is `exp` of `x`. -/
def splitVariable? (tag : String) : Option (String × Char) :=
  match tag.toList.reverse with
  | v :: c :: rest => some (String.ofList (c :: rest).reverse, v)
  | _ => none

end ExprRecord

open ExprRecord

def Monomial1.ofJson? : Json → Option (Monomial1 Float)
  | .array [n, c] => do some ⟨← n.exponent?, ← c.float?⟩
  | _ => none

def Monomial2.ofJson? : Json → Option (Monomial2 Float)
  | .array [i, j, c] => do some ⟨⟨← i.exponent?, ← j.exponent?⟩, ← c.float?⟩
  | _ => none

/-- The polynomial in one variable with the parameter as its list of terms. -/
def Polynomial1.ofParameter? (tag : String) (param : Option Json) :
    Except RecordFault (Polynomial1 Float) := do
  let terms ← readParameter? tag param (Json.list? Monomial1.ofJson?)
  (ofTerms? terms).mapError .unsorted

/-- The polynomial in two variables with the parameter as its list of terms. -/
def Polynomial2.ofParameter? (tag : String) (param : Option Json) :
    Except RecordFault (Polynomial2 Float) := do
  let terms ← readParameter? tag param (Json.list? Monomial2.ofJson?)
  (ofTerms? terms).mapError .unsorted

/-- The function of one variable that goes by `name`; `tag` is the whole tag of the node, by which
faults are reported. -/
def Elementary1.ofName? (tag : String) (param : Option Json) (name : String) :
    Except RecordFault (Elementary1 Float) :=
  match name with
  | "x" => .ok .identity
  | "lin" => do
    let (a, b) ← readParameter? tag param fun
      | .array [a, b] => do some (← a.float?, ← b.float?)
      | _ => none
    .ok (.linear a b)
  | "pow" => (readParameter? tag param Json.float?).map .power
  | "inv" => .ok .inverse
  | "exp" => (readParameter? tag param Json.float?).map .exponential
  | "log" => .ok .log
  | "poly" => (Polynomial1.ofParameter? tag param).map .polynomial
  | _ => .error (.unknownFunction tag)

/-- The function of two variables that goes by the tag. -/
def Elementary2.ofTag? (tag : String) (param : Option Json) :
    Except RecordFault (Elementary2 Float) :=
  match tag with
  | "x" => .ok (.ofX .identity)
  | "y" => .ok (.ofY .identity)
  | "lin" => do
    let (a, b, c) ← readParameter? tag param fun
      | .array [a, b, c] => do some (← a.float?, ← b.float?, ← c.float?)
      | _ => none
    .ok (.linear a b c)
  | "poly" => (Polynomial2.ofParameter? tag param).map .polynomial
  | "spoly" => (Polynomial2.ofParameter? tag param).map .termwise
  | _ =>
    match splitVariable? tag with
    | some (name, 'x') => (Elementary1.ofName? tag param name).map .ofX
    | some (name, 'y') => (Elementary1.ofName? tag param name).map .ofY
    | _ => .error (.unknownFunction tag)

namespace Expr1

mutual

/-- The expression in one variable that a record describes. -/
def ofRecord? : ExprRecord → Except RecordFault (Expr1 Float)
  | .node tag param arg argx argy => do
    rejectArgument tag "argx" argx
    rejectArgument tag "argy" argy
    let f ← Elementary1.ofName? tag param tag
    let g ← ofArgument? arg
    .ok (.node f g)
  | .group terms => (ofTerms? terms).map .group

def ofArgument? : Option ExprRecord → Except RecordFault (Option (Expr1 Float))
  | none => .ok none
  | some r => (ofRecord? r).map some

def ofTerms? : List (List FactorRecord) → Except RecordFault (List (List (Factor1 Float)))
  | [] => .ok []
  | t :: rest => do
    let factors ← ofFactors? t
    let terms ← ofTerms? rest
    .ok (factors :: terms)

def ofFactors? : List FactorRecord → Except RecordFault (List (Factor1 Float))
  | [] => .ok []
  | .constant c :: rest => (ofFactors? rest).map (.constant c :: ·)
  | .expr r :: rest => do
    let e ← ofRecord? r
    let factors ← ofFactors? rest
    .ok (.expr e :: factors)

end
end Expr1

namespace Expr2

mutual

/-- The expression in two variables that a record describes. -/
def ofRecord? : ExprRecord → Except RecordFault (Expr2 Float)
  | .node tag param arg argx argy => do
    rejectArgument tag "arg" arg
    let f ← Elementary2.ofTag? tag param
    let gx ← Expr1.ofArgument? argx
    let gy ← Expr1.ofArgument? argy
    .ok (.node f gx gy)
  | .group terms => (ofTerms? terms).map .group

def ofTerms? : List (List FactorRecord) → Except RecordFault (List (List (Factor2 Float)))
  | [] => .ok []
  | t :: rest => do
    let factors ← ofFactors? t
    let terms ← ofTerms? rest
    .ok (factors :: terms)

def ofFactors? : List FactorRecord → Except RecordFault (List (Factor2 Float))
  | [] => .ok []
  | .constant c :: rest => (ofFactors? rest).map (.constant c :: ·)
  | .expr r :: rest => do
    let e ← ofRecord? r
    let factors ← ofFactors? rest
    .ok (.expr e :: factors)

end
end Expr2
end Helmholtz
