import Helmholtz.Jet.Bivariate

/-! Evaluation over lists of points, collected into one list per derivative. -/

namespace Helmholtz

/-- Lists of points that should be paired, but differ in length. -/
structure LengthMismatch where
  left : Nat
  right : Nat
  deriving DecidableEq

def LengthMismatch.message (e : LengthMismatch) : String :=
  s!"Input arrays have incompatible lengths {e.left} and {e.right}."

/-- Applies `f` to the pairs at equal positions of two lists of one length. -/
def mapPairs? {α : Type u} {β : Type v} {γ : Type w} (f : α → β → γ) (xs : List α) (ys : List β) :
    Except LengthMismatch (List γ) :=
  if xs.length = ys.length then .ok (List.zipWith f xs ys)
  else .error ⟨xs.length, ys.length⟩

/-- The jets of a function of one variable at a list of points, one list for each derivative. -/
structure Columns1 (α : Type u) where
  f : List α
  fx : List α
  fxx : List α
  deriving DecidableEq

/-- The jets of a function of two variables at a list of points, one list for each derivative. -/
structure Columns2 (α : Type u) where
  f : List α
  fx : List α
  fy : List α
  fxx : List α
  fxy : List α
  fyy : List α
  deriving DecidableEq

variable {α : Type u}

def Columns1.ofJets (js : List (Jet1 α)) : Columns1 α :=
  ⟨js.map (·.f), js.map (·.fx), js.map (·.fxx)⟩

def Columns2.ofJets (js : List (Jet2 α)) : Columns2 α :=
  ⟨js.map (·.f), js.map (·.fx), js.map (·.fy), js.map (·.fxx), js.map (·.fxy), js.map (·.fyy)⟩

/-- A function of one variable at every point. -/
def evalAll (f : α → Jet1 α) (xs : List α) : Columns1 α := .ofJets (xs.map f)

/-- A function of two variables at every pair of points. -/
def evalPairs? (f : α → α → Jet2 α) (xs ys : List α) : Except LengthMismatch (Columns2 α) :=
  (mapPairs? f xs ys).map .ofJets

end Helmholtz
