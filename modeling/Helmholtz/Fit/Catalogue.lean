import Helmholtz.Fit.Basic

/-! Looking up substances in a catalogue, which is a JSON text with a list of substances. -/

namespace Helmholtz

/-- Why substances cannot be selected. -/
inductive SelectionFault where
  /-- A name is asked for twice. -/
  | repeatedName
  /-- Names that no entry has, in ascending order. -/
  | notFound (names : List String)
  deriving DecidableEq

def SelectionFault.message : SelectionFault → String
  | repeatedName => "Incompatible parameters: A substance was defined more than once."
  | notFound names =>
    "The following substance(s) were not found: " ++ ", ".intercalate names

namespace Catalogue
variable {ρ : Type u}

/-- Goes through the entries until every pending name has been met. Returns the names that are still
pending and the entries that were taken, each with its name. -/
def collect (key : ρ → Option String) :
    List ρ → (pending : List String) → (taken : List (String × ρ)) →
      List String × List (String × ρ)
  | [], pending, taken => (pending, taken)
  | entry :: rest, pending, taken =>
    if pending.isEmpty then (pending, taken)
    else
      match key entry with
      | none => collect key rest pending taken
      | some name =>
        if pending.contains name then
          collect key rest (pending.erase name) ((name, entry) :: taken)
        else collect key rest pending taken

/-- The entries with the given names, in the order of the names. -/
def select? (key : ρ → Option String) (names : List String) (entries : List ρ) :
    Except SelectionFault (List ρ) :=
  if names.Nodup then
    let (pending, taken) := collect key entries names []
    if pending.isEmpty then .ok (names.filterMap fun name => taken.lookup name)
    else .error (.notFound (pending.mergeSort (· ≤ ·)))
  else .error .repeatedName

end Catalogue

/-- Why a fit cannot be made from a catalogue. -/
inductive CatalogueFault where
  | missingFile
  /-- The text is no JSON, or no list of substances. -/
  | malformed
  | selection (fault : SelectionFault)
  | block (fault : BlockFault Float)

namespace Substance

/-- The list of substances in a JSON text. -/
def listOfText? (text : String) : Option (List (Substance Float)) :=
  (Json.ofText? text).bind (Json.list? ofJson?)

/-- Selects substances by one kind of name. -/
def selectBy? {α : Type u} (kind : IdentifierKind) (names : List String)
    (catalogue : List (Substance α)) : Except SelectionFault (List (Substance α)) :=
  Catalogue.select? (·.identifier.get? kind) names catalogue

/-- Selects substances from the content of a file, which is absent if there is no such file. -/
def ofFile? (kind : IdentifierKind) (names : List String) (content : Option String) :
    Except CatalogueFault (List (Substance Float)) :=
  match content with
  | none => .error .missingFile
  | some text =>
    match listOfText? text with
    | none => .error .malformed
    | some catalogue => (selectBy? kind names catalogue).mapError .selection

end Substance

namespace Fit

/-- The fit of the last substance that was selected. -/
def ofSelected? (name : String) (selected : List (Substance Float)) :
    Except CatalogueFault (Fit Float) :=
  match selected.getLast? with
  | none => .error (.selection (.notFound [name]))
  | some s => (ofSubstance? s).mapError .block

/-- The fit of one substance from the content of a file. -/
def ofFile? (kind : IdentifierKind) (name : String) (content : Option String) :
    Except CatalogueFault (Fit Float) := do
  ofSelected? name (← Substance.ofFile? kind [name] content)

end Fit
end Helmholtz
