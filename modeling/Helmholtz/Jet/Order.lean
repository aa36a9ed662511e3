/-! The highest order of derivatives that an evaluation is asked for. -/

namespace Helmholtz

/-- Which derivatives are evaluated: none, the first ones, or the first and second ones. -/
inductive Order where
  | zeroth
  | first
  | second
  deriving DecidableEq

namespace Order

/-- First derivatives are evaluated. -/
def hasFirst : Order → Bool
  | zeroth => false
  | _ => true

/-- Second derivatives are evaluated. -/
def hasSecond : Order → Bool
  | second => true
  | _ => false

def toNat : Order → Nat
  | zeroth => 0
  | first => 1
  | second => 2

/-- An order that is not 0, 1 or 2. -/
structure Unsupported where
  order : Nat
  deriving DecidableEq

def Unsupported.message (e : Unsupported) : String :=
  s!"Derivatives of order {e.order} are not supported (expected 0, 1 or 2)."

def ofNat? : Nat → Except Unsupported Order
  | 0 => .ok zeroth
  | 1 => .ok first
  | 2 => .ok second
  | n => .error ⟨n⟩

/-- The name under which an order is reported. -/
def name : Order → String
  | zeroth => "Zeroth"
  | first => "First"
  | second => "Second"

theorem ofNat?_toNat (o : Order) : ofNat? o.toNat = .ok o := by
  cases o <;> rfl

end Order
end Helmholtz
