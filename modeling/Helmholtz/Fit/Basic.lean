import Helmholtz.Fit.Record
import Helmholtz.Fit.Residual
import Helmholtz.Jet.Columns

/-! Fits of the Helmholtz energy of a pure substance, and the properties that follow from them.

The reduced Helmholtz energy is the sum of an ideal gas part and a residual part, both functions of
the reduced inverse temperature `tt = tc / T` and the reduced density `dd = d / dc`. Properties are
evaluated for lists of temperatures and densities. -/

namespace Helmholtz

/-- A fit of a pure substance. -/
structure Fit (α : Type u) where
  identifier : Identifier
  molarWeight : α
  tc : α
  dc : α
  r : α
  idealGas : IdealGas α
  residual : Residual α

/-- Both parts of the reduced Helmholtz energy and their sum, with derivatives. -/
structure HelmholtzColumns (α : Type u) where
  idealGas : Columns2 α
  residual : Columns2 α
  total : Columns2 α
  deriving DecidableEq

namespace Fit
variable {α : Type u}

def ofSubstance? [Zero α] [One α] [ReadsExponent α] (s : Substance α) :
    Except (BlockFault α) (Fit α) := do
  let m := s.record
  let residual ← Residual.ofBlocks? m.blocks
  .ok ⟨s.identifier, s.molarWeight, m.tc, m.dc, m.r, m.idealGas, residual⟩

variable [Zero α] [One α] [Add α] [Sub α] [Mul α] [Neg α] [Div α] [NatCast α] [IntCast α]
  [Transcendental α] [BEq α]

/-- Reduced inverse temperature. -/
def reducedTemperature (m : Fit α) (t : α) : α := m.tc / t

/-- Reduced density. -/
def reducedDensity (m : Fit α) (d : α) : α := d / m.dc

/-- The ideal gas part at a temperature and a density. -/
def idealGasAt (m : Fit α) (t d : α) (o : Order) : Jet2 α :=
  m.idealGas.eval (m.reducedTemperature t) (m.reducedDensity d) o

/-- The residual part at a temperature and a density. -/
def residualAt (m : Fit α) (t d : α) (o : Order) : Jet2 α :=
  m.residual.eval (m.reducedTemperature t) (m.reducedDensity d) o

/-- The reduced Helmholtz energy with its derivatives by the reduced variables. -/
def helmholtz? (m : Fit α) (ts ds : List α) (o : Order) :
    Except LengthMismatch (HelmholtzColumns α) := do
  let a ← mapPairs? (fun t d => (m.idealGasAt t d o, m.residualAt t d o)) ts ds
  .ok {
    idealGas := .ofJets (a.map (·.1))
    residual := .ofJets (a.map (·.2))
    total := .ofJets (a.map fun (ideal, residual) => ideal + residual) }

/-- Compressibility factor, the pressure over that of the ideal gas. -/
def compressibilityAt (m : Fit α) (t d : α) : α :=
  1 + m.reducedDensity d * (m.residualAt t d .first).fy

def pressureAt (m : Fit α) (t d : α) : α := m.r * t * d * m.compressibilityAt t d

/-- Specific internal energy. -/
def energyAt (m : Fit α) (t d : α) : α :=
  m.r * t * m.reducedTemperature t * ((m.idealGasAt t d .first).fx + (m.residualAt t d .first).fx)

/-- Specific enthalpy. -/
def enthalpyAt (m : Fit α) (t d : α) : α :=
  let a := m.idealGasAt t d .first
  let b := m.residualAt t d .first
  m.r * t * (1 + m.reducedTemperature t * (a.fx + b.fx) + m.reducedDensity d * b.fy)

/-- Specific entropy. -/
def entropyAt (m : Fit α) (t d : α) : α :=
  let a := m.idealGasAt t d .first
  let b := m.residualAt t d .first
  m.r * (m.reducedTemperature t * (a.fx + b.fx) - a.f - b.f)

/-- Specific isochoric heat capacity. -/
def heatCapacityAt (m : Fit α) (t d : α) : α :=
  -m.r * m.reducedTemperature t * m.reducedTemperature t *
    ((m.idealGasAt t d .second).fxx + (m.residualAt t d .second).fxx)

end Fit

/-- A property of a substance at a temperature and a density. -/
inductive Property where
  | pressure
  | compressibility
  | energy
  | enthalpy
  | entropy
  | heatCapacity
  deriving DecidableEq

namespace Fit
variable {α : Type u} [Zero α] [One α] [Add α] [Sub α] [Mul α] [Neg α] [Div α] [NatCast α]
  [IntCast α] [Transcendental α] [BEq α]

/-- A property at one temperature and density. -/
def propertyAt (m : Fit α) : Property → α → α → α
  | .pressure => m.pressureAt
  | .compressibility => m.compressibilityAt
  | .energy => m.energyAt
  | .enthalpy => m.enthalpyAt
  | .entropy => m.entropyAt
  | .heatCapacity => m.heatCapacityAt

/-- A property at all pairs of temperatures and densities. -/
def property? (m : Fit α) (p : Property) (ts ds : List α) : Except LengthMismatch (List α) :=
  mapPairs? (m.propertyAt p) ts ds

end Fit
end Helmholtz
