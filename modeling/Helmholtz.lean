import Helmholtz.Expr.Build
import Helmholtz.Expr.Text
import Helmholtz.Fit.Catalogue
import Helmholtz.Fit.Text
import Helmholtz.Jet.Text
import Helmholtz.Proofs.BlockRows
import Helmholtz.Proofs.DescendingTerms
import Helmholtz.Proofs.DirectSum
import Helmholtz.Proofs.EngineAgreement
import Helmholtz.Proofs.FiniteConstants
import Helmholtz.Proofs.FiniteDoubles
import Helmholtz.Proofs.Formula
import Helmholtz.Proofs.GenericEngine
import Helmholtz.Proofs.HelmholtzEnergy
import Helmholtz.Proofs.HigherSlots
import Helmholtz.Proofs.Horner
import Helmholtz.Proofs.JetRing
import Helmholtz.Proofs.NamedFunctions
import Helmholtz.Proofs.NodeFaults
import Helmholtz.Proofs.OrderIndependence
import Helmholtz.Proofs.PolynomialSums
import Helmholtz.Proofs.PropertyDerivatives
import Helmholtz.Proofs.PropertyIdentities
import Helmholtz.Proofs.RealDerivatives
import Helmholtz.Proofs.RealScalars
import Helmholtz.Proofs.TreeDerivatives
import Helmholtz.Proofs.TrivialPowers
import Helmholtz.Proofs.WellFormedRecord
import Helmholtz.Proofs.FirstFault
import Helmholtz.Proofs.RecordGrammar
import Helmholtz.Proofs.RoundTrip
import Helmholtz.Proofs.PowerExponents
import Helmholtz.Proofs.HornerAgreement
import Helmholtz.Proofs.BlockReading
import Helmholtz.Proofs.ByteOrder
import Helmholtz.Proofs.CatalogueLookup
import Helmholtz.Proofs.ChainRule
import Helmholtz.Proofs.Substitution
import Helmholtz.Proofs.WeightExponents
import Helmholtz.Proofs.NeutralExponents
import Helmholtz.Proofs.NaturalExponents
import Helmholtz.Proofs.BlockNumbers
import Helmholtz.Proofs.TruncatedJets
import Helmholtz.Proofs.Rearrangement
import Helmholtz.Proofs.DistinctKeys
import Helmholtz.Proofs.AcceptedRecords
import Helmholtz.Proofs.TrialOrder
import Helmholtz.Proofs.CompositionAlgebra
import Helmholtz.Proofs.AdmittedTerms
