import Antecedent.Contract.JointLaw
import Antecedent.Contract.LedgerHistory
import Antecedent.Contract.LedgerReentry
import Antecedent.Contract.LedgerStanding
import Antecedent.Core.RecalcExact
import Antecedent.Discovery.AdjacencyMaskExact
import Antecedent.Discovery.GesCompletion
import Antecedent.Discovery.GesScore
import Antecedent.Discovery.MinimizeSepset
import Antecedent.Discovery.PcExact
import Antecedent.Discovery.UncoveredPaths
import Antecedent.Expr.Assignment
import Antecedent.Expr.Import
import Antecedent.Graph.BatchInsertion
import Antecedent.Graph.DirectedPaths
import Antecedent.Graph.PagCalls
import Antecedent.Graph.PagSeparation
import Antecedent.Graph.Projection
import Antecedent.Graph.UnfoldPag
import Antecedent.Identify.BindFormula
import Antecedent.Identify.CpdagEnumerate
import Antecedent.Identify.GeneralIdMemo
import Antecedent.Identify.JointAdjustment
import Antecedent.Identify.MixedSearch
import Antecedent.Identify.MixedSound
import Antecedent.Identify.StudyPlanExact
import Antecedent.Identify.Tiered
import Antecedent.Identify.TransportExchange
import Antecedent.Identify.TransportSound
import Antecedent.Identify.WitnessTotal
import Antecedent.Io.ContainerExact
import Antecedent.Io.GraphWireExact
import Antecedent.Io.Migrate
import Antecedent.State.InputIdentities
import Antecedent.State.Republication
import Antecedent.State.SuffStats
