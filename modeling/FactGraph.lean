import FactGraph.Rules.Scoping.Reads
import FactGraph.Rules.Reference.Frontier
import FactGraph.Store.AsOf
import FactGraph.Souffle.Refinement
import FactGraph.Entity.Routes
import FactGraph.Query.Exact
import FactGraph.Mapping.Resolved
import FactGraph.Rules.Overlaid
import FactGraph.View.Identity
import FactGraph.Derivation.BestEffort
import FactGraph.View.Written
import FactGraph.View.Batches
import FactGraph.Souffle.Collisions
import FactGraph.Derivation.Outputs
import FactGraph.Souffle.Transport
import FactGraph.Scenario.WorldV2
import FactGraph.Scenario.Lossless
import FactGraph.Sidecar.Runs
import FactGraph.Pyreason.Annotations
import FactGraph.Evaluate.Gate
import FactGraph.Authoring.HeadTerms
import FactGraph.Evaluate.ContainsRow
import FactGraph.Goal.Compare
import FactGraph.Problog.Variables
import FactGraph.Db.Accumulator
import FactGraph.Audit.RoundRuns
import FactGraph.Policy.ContentDigest
import FactGraph.Explain.RoundTrip
import FactGraph.Pyreason.Naming
