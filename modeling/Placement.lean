import Placement.Balancer
import Placement.Config.File
import Placement.Ownership
import Placement.Proofs.Identity
import Placement.Proofs.Loads
import Placement.Proofs.Averages
import Placement.Proofs.Replay
import Placement.Proofs.Pairing
import Placement.Proofs.Targets
import Placement.Proofs.Reaching
import Placement.Proofs.Balancing
import Placement.Proofs.Disturbance
import Placement.Proofs.Improvement
import Placement.Proofs.LeastLoaded
import Placement.Proofs.ColdStart
import Placement.Proofs.Decimal
import Placement.Proofs.Tolerance
import Placement.Proofs.Failure
import Placement.Proofs.Ownership
import Placement.Proofs.Conservation
import Placement.Proofs.MoveOrder
import Placement.Proofs.Undoing
import Placement.Proofs.Rendering
import Placement.Proofs.Retained
import Placement.Proofs.Restart
import Placement.Proofs.OwnerMap
import Placement.Proofs.Failover
import Placement.Proofs.Superseded
import Placement.Proofs.PairingScan
import Placement.Proofs.Indifference
import Placement.Proofs.Resumption
import Placement.Proofs.Dealing
import Placement.Proofs.Rounding
import Placement.Proofs.Fields
import Placement.Proofs.Shortest
import Placement.Proofs.Bytes
import Placement.Proofs.Yaml.Lexing
import Placement.Proofs.Yaml.Graph
import Placement.Proofs.Yaml.Composing
import Placement.Proofs.Yaml.Building
import Placement.Proofs.Yaml.Numbers
import Placement.Proofs.Yaml.Lines
import Placement.Proofs.Yaml.Mapping
import Placement.Proofs.Containment
import Placement.Proofs.FileText
import Placement.Proofs.Picking
import Placement.Proofs.MoveRule
import Placement.Proofs.Evenness
import Placement.Proofs.HistoryOrder
import Placement.Proofs.Comparison
import Placement.Proofs.Reports
