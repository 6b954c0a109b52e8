import Meshcast.Agent
import Meshcast.Frame
import Meshcast.Mesh
import Meshcast.Node.View
import Meshcast.Proofs.ChangeFlags
import Meshcast.Proofs.Runs
import Meshcast.Proofs.Neighborhood
import Meshcast.Proofs.DerivedState
import Meshcast.Proofs.Identity
import Meshcast.Proofs.Maintenance
import Meshcast.Proofs.Announcements
import Meshcast.Proofs.ControlPackets
import Meshcast.Proofs.Copies
import Meshcast.Proofs.Network
import Meshcast.Proofs.Flooding
import Meshcast.Proofs.Prim
import Meshcast.Proofs.Cascade
import Meshcast.Proofs.Overlays
import Meshcast.Proofs.LinkSensing
import Meshcast.Proofs.ShortestPaths
import Meshcast.Proofs.Reachability
import Meshcast.Proofs.Contraction
import Meshcast.Proofs.TreeSearch
import Meshcast.Proofs.GroupTrees
import Meshcast.Proofs.Wire
import Meshcast.Proofs.Convergence
import Meshcast.Proofs.HoldTime
import Meshcast.Proofs.Advertisers
import Meshcast.Proofs.Learners
import Meshcast.Proofs.Precedence
import Meshcast.Proofs.Exchange
import Meshcast.Proofs.Mirrors
import Meshcast.Proofs.ControlCode
import Meshcast.Proofs.DataCode
import Meshcast.Proofs.Framing
import Meshcast.Proofs.Handshake
import Meshcast.Proofs.Supersession
import Meshcast.Proofs.TableRuns
import Meshcast.Proofs.Reporting
import Meshcast.Proofs.DeadlineMaps
import Meshcast.Proofs.Impersonation
import Meshcast.Proofs.Distances
import Meshcast.Proofs.Elimination
import Meshcast.Proofs.RelayChain
import Meshcast.Proofs.Silence
import Meshcast.Proofs.Partitions
import Meshcast.Proofs.MinimumTrees
import Meshcast.Proofs.GreedyChoice
import Meshcast.Proofs.RepeatedGreetings
import Meshcast.Proofs.Memberships
import Meshcast.Proofs.Sweeping
import Meshcast.Proofs.GracePeriods
import Meshcast.Proofs.FinishedOverlays
import Meshcast.Proofs.Digraphs
import Meshcast.Proofs.TreePaths
import Meshcast.Proofs.MarkChains
import Meshcast.Proofs.NearestTimes
