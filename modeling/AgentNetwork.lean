import AgentNetwork.Library.Table
import AgentNetwork.Library.Program
import AgentNetwork.Library.Atomicity
import AgentNetwork.Library.LockSafety
import AgentNetwork.Library.Runs
import AgentNetwork.Library.Double
import AgentNetwork.Library.Json
import AgentNetwork.Library.JsonText
import AgentNetwork.Library.JsonWriter
import AgentNetwork.Library.Base64
import AgentNetwork.Library.PythonText
import AgentNetwork.Library.PythonNumber
import AgentNetwork.Economics.Operations
import AgentNetwork.Economics.Database
import AgentNetwork.Economics.Ledger
import AgentNetwork.Economics.Stake
import AgentNetwork.Economics.Slashing
import AgentNetwork.Economics.Bounties
import AgentNetwork.Economics.Payout
import AgentNetwork.Economics.Reputation
import AgentNetwork.Economics.Calls
import AgentNetwork.Economics.Transactions
import AgentNetwork.Economics.Statements
import AgentNetwork.Economics.Effects
import AgentNetwork.Economics.Conservation
import AgentNetwork.Economics.Locks
import AgentNetwork.Economics.Payments
import AgentNetwork.Economics.Solvency
import AgentNetwork.Economics.Lifecycle
import AgentNetwork.Economics.Shares
import AgentNetwork.Economics.Distribution
import AgentNetwork.Economics.Rewards
import AgentNetwork.Economics.SlashReport
import AgentNetwork.Economics.Legible
import AgentNetwork.Library.StableSort
import AgentNetwork.Plan.Operations
import AgentNetwork.Plan.AutomergeStore
import AgentNetwork.Plan.Replay
import AgentNetwork.Plan.Merge
import AgentNetwork.Plan.LastWriterWins
import AgentNetwork.Plan.Convergence
import AgentNetwork.Plan.Incremental
import AgentNetwork.Economics.AuditTrail
import AgentNetwork.Library.ListSet
import AgentNetwork.Library.Traces
import AgentNetwork.Sharding.Dependencies
import AgentNetwork.Sharding.Readiness
import AgentNetwork.Consensus.Raft
import AgentNetwork.Consensus.Merge
import AgentNetwork.Plan.PlanStore
import AgentNetwork.Plan.Agreement
import AgentNetwork.Consensus.OneDecision
import AgentNetwork.Handlers.Node
import AgentNetwork.Handlers.Stretches
import AgentNetwork.Handlers.FinalState
import AgentNetwork.Handlers.Leases
import AgentNetwork.Consensus.Quorum
import AgentNetwork.Consensus.Bootstrap
import AgentNetwork.Handlers.AttestPlan
import AgentNetwork.Plan.Failures
import AgentNetwork.Handlers.Invalidate
import AgentNetwork.Library.Grounding
import AgentNetwork.Policy.Envelope
import AgentNetwork.Policy.Engine
import AgentNetwork.Policy.Gates
import AgentNetwork.Policy.PreflightCache
import AgentNetwork.Policy.Authenticity
import AgentNetwork.Bus.Publish
import AgentNetwork.Bus.Delivery
import AgentNetwork.Library.Subject
import AgentNetwork.Bus.HybridBus
import AgentNetwork.Library.JsonSorted
import AgentNetwork.Bus.P2PBus
import AgentNetwork.Policy.Admission
import AgentNetwork.Sharding.Commitment
import AgentNetwork.Sharding.Cascade
import AgentNetwork.Sharding.Publication
import AgentNetwork.Sharding.Overtaking
import AgentNetwork.Sharding.Finality
import AgentNetwork.Sharding.Escrow
import AgentNetwork.Sharding.EscrowHistory
import AgentNetwork.Sharding.EscrowExpiry
import AgentNetwork.Bus.ExactlyOnce
import AgentNetwork.Bus.P2PDelivery
import AgentNetwork.Handlers.Reclaim
import AgentNetwork.Handlers.Holders
import AgentNetwork.Library.Awaiting
import AgentNetwork.Marketplace.Channels
import AgentNetwork.Marketplace.ChannelFunds
import AgentNetwork.Marketplace.Governance
import AgentNetwork.Marketplace.Voting
import AgentNetwork.Marketplace.LateVotes
import AgentNetwork.Marketplace.TaskMarketplace
import AgentNetwork.Challenges.Queue
import AgentNetwork.Challenges.Verdicts
import AgentNetwork.Bus.ConnectionPool
import AgentNetwork.Bus.PoolSharing
import AgentNetwork.Checkpoint.Pruning
import AgentNetwork.Checkpoint.Archive
import AgentNetwork.Economics.Selection
import AgentNetwork.Economics.Committees
import AgentNetwork.Leases.Manager
import AgentNetwork.Leases.DeadLeases
import AgentNetwork.Challenges.Admission
import AgentNetwork.Challenges.Proofs
import AgentNetwork.Challenges.Submission
import AgentNetwork.Challenges.Outcomes
import AgentNetwork.Library.DepthFirst
import AgentNetwork.Plan.Views
import AgentNetwork.Plan.Patching
import AgentNetwork.Plan.PatchCycles
import AgentNetwork.Plan.PatchMerge
import AgentNetwork.Plan.PatchLosses
import AgentNetwork.Library.Ties
import AgentNetwork.Plan.PatchOrder
import AgentNetwork.Plan.ArrivalOrder
import AgentNetwork.Plan.Migration
import AgentNetwork.Handlers.AttestCommit
import AgentNetwork.Handlers.UpdatePlan
import AgentNetwork.Identity.Did
import AgentNetwork.Economics.EscrowFrames
import AgentNetwork.Identity.Stakes
import AgentNetwork.Identity.Creations
import AgentNetwork.Library.PythonValues
import AgentNetwork.Routing.Filters
import AgentNetwork.Routing.Bandit
import AgentNetwork.Routing.Shortlist
import AgentNetwork.Routing.Router
import AgentNetwork.Tools.AuditLog
import AgentNetwork.Tools.Simulator
import AgentNetwork.Tools.Replay
import AgentNetwork.Tools.BusRuns
import AgentNetwork.Tools.HonestReplay
import AgentNetwork.Auction.Bidding
import AgentNetwork.Auction.LateBids
import AgentNetwork.Auction.Winners
import AgentNetwork.Marketplace.CircuitBreaker
import AgentNetwork.Marketplace.RateLimiter
import AgentNetwork.Clock.Lamport
import AgentNetwork.Challenges.Priorities
import AgentNetwork.Plan.Snapshots
import AgentNetwork.Library.Reachability
import AgentNetwork.Library.TopologicalOrder
import AgentNetwork.Plan.Traversal
import AgentNetwork.Cas.MerkleProof
import AgentNetwork.Checkpoint.Checkpoints
import AgentNetwork.Library.JsonIndent
import AgentNetwork.Library.PythonBytes
import AgentNetwork.Checkpoint.Storage
import AgentNetwork.Checkpoint.Latest
import AgentNetwork.Challenges.RateLimits
import AgentNetwork.Challenges.Windows
import AgentNetwork.Sharding.CycleSearch
import AgentNetwork.Sharding.Deadlocks
import AgentNetwork.Sharding.Topology
import AgentNetwork.Sharding.Registry
import AgentNetwork.Sharding.Router
import AgentNetwork.Cas.IpldFormat
import AgentNetwork.Cas.ThreadRoundTrip
import AgentNetwork.P2P.Gossipsub
import AgentNetwork.P2P.DeliveredOnce
import AgentNetwork.Identity.Manifest
import AgentNetwork.Identity.ManifestRegistry
import AgentNetwork.Identity.SignedManifests
import AgentNetwork.Marketplace.AgentRegistry
import AgentNetwork.Marketplace.AgentSearch
import AgentNetwork.Marketplace.AgentWrites
import AgentNetwork.Routing.ZonePreference
import AgentNetwork.Routing.ManifestIndexes
import AgentNetwork.P2P.ConnectionPool
import AgentNetwork.Routing.Scoring
import AgentNetwork.Monitoring.PartitionDetector
import AgentNetwork.Identity.DidSignatures
import AgentNetwork.Tools.Reordering
import AgentNetwork.Plan.StoreViews
import AgentNetwork.Checkpoint.FastSync
import AgentNetwork.Handlers.LonePatch
import AgentNetwork.Library.PythonEquality
import AgentNetwork.Library.TableDiff
import AgentNetwork.Plan.ReadyTasks
import AgentNetwork.Plan.VersionHistory
import AgentNetwork.Plan.PeerSync
import AgentNetwork.Plan.PeerDiscovery
import AgentNetwork.Policy.Capsules
import AgentNetwork.Consensus.Epochs
import AgentNetwork.Handlers.Ballots
import AgentNetwork.Handlers.EvalDigest
