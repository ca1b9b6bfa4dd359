import AgentNetwork.Consensus.Raft
import AgentNetwork.Plan.PlanStore
import AgentNetwork.Sharding.Dependencies

namespace AgentNetwork.Handlers

open Relational Plan Consensus Sharding

structure Envelope (α : Type) where
  threadId : String
  senderPkB64 : String
  lamport : Int
  payload : α
  deriving DecidableEq

structure DecidePayload where
  needId : Option String
  proposalId : Option String
  taskId : Option String
  epoch : Option Int
  kPlan : Option Int
  deriving DecidableEq

structure ClaimPayload where
  taskId : Option String
  workerId : Option String
  leaseTtl : Option Int
  cost : Option Int
  eta : Option Int
  heartbeatInterval : Option Int
  needId : Option String
  proposalId : Option String
  epoch : Option Int
  kPlan : Option Int
  deriving DecidableEq

structure FinalizePayload where
  taskId : Option String
  shardId : Option Int
  metadata : Option Json
  deriving DecidableEq

structure ReleasePayload where
  taskId : Option String
  leaseId : Option String
  reason : Option String
  deriving DecidableEq

structure YieldPayload where
  taskId : Option String
  reason : Option String
  deriving DecidableEq

structure Lease where
  leaseId : String
  taskId : String
  workerId : String
  ttl : Int
  createdAt : Int
  lastHeartbeat : Int
  heartbeatInterval : Int
  deriving DecidableEq

/-- What one process of the network holds. -/
structure Node (κ : Type) where
  planStore : PlanStore
  leaseRegistry : Table String Lease
  consensus : κ
  dependencyDag : Option DependencyDAG

/-- `try_decide` of the adapter that is configured; it may raise. -/
abbrev TryDecide (κ : Type) := DecideRecord → κ → Except String (Option DecideRecord) × κ

/-- The ids and the times that a handler draws. -/
structure Draws where
  uuid4 : Nat → String
  timeNs : Nat → Int

/-- `if not value` turns away a missing value and an empty one. -/
def given (value : Option String) : Option String := value.filter (· ≠ "")

/-- A dictionary display. -/
def dict (fields : List (String × Json)) : Table String Json :=
  fields.foldl (fun table entry => table.upsert entry.1 entry.2) .empty

def optional (value : Option Int) : Json := (value.map Json.int).getD .null

def minLeaseTtl : Int := 60

/-- A claim that has passed its checks. -/
structure Claim where
  envelope : Envelope ClaimPayload
  taskId : String
  workerId : String
  leaseTtl : Int
  heartbeatInterval : Int
  deriving DecidableEq

/-- What a handler goes on with when its appends are done. -/
inductive Continuation
  | finished
  | completeShard (shardId : Int)
  | backToClaim (claim : Claim)
  deriving DecidableEq

/-- Where a handler stands between two awaits. `decided` records whether the
`try_decide` of the claim returned a record, which the handler itself is not told. -/
inductive Stage
  | claimExtended (envelope : Envelope ClaimPayload)
  | decide (envelope : Envelope DecidePayload) (caller : Option Claim)
  | finalize (envelope : Envelope FinalizePayload)
  | release (envelope : Envelope ReleasePayload)
  | yields (envelope : Envelope YieldPayload)
  | appends (ops : List PlanOp) (next : Continuation)
  | getTask (claim : Claim) (decided : Bool)
  | register (claim : Claim) (decided : Bool) (task : Option TaskView)
  deriving DecidableEq

/-- `_find_task_lease`. -/
def findTaskLease (taskId : String) (leaseRegistry : Table String Lease) : Option Lease :=
  (leaseRegistry.entries.map Prod.snd).find? fun lease => lease.taskId = taskId

/-- The validation and the lock check of `handle_claim_extended`. -/
def admitClaim (envelope : Envelope ClaimPayload) (leaseRegistry : Table String Lease) : Option Claim := do
  let payload := envelope.payload
  let workerId := payload.workerId.getD envelope.senderPkB64
  let heartbeatInterval := payload.heartbeatInterval.getD 30
  let taskId ← given payload.taskId
  let leaseTtl ← payload.leaseTtl
  if leaseTtl = 0 ∨ leaseTtl < minLeaseTtl then none
  else if heartbeatInterval ≤ 0 ∨ heartbeatInterval ≥ leaseTtl then none
  else if payload.cost.any (· ≤ 0) ∨ payload.eta.any (· ≤ 0) then none
  else if (findTaskLease taskId leaseRegistry).any (·.workerId ≠ workerId) then none
  else some ⟨envelope, taskId, workerId, leaseTtl, heartbeatInterval⟩

/-- The DECIDE that a claim is routed through. -/
def Claim.decideEnvelope (claim : Claim) : Envelope DecidePayload :=
  let payload := claim.envelope.payload
  ⟨claim.envelope.threadId, claim.envelope.senderPkB64, claim.envelope.lamport + 1,
    ⟨payload.needId.getD claim.taskId, payload.proposalId.getD claim.workerId, claim.taskId, payload.epoch.getD 1,
      payload.kPlan.getD 1⟩⟩

/-- The operations by which an accepted DECIDE is written down. -/
def decideOps (envelope : Envelope DecidePayload) (record : DecideRecord) (draws : Draws) : List PlanOp :=
  let taskId := given envelope.payload.taskId
  let stateOps := taskId.toList.map fun taskId =>
    PlanOp.mk (draws.uuid4 0) envelope.threadId envelope.lamport envelope.senderPkB64 .state taskId
      (dict [("state", .str TaskState.decided.value)]) (draws.timeNs 1)
  let decideOp := PlanOp.mk (draws.uuid4 1) envelope.threadId envelope.lamport envelope.senderPkB64 .annotate
    (taskId.getD record.needId)
    (dict [("annotation_type", .str "decide"), ("need_id", .str record.needId), ("proposal_id", .str record.proposalId),
      ("epoch", .int record.epoch), ("k_plan", .int record.kPlan), ("decider", .str envelope.senderPkB64),
      ("decided_at", .int (draws.timeNs 2))])
    (draws.timeNs 3)
  stateOps ++ [decideOp]

def finalizeOps (envelope : Envelope FinalizePayload) (taskId : String) (draws : Draws) : List PlanOp :=
  [⟨draws.uuid4 0, envelope.threadId, envelope.lamport, envelope.senderPkB64, .state, taskId,
      dict [("state", .str TaskState.final.value)], draws.timeNs 0⟩,
    ⟨draws.uuid4 1, envelope.threadId, envelope.lamport, envelope.senderPkB64, .annotate, taskId,
      dict [("annotation_type", .str "finalize"), ("finalized_by", .str envelope.senderPkB64),
        ("finalized_at", .int (draws.timeNs 1)), ("metadata", envelope.payload.metadata.getD (.obj []))],
      draws.timeNs 2⟩]

/-- The operation that puts a task back to DRAFT, one lamport after the envelope. -/
def draftOp {α : Type} (envelope : Envelope α) (taskId : String) (draws : Draws) : PlanOp :=
  ⟨draws.uuid4 1, envelope.threadId, envelope.lamport + 1, envelope.senderPkB64, .state, taskId,
    dict [("state", .str TaskState.draft.value)], draws.timeNs 2⟩

def releaseOps (envelope : Envelope ReleasePayload) (taskId leaseId : String) (draws : Draws) : List PlanOp :=
  let reason := envelope.payload.reason.getD "timeout"
  let reason := if reason ∈ ["timeout", "heartbeat_miss"] then reason else "timeout"
  [⟨draws.uuid4 0, envelope.threadId, envelope.lamport, envelope.senderPkB64, .annotate, taskId,
      dict [("annotation_type", .str "release"), ("lease_id", .str leaseId), ("reason", .str reason),
        ("released_at", .int (draws.timeNs 0)), ("system_initiated", .bool true)],
      draws.timeNs 1⟩,
    draftOp envelope taskId draws]

def yieldOps (envelope : Envelope YieldPayload) (taskId : String) (draws : Draws) : List PlanOp :=
  [⟨draws.uuid4 0, envelope.threadId, envelope.lamport, envelope.senderPkB64, .annotate, taskId,
      dict [("annotation_type", .str "yield"), ("yielder", .str envelope.senderPkB64),
        ("reason", .str (envelope.payload.reason.getD "voluntary_yield")), ("yielded_at", .int (draws.timeNs 0))],
      draws.timeNs 1⟩,
    draftOp envelope taskId draws]

def Claim.lease (claim : Claim) (draws : Draws) : Lease :=
  ⟨draws.uuid4 0, claim.taskId, claim.workerId, claim.leaseTtl, draws.timeNs 0, draws.timeNs 0, claim.heartbeatInterval⟩

def Claim.claimOp (claim : Claim) (draws : Draws) : PlanOp :=
  ⟨draws.uuid4 1, claim.envelope.threadId, claim.envelope.lamport, claim.envelope.senderPkB64, .annotate, claim.taskId,
    dict [("annotation_type", .str "claim_extended"), ("lease_id", .str (draws.uuid4 0)),
      ("worker_id", .str claim.workerId), ("lease_ttl", .int claim.leaseTtl),
      ("heartbeat_interval", .int claim.heartbeatInterval), ("cost", optional claim.envelope.payload.cost),
      ("eta", optional claim.envelope.payload.eta), ("claimed_at", .int (draws.timeNs 0))],
    draws.timeNs 0⟩

/-- `_check_cross_shard_dependencies`, passed when there is no graph or no shard. -/
def checkCrossShardDependencies (payload : FinalizePayload) (dependencyDag : Option DependencyDAG) : Bool :=
  match dependencyDag, payload.shardId with
  | some dag, some shardId => (dag.getBlockingShards shardId).elems.isEmpty
  | _, _ => true

/-- The claim that awaited a DECIDE goes on, whatever became of it. -/
def backTo (caller : Option Claim) (decided : Bool) : Option Stage := caller.map fun claim => .getTask claim decided

/-- `handle_decide` up to its first await. -/
def startDecide {κ : Type} (adapter : Option (TryDecide κ)) (draws : Draws) (envelope : Envelope DecidePayload)
    (caller : Option Claim) (node : Node κ) : Option Stage × Node κ :=
  let payload := envelope.payload
  match given payload.needId, given payload.proposalId, adapter with
  | some needId, some proposalId, some tryDecide =>
    let record : DecideRecord := ⟨needId, proposalId, payload.epoch.getD 1, envelope.lamport, payload.kPlan.getD 1,
      envelope.senderPkB64, draws.timeNs 0⟩
    match tryDecide record node.consensus with
    | (.error _, consensus) => (none, { node with consensus := consensus })
    | (.ok none, consensus) => (backTo caller false, { node with consensus := consensus })
    | (.ok (some _), consensus) =>
      (some (.appends (decideOps envelope record draws) ((caller.map Continuation.backToClaim).getD .finished)),
        { node with consensus := consensus })
  | _, _, _ => (backTo caller false, node)

/-- One stretch of a handler, up to its next await; `none` when it has returned or
raised. `allowed` is the decision of the policy on a YIELD. -/
def Stage.resume {κ : Type} (adapter : Option (TryDecide κ)) (allowed : Envelope YieldPayload → Bool) (draws : Draws) :
    Stage → Node κ → Option Stage × Node κ
  | .claimExtended envelope, node =>
    ((admitClaim envelope node.leaseRegistry).map fun claim => .decide claim.decideEnvelope (some claim), node)
  | .decide envelope caller, node => startDecide adapter draws envelope caller node
  | .finalize envelope, node =>
    match given envelope.payload.taskId with
    | none => (none, node)
    | some taskId =>
      if checkCrossShardDependencies envelope.payload node.dependencyDag then
        let next := (envelope.payload.shardId.map Continuation.completeShard).getD .finished
        (some (.appends (finalizeOps envelope taskId draws) next), node)
      else (none, node)
  | .release envelope, node =>
    match given envelope.payload.taskId, given envelope.payload.leaseId with
    | some taskId, some leaseId => (some (.appends (releaseOps envelope taskId leaseId draws) .finished), node)
    | _, _ => (none, node)
  | .yields envelope, node =>
    if allowed envelope ∧ envelope.threadId ≠ "" ∧ envelope.senderPkB64 ≠ "" then
      ((given envelope.payload.taskId).map fun taskId => .appends (yieldOps envelope taskId draws) .finished, node)
    else (none, node)
  | .appends (op :: ops) next, node =>
    match node.planStore.appendOp op with
    | (.ok _, planStore) => (some (.appends ops next), { node with planStore := planStore })
    | (.error _, planStore) => (none, { node with planStore := planStore })
  | .appends [] next, node =>
    match next with
    | .finished => (none, node)
    | .completeShard shardId =>
      (none, { node with dependencyDag := node.dependencyDag.map fun dag => (dag.markShardComplete shardId).2 })
    | .backToClaim claim => (some (.getTask claim true), node)
  | .getTask claim decided, node => (some (.register claim decided (node.planStore.getTask claim.taskId)), node)
  | .register claim _ task, node =>
    if task.any (·.state = .str TaskState.decided.value) then
      let lease := claim.lease draws
      (some (.appends [claim.claimOp draws] .finished),
        { node with leaseRegistry := node.leaseRegistry.upsert lease.leaseId lease })
    else (none, node)

/-- The handlers of a process that are under way, and the leases they have
registered so far, each with its claim. -/
structure Process (κ : Type) where
  node : Node κ
  running : Nat → Option Stage
  granted : List (Lease × Claim × Bool)
  checkedAt : Nat → Nat

inductive Action (κ : Type)
  | receive (id : Nat) (stage : Stage)
  | resume (id : Nat) (draws : Draws)
  | elsewhere (consensus : κ)

/-- The stages in which an envelope arrives. -/
def Stage.arrives : Stage → Bool
  | .claimExtended _ | .decide _ none | .finalize _ | .release _ | .yields _ => true
  | .decide _ (some _) | .appends _ _ | .getTask _ _ | .register _ _ _ => false

/-- The lease that a stretch registers. -/
def Stage.grant (draws : Draws) : Stage → Option (Lease × Claim × Bool)
  | .register claim decided task =>
    if task.any (·.state = .str TaskState.decided.value) then some (claim.lease draws, claim, decided) else none
  | .claimExtended _ | .decide _ _ | .finalize _ | .release _ | .yields _ | .appends _ _ | .getTask _ _ => none

namespace Process

variable {κ : Type}

/-- The process after a stretch of one handler. -/
def resumed (adapter : Option (TryDecide κ)) (allowed : Envelope YieldPayload → Bool) (p : Process κ) (id : Nat)
    (draws : Draws) (stage : Stage) : Process κ :=
  let (next, node) := stage.resume adapter allowed draws p.node
  { node := node
    running := Function.update p.running id next
    granted := p.granted ++ (stage.grant draws).toList
    checkedAt := match stage with
      | .claimExtended _ => Function.update p.checkedAt id p.granted.length
      | _ => p.checkedAt }

/-- One step of a process: an envelope arrives, a handler runs to its next await,
or another process decides something. A lease id is never drawn twice. -/
inductive Step (adapter : Option (TryDecide κ)) (allowed : Envelope YieldPayload → Bool) (p : Process κ) :
    Action κ → Process κ → Prop
  | receive (id : Nat) (stage : Stage) : p.running id = none → stage.arrives = true →
      Step adapter allowed p (.receive id stage) { p with running := Function.update p.running id (some stage) }
  | resume (id : Nat) (draws : Draws) (stage : Stage) : p.running id = some stage →
      p.node.leaseRegistry.get? (draws.uuid4 0) = none →
      Step adapter allowed p (.resume id draws) (p.resumed adapter allowed id draws stage)
  | elsewhere (consensus : κ) :
      Step adapter allowed p (.elsewhere consensus) { p with node := { p.node with consensus := consensus } }

end Process

end AgentNetwork.Handlers
