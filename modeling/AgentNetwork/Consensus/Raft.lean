import AgentNetwork.Plan.Operations
import AgentNetwork.Library.Traces

namespace AgentNetwork.Consensus

/-- Record of a DECIDE consensus decision. -/
structure DecideRecord where
  needId : String
  proposalId : String
  epoch : Int
  lamport : Int
  kPlan : Int
  deciderId : String
  timestampNs : Int
  deriving DecidableEq

/-- A record as a dictionary, in which a key may be missing. -/
structure DecideDict where
  needId : Option String
  proposalId : Option String
  epoch : Option Int
  lamport : Option Int
  kPlan : Option Int
  deciderId : Option String
  timestampNs : Option Int
  deriving DecidableEq

/-- `asdict`. -/
def DecideRecord.asdict (r : DecideRecord) : DecideDict :=
  ⟨r.needId, r.proposalId, r.epoch, r.lamport, r.kPlan, r.deciderId, r.timestampNs⟩

end AgentNetwork.Consensus

namespace AgentNetwork.Consensus

open Relational Transition

/-- `f"{bucket:03d}"`. -/
def padBucket (bucket : Nat) : String :=
  String.ofList (List.replicate (3 - (toString bucket).length) '0') ++ toString bucket

/-- The key of a need; the bucket is the first byte of a SHA-256. -/
def getDecideKey (getBucketForNeed : String → UInt8) (needId : String) : String :=
  "/decide/bucket-" ++ padBucket (getBucketForNeed needId).toNat ++ "/" ++ needId

/-- The records that etcd keeps, each the JSON of a `DecideRecord`. -/
abbrev Etcd := Table String DecideRecord

namespace RaftConsensusAdapter

/-- The check of `try_decide` against the epoch of its node. -/
def stale (currentEpoch : Int) (record : DecideRecord) : Bool := record.epoch < currentEpoch

/-- The transaction: put if the key has never been created. -/
def transaction (key : String) (record : DecideRecord) (etcd : Etcd) : Bool × Etcd :=
  if etcd.contains key then (false, etcd) else (true, etcd.upsert key record)

/-- What `try_decide` returns after a transaction that failed. -/
def idempotentRetry (record : DecideRecord) (existing : Option DecideRecord) : Option DecideRecord :=
  match existing with
  | some existingData =>
    if existingData.proposalId = record.proposalId ∧ existingData.epoch = record.epoch then some record else none
  | none => none

/-- `try_decide` when nothing comes between its steps; its arguments are the
fields of the record. -/
def tryDecide (getBucketForNeed : String → UInt8) (currentEpoch : Int) (record : DecideRecord) (etcd : Etcd) :
    Option DecideRecord × Etcd :=
  if stale currentEpoch record then (none, etcd)
  else
    let key := getDecideKey getBucketForNeed record.needId
    let (success, etcd) := transaction key record etcd
    if success then (some record, etcd) else (idempotentRetry record (etcd.get? key), etcd)

def getDecide (getBucketForNeed : String → UInt8) (needId : String) (etcd : Etcd) : Option DecideRecord :=
  etcd.get? (getDecideKey getBucketForNeed needId)

end RaftConsensusAdapter

/-- Where a call of `try_decide` has got to. -/
inductive Progress (ν : Type)
  | called (node : ν) (record : DecideRecord)
  | checked (record : DecideRecord)
  | refused (record : DecideRecord)
  | returned (record : DecideRecord) (result : Option DecideRecord)
  deriving DecidableEq

/-- etcd, the epoch of every node and the calls in flight. -/
structure Cluster (ν : Type) where
  etcd : Etcd
  epochs : ν → Int
  calls : Nat → Option (Progress ν)

inductive Action (ν : Type)
  | call (id : Nat) (node : ν) (record : DecideRecord)
  | check (id : Nat)
  | transact (id : Nat)
  | read (id : Nat)
  | advanceEpoch (node : ν)

namespace Cluster

open RaftConsensusAdapter

variable {ν : Type} [DecidableEq ν]

def setCall (c : Cluster ν) (id : Nat) (p : Progress ν) : Cluster ν :=
  { c with calls := Function.update c.calls id (some p) }

/-- One step of one call, or an epoch advancing on one node. -/
inductive Step (getBucketForNeed : String → UInt8) (c : Cluster ν) : Action ν → Cluster ν → Prop
  | call (id : Nat) (node : ν) (record : DecideRecord) : c.calls id = none →
      Step getBucketForNeed c (.call id node record) (c.setCall id (.called node record))
  | check (id : Nat) (node : ν) (record : DecideRecord) : c.calls id = some (.called node record) →
      Step getBucketForNeed c (.check id)
        (c.setCall id (if stale (c.epochs node) record then .returned record none else .checked record))
  | transact (id : Nat) (record : DecideRecord) (success : Bool) (etcd : Etcd) : c.calls id = some (.checked record) →
      transaction (getDecideKey getBucketForNeed record.needId) record c.etcd = (success, etcd) →
      Step getBucketForNeed c (.transact id)
        ({ c with etcd := etcd }.setCall id (if success then .returned record (some record) else .refused record))
  | read (id : Nat) (record : DecideRecord) : c.calls id = some (.refused record) →
      Step getBucketForNeed c (.read id) (c.setCall id
        (.returned record (idempotentRetry record (c.etcd.get? (getDecideKey getBucketForNeed record.needId)))))
  | advanceEpoch (node : ν) : Step getBucketForNeed c (.advanceEpoch node)
      { c with epochs := Function.update c.epochs node (c.epochs node + 1) }

end Cluster

end AgentNetwork.Consensus
