import AgentNetwork.Handlers.Node
import AgentNetwork.Library.Awaiting
import AgentNetwork.Library.JsonSorted
import AgentNetwork.Policy.Gates

namespace AgentNetwork.Handlers

open Relational Plan Policy Python

/-- An ATTEST envelope: the dictionary, and what is read out of it. -/
structure CommitAttest where
  fields : Dict
  threadId : String
  senderPkB64 : String
  lamport : Int
  payload : Dict
  commitId : Option String
  taskId : Option String
  hasThread : fields.lookup "thread_id" = some (.str threadId)
  hasSender : fields.lookup "sender_pk_b64" = some (.str senderPkB64)
  hasLamport : fields.lookup "lamport" = some (.int lamport)
  hasPayload : fields.lookup "payload" = some (.obj payload)
  hasCommit : getKey payload "commit_id" = (commitId.map Json.str).getD .null
  hasTask : getKey payload "task_id" = (taskId.map Json.str).getD .null

/-- The arguments of `try_decide`. -/
structure DecideCall where
  needId : Json
  proposalId : Json
  epoch : Int
  lamport : Int
  kPlan : Nat
  deciderId : String
  timestampNs : Int
  deriving DecidableEq

inductive AttestError
  | sqlError (error : SqlError)
  | typeError (message : String)
  | consensusError (message : String)
  deriving DecidableEq

/-- How a call ends, and the `try_decide` it makes. -/
structure Handled where
  outcome : Except AttestError Unit
  decide : Option DecideCall

structure CommitNode (κ : Type) where
  planStore : PlanStore
  consensus : κ

def orNull (text : Option String) : Json := (text.map Json.str).getD .null

section Handler

variable {κ : Type} (isPrintable : Char → Bool) (sha256Hex : String → String)
  (consensusAdapter : Option (DecideCall → κ → Except String Bool × κ)) (kPlan : Nat)

/-- The commit gate of a new `GateEnforcer()`; a telemetry that is no dictionary
raises in it, and is caught in it. -/
def commitGate (message : CommitAttest) : PolicyDecision :=
  match asDict (getOr message.payload "telemetry" (.obj [])) with
  | .error text => GateEnforcer.errorDecision .commitGate "Commit gate" text
  | .ok telemetry =>
    let gateEnforcer := GateEnforcer.new (defaultOpaEngine isPrintable) (defaultWasmRuntime isPrintable) true
    (gateEnforcer.commitGateValidate isPrintable message.fields telemetry).1

/-- `compute_eval_digest`. -/
def computeEvalDigest (policyInput decision : Json) (policyHash : String) : String :=
  sha256Hex (cjson (.obj [("input", policyInput.sorted), ("decision", decision.sorted), ("policy_hash", .str policyHash)]))

/-- The operation that records the attestation. -/
def attestationOp (message : CommitAttest) (commitId : String) (decision : PolicyDecision) (draws : Draws) : PlanOp :=
  let payload := message.payload
  let attestationId := getOr payload "attestation_id" (.str (draws.uuid4 0))
  let verdict := if decision.allowed then getOr payload "verdict" (.str "approved") else .str "rejected"
  let policyInput := Json.obj [("commit_id", .str commitId), ("task_id", getKey payload "task_id"),
    ("telemetry", getOr payload "telemetry" (.obj [])), ("attester", .str message.senderPkB64)]
  let policyDecision := Json.obj [("allowed", .bool decision.allowed), ("reason", orNull decision.reason),
    ("gas_used", .int decision.gasUsed)]
  let digest := computeEvalDigest sha256Hex policyInput policyDecision ((given decision.policyHash).getD "unknown")
  ⟨draws.uuid4 1, message.threadId, message.lamport, message.senderPkB64, .annotate, (given message.taskId).getD "unknown",
    dict [("annotation_type", .str "attestation"), ("attestation_id", attestationId), ("commit_id", .str commitId),
      ("attester", .str message.senderPkB64), ("verdict", verdict), ("attested_at", .int (draws.timeNs 0)),
      ("policy_eval_digest", .str digest), ("policy_decision", policyDecision), ("gas_used", .int decision.gasUsed)],
    draws.timeNs 1⟩

/-- The operations that are counted for the threshold. -/
def isAttestation (commitId : String) (op : PlanOp) : Bool :=
  op.opType = .annotate ∧ op.payload.get? "annotation_type" = some (.str "attestation") ∧
    op.payload.get? "commit_id" = some (.str commitId)

/-- `handle_attest`. The operations of the thread are asked for, but not awaited. -/
def handleAttest (message : CommitAttest) (draws : Draws) (node : CommitNode κ) : CommitNode κ × Handled :=
  match given message.commitId with
  | none => (node, ⟨.ok (), none⟩)
  | some commitId =>
    let op := attestationOp sha256Hex message commitId (commitGate isPrintable message) draws
    match node.planStore.appendOp op with
    | (.error e, planStore) => ({ node with planStore := planStore }, ⟨.error (.sqlError e), none⟩)
    | (.ok _, planStore) =>
      let node := { node with planStore := planStore }
      match (Called.coroutine (planStore.getOpsForThread message.threadId)).iterate with
      | .error e => (node, ⟨.error (.typeError e.message), none⟩)
      | .ok allOps =>
        let attestations := allOps.filter (isAttestation commitId)
        match if kPlan ≤ attestations.length then consensusAdapter else none with
        | none => (node, ⟨.ok (), none⟩)
        | some tryDecide =>
          let call : DecideCall := ⟨getOr message.payload "need_id" (.str "default-need"),
            getOr message.payload "proposal_id" (.str commitId), 1, message.lamport, attestations.length,
            message.senderPkB64, draws.timeNs 2⟩
          match tryDecide call node.consensus with
          | (.ok _, consensus) => ({ node with consensus := consensus }, ⟨.ok (), some call⟩)
          | (.error e, consensus) => ({ node with consensus := consensus }, ⟨.error (.consensusError e), some call⟩)

/-- The node after a run of envelopes, each handled to its end. -/
def handleAll (run : List (CommitAttest × Draws)) (node : CommitNode κ) : CommitNode κ :=
  run.foldl (fun node m => (handleAttest isPrintable sha256Hex consensusAdapter kPlan m.1 m.2 node).1) node

/-- The senders that have attested the commit with an approving verdict, which the
commit gate has let through. -/
def approvingSenders (commitId : String) (seen : List CommitAttest) : Finset String :=
  ((seen.filter fun m => m.commitId = some commitId ∧ getOr m.payload "verdict" (.str "approved") = .str "approved" ∧
    (commitGate isPrintable m).allowed).map CommitAttest.senderPkB64).toFinset

/-- The call completes, and decides as soon as there are enough senders. -/
structure AtThreshold (seen : List CommitAttest) (message : CommitAttest) (handled : Handled) : Prop where
  completes : handled.outcome = .ok ()
  decides : handled.decide.map DecideCall.kPlan = (given message.commitId).bind fun commitId =>
    let senders := approvingSenders isPrintable commitId seen
    if kPlan ≤ senders.card then some senders.card else none

/-- Every envelope of the run is handled as its senders call for. -/
def RunAtThreshold (run : List (CommitAttest × Draws)) (node : CommitNode κ) : Prop :=
  ∀ before m after, run = before ++ m :: after →
    AtThreshold isPrintable kPlan ((before ++ [m]).map Prod.fst) m.1
      (handleAttest isPrintable sha256Hex consensusAdapter kPlan m.1 m.2
        (handleAll isPrintable sha256Hex consensusAdapter kPlan before node)).2

/-- An envelope with a commit is recorded at most; then the handler raises. -/
theorem handleAttest_raises {message : CommitAttest} {commitId : String} (h : given message.commitId = some commitId)
    (draws : Draws) (node : CommitNode κ) :
    ∃ e, (handleAttest isPrintable sha256Hex consensusAdapter kPlan message draws node).2 = ⟨.error e, none⟩ := by
  unfold handleAttest
  rw [h]
  dsimp only [Called.iterate]
  split
  next e _ _ => exact ⟨.sqlError e, rfl⟩
  next => exact ⟨.typeError "'coroutine' object is not iterable", rfl⟩

theorem handleAttest_returns {message : CommitAttest} (h : given message.commitId = none) (draws : Draws)
    (node : CommitNode κ) :
    handleAttest isPrintable sha256Hex consensusAdapter kPlan message draws node = (node, ⟨.ok (), none⟩) := by
  unfold handleAttest
  rw [h]

/-- A run is handled as its senders call for exactly when none of its envelopes
names a commit. -/
theorem runAtThreshold_iff (run : List (CommitAttest × Draws)) (node : CommitNode κ) :
    RunAtThreshold isPrintable sha256Hex consensusAdapter kPlan run node ↔ ∀ m ∈ run, given m.1.commitId = none := by
  constructor
  · intro h m hm
    obtain ⟨before, after, hrun⟩ := List.append_of_mem hm
    have hcompletes := (h before m after hrun).completes
    cases hcommit : given m.1.commitId with
    | none => rfl
    | some commitId =>
      obtain ⟨e, hraises⟩ := handleAttest_raises isPrintable sha256Hex consensusAdapter kPlan hcommit m.2
        (handleAll isPrintable sha256Hex consensusAdapter kPlan before node)
      rw [hraises] at hcompletes
      cases hcompletes
  · intro h before m after hrun
    have hcommit := h m (hrun ▸ List.mem_append_right _ List.mem_cons_self)
    rw [handleAttest_returns isPrintable sha256Hex consensusAdapter kPlan hcommit]
    refine ⟨rfl, ?_⟩
    rw [hcommit]
    rfl

end Handler

/-- An attestation of one commit by one sender. -/
def sampleAttest : CommitAttest where
  fields := [("thread_id", .str "north"), ("sender_pk_b64", .str "alice"), ("lamport", .int 1),
    ("payload", .obj [("commit_id", .str "commit")])]
  threadId := "north"
  senderPkB64 := "alice"
  lamport := 1
  payload := [("commit_id", .str "commit")]
  commitId := "commit"
  taskId := none
  hasThread := rfl
  hasSender := rfl
  hasLamport := rfl
  hasPayload := rfl
  hasCommit := rfl
  hasTask := rfl

/-- The first attestation of a commit is recorded, but its handler raises. -/
theorem handleAttest_unfinished :
    let adapter : Option (DecideCall → Unit → Except String Bool × Unit) := some fun _ s => (.ok true, s)
    let draws : Draws := ⟨fun n => if n = 0 then "attestation" else "op", fun _ => 0⟩
    let node : CommitNode Unit := ⟨.init, ()⟩
    let handled := handleAttest (fun _ => true) (fun _ => "digest") adapter 1 sampleAttest draws node
    handled.1.planStore.ops.length = 1 ∧
      handled.2 = ⟨.error (.typeError "'coroutine' object is not iterable"), none⟩ ∧
      ¬RunAtThreshold (fun _ => true) (fun _ => "digest") adapter 1 [(sampleAttest, draws)] node := by
  intro adapter draws node handled
  have hraises : handled.2 = ⟨.error (.typeError "'coroutine' object is not iterable"), none⟩ := by rfl
  refine ⟨by rfl, hraises, ?_⟩
  intro h
  have hcompletes : handled.2.outcome = .ok () := (h [] (sampleAttest, draws) [] rfl).completes
  rw [hraises] at hcompletes
  cases hcompletes

end AgentNetwork.Handlers
