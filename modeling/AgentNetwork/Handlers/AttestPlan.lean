import AgentNetwork.Consensus.Quorum
import AgentNetwork.Economics.Stake
import AgentNetwork.Handlers.FinalState
import AgentNetwork.Library.Traces

namespace AgentNetwork.Handlers

open Relational Plan Consensus Transition

structure AttestPayload where
  needId : Option String
  proposalId : Option String
  verdict : Option Json

/-- An ATTEST_PLAN envelope; its epoch is beside the payload. -/
structure Attest where
  envelope : Envelope AttestPayload
  epoch : Option Int

/-- What the injected pool answers while an envelope is handled; it may raise. -/
structure PoolView where
  getVerifier : String → Except String (Option VerifierRecord)
  getActiveVerifiers : Int → Except String (List (String × VerifierRecord))

/-- The view that a pool in its database gives. -/
def PoolView.ofDb (db : Db) : PoolView :=
  ⟨fun verifierId => .ok (VerifierPool.getVerifier verifierId db),
    fun minStake => .ok (VerifierPool.getActiveVerifiers minStake db)⟩

/-- A pool that fails is passed over. -/
def inPool (verifierPool : Option PoolView) (sender : String) : Bool :=
  match verifierPool with
  | none => true
  | some pool =>
    match pool.getVerifier sender with
    | .ok none => false
    | .ok (some verifier) => verifier.active
    | .error _ => true

/-- The need and the proposal of an approval that counts. -/
def admitAttest (verifierPool : Option PoolView) (message : Attest) : Option (String × String) := do
  let payload := message.envelope.payload
  let verdict := payload.verdict.getD (.str "approve")
  let needId ← given payload.needId
  let proposalId ← given payload.proposalId
  if verdict ∉ [Json.str "approve", Json.str "reject"] then none
  else if verdict ≠ .str "approve" then none
  else if inPool verifierPool message.envelope.senderPkB64 then some (needId, proposalId) else none

def activeVerifiers (verifierPool : Option PoolView) : Int :=
  match verifierPool with
  | none => 10
  | some pool =>
    match pool.getActiveVerifiers 100 with
    | .ok verifiers => verifiers.length
    | .error _ => 10

/-- The quorum that the pool of the moment asks for. -/
def currentKPlan (verifierPool : Option PoolView) : Int :=
  QuorumTracker.getKPlan (activeVerifiers verifierPool) (Double.nearest (3 / 10)) 5

def attestOp (envelope : Envelope AttestPayload) (needId proposalId : String) (draws : Draws) : PlanOp :=
  ⟨draws.uuid4 0, envelope.threadId, envelope.lamport, envelope.senderPkB64, .annotate, needId,
    dict [("annotation_type", .str "attest_plan"), ("proposal_id", .str proposalId),
      ("verifier", .str envelope.senderPkB64), ("verdict", .str "approve"), ("attested_at", .int (draws.timeNs 0))],
    draws.timeNs 1⟩

/-- What `handle_attest_plan` works on. -/
structure AttestNode (κ : Type) where
  planStore : PlanStore
  consensus : κ
  quorumTracker : QuorumTracker

structure Approval where
  needId : String
  proposalId : String
  verifierId : String
  deriving DecidableEq

/-- What one call has done: the approval it counted, whether it was told that the
quorum is complete, and the arguments of its `try_decide`. -/
structure Attested where
  approval : Option Approval
  quorumReached : Bool
  decide : Option DecideRecord

/-- `handle_attest_plan`. The append never suspends, so that nothing comes between
the recording of an attestation and the DECIDE. -/
def handleAttestPlan {κ : Type} (adapter : Option (TryDecide κ)) (verifierPool : Option PoolView) (draws : Draws)
    (message : Attest) (node : AttestNode κ) : AttestNode κ × Attested :=
  match admitAttest verifierPool message with
  | none => (node, ⟨none, false, none⟩)
  | some (needId, proposalId) =>
    let envelope := message.envelope
    let sender := envelope.senderPkB64
    let kPlan := currentKPlan verifierPool
    let (quorumReached, quorumTracker) :=
      QuorumTracker.recordAttestation needId proposalId sender kPlan node.quorumTracker
    let (appended, planStore) := node.planStore.appendOp (attestOp envelope needId proposalId draws)
    let node := { node with planStore := planStore, quorumTracker := quorumTracker }
    let approval := some ⟨needId, proposalId, sender⟩
    match appended, quorumReached, adapter with
    | .ok _, true, some tryDecide =>
      let record : DecideRecord := ⟨needId, proposalId, message.epoch.getD 1, envelope.lamport, kPlan, "quorum-system",
        draws.timeNs 2⟩
      ({ node with consensus := (tryDecide record node.consensus).2 }, ⟨approval, true, some record⟩)
    | _, _, _ => (node, ⟨approval, quorumReached, none⟩)

/-- A node and what has been seen on it: the approvals counted, the attestations
reported as completing a quorum, and the calls of `try_decide`, each with the
approvals that had been counted by then. -/
structure Attestation (κ : Type) where
  node : AttestNode κ
  approvals : List Approval
  completed : List (String × String)
  decides : List (DecideRecord × List Approval)

inductive AttestAction (κ : Type)
  | receive (message : Attest) (verifierPool : Option PoolView) (draws : Draws)
  | elsewhere (planStore : PlanStore) (consensus : κ)

namespace Attestation

variable {κ : Type}

def received (adapter : Option (TryDecide κ)) (p : Attestation κ) (message : Attest) (verifierPool : Option PoolView)
    (draws : Draws) : Attestation κ :=
  let (node, attested) := handleAttestPlan adapter verifierPool draws message p.node
  let approvals := p.approvals ++ attested.approval.toList
  { node := node
    approvals := approvals
    completed := p.completed ++
      if attested.quorumReached then (attested.approval.map fun a => (a.needId, a.proposalId)).toList else []
    decides := p.decides ++ (attested.decide.map fun record => (record, approvals)).toList }

/-- An envelope is handled, with the pool as it is then, or something else writes
to the plan store and decides. -/
inductive Step (adapter : Option (TryDecide κ)) (p : Attestation κ) : AttestAction κ → Attestation κ → Prop
  | receive (message : Attest) (verifierPool : Option PoolView) (draws : Draws) :
      Step adapter p (.receive message verifierPool draws) (p.received adapter message verifierPool draws)
  | elsewhere (planStore : PlanStore) (consensus : κ) :
      Step adapter p (.elsewhere planStore consensus)
        { p with node := { p.node with planStore := planStore, consensus := consensus } }

end Attestation

/-- The verifiers that have approved a proposal. -/
def approvers (needId proposalId : String) (approvals : List Approval) : Finset String :=
  ((approvals.filter fun a => a.needId = needId ∧ a.proposalId = proposalId).map Approval.verifierId).toFinset

theorem mem_approvers {needId proposalId verifierId : String} {approvals : List Approval} :
    verifierId ∈ approvers needId proposalId approvals ↔ ⟨needId, proposalId, verifierId⟩ ∈ approvals := by
  simp only [approvers, List.mem_toFinset, List.mem_map, List.mem_filter, decide_eq_true_eq]
  constructor
  · intro h
    obtain ⟨a, ⟨hm, rfl, rfl⟩, rfl⟩ := h
    exact hm
  · intro h
    exact ⟨_, ⟨h, rfl, rfl⟩, rfl⟩

/-- At most one attestation of a proposal has been reported as completing its quorum. -/
def OneCompletion {κ : Type} (p : Attestation κ) : Prop := ∀ key, p.completed.count key ≤ 1

/-- As many verifiers had approved each proposal that was decided as its record says. -/
def Backed {κ : Type} (p : Attestation κ) : Prop :=
  ∀ d ∈ p.decides, d.1.kPlan ≤ ((approvers d.1.needId d.1.proposalId d.2).card : Int)

instance {κ : Type} (p : Attestation κ) : Decidable (Backed p) :=
  inferInstanceAs (Decidable (∀ d ∈ p.decides, d.1.kPlan ≤ ((approvers d.1.needId d.1.proposalId d.2).card : Int)))

/-- When an approval completes the quorum of its proposal, the pool asks for no more
than it did when the first approval came. -/
def KeepsThreshold {κ : Type} (adapter : Option (TryDecide κ)) (p : Attestation κ) : AttestAction κ → Prop
  | .receive message verifierPool draws =>
    ∀ needId proposalId state, admitAttest verifierPool message = some (needId, proposalId) →
      p.node.quorumTracker.get? (needId, proposalId) = some state →
      message.envelope.senderPkB64 ∉ state.attestations →
      (state.attestations.elems.length : Int) + 1 = state.kPlanRequired →
      (p.node.planStore.appendOp (attestOp message.envelope needId proposalId draws)).1 = .ok () → adapter ≠ none →
      currentKPlan verifierPool ≤ state.kPlanRequired
  | .elsewhere _ _ => True

section Runs

variable {κ : Type} {adapter : Option (TryDecide κ)} {p p' : Attestation κ}

/-- The tracker holds the approvals that have been counted, and a proposal that was
reported complete has its quorum. -/
structure Tracking (p : Attestation κ) : Prop where
  attested : ∀ needId proposalId state, p.node.quorumTracker.get? (needId, proposalId) = some state →
    ∀ v, v ∈ state.attestations ↔ ⟨needId, proposalId, v⟩ ∈ p.approvals
  untouched : ∀ needId proposalId, p.node.quorumTracker.get? (needId, proposalId) = none →
    ∀ v, ⟨needId, proposalId, v⟩ ∉ p.approvals
  complete : ∀ key, key ∈ p.completed → QuorumTracker.checkQuorum key.1 key.2 p.node.quorumTracker = true
  once : OneCompletion p

theorem card_approvers {needId proposalId : String} {approvals : List Approval} {attestations : ListSet String}
    (h : ∀ v, v ∈ attestations ↔ ⟨needId, proposalId, v⟩ ∈ approvals) :
    (approvers needId proposalId approvals).card = attestations.elems.length := by
  have hsame : approvers needId proposalId approvals = attestations.elems.toFinset := by
    ext v
    rw [mem_approvers, List.mem_toFinset, ← h v]
    exact ListSet.mem_def
  rw [hsame, List.toFinset_card_of_nodup attestations.nodup]

section Call

variable {verifierPool : Option PoolView} {draws : Draws} {message : Attest} {node : AttestNode κ}
  {needId proposalId : String}

/-- How the tracker records the approval of a call. -/
def recording (verifierPool : Option PoolView) (message : Attest) (node : AttestNode κ) (needId proposalId : String) :
    Bool × QuorumTracker :=
  QuorumTracker.recordAttestation needId proposalId message.envelope.senderPkB64 (currentKPlan verifierPool)
    node.quorumTracker

theorem handleAttestPlan_none (h : admitAttest verifierPool message = none) :
    handleAttestPlan adapter verifierPool draws message node = (node, ⟨none, false, none⟩) := by
  rw [handleAttestPlan, h]

theorem handleAttestPlan_tracker (h : admitAttest verifierPool message = some (needId, proposalId)) :
    (handleAttestPlan adapter verifierPool draws message node).1.quorumTracker =
      (recording verifierPool message node needId proposalId).2 := by
  rw [handleAttestPlan, h]
  dsimp only
  split <;> rfl

theorem handleAttestPlan_approval (h : admitAttest verifierPool message = some (needId, proposalId)) :
    (handleAttestPlan adapter verifierPool draws message node).2.approval =
      some ⟨needId, proposalId, message.envelope.senderPkB64⟩ := by
  rw [handleAttestPlan, h]
  dsimp only
  split <;> rfl

theorem handleAttestPlan_reached (h : admitAttest verifierPool message = some (needId, proposalId)) :
    (handleAttestPlan adapter verifierPool draws message node).2.quorumReached =
      (recording verifierPool message node needId proposalId).1 := by
  rw [handleAttestPlan, h]
  dsimp only
  split
  next hreached => exact hreached.symm
  next => rfl

/-- What a DECIDE of the quorum names. -/
theorem handleAttestPlan_decide {record : DecideRecord}
    (h : admitAttest verifierPool message = some (needId, proposalId))
    (hdecide : (handleAttestPlan adapter verifierPool draws message node).2.decide = some record) :
    record.needId = needId ∧ record.proposalId = proposalId ∧ record.kPlan = currentKPlan verifierPool := by
  rw [handleAttestPlan, h] at hdecide
  dsimp only at hdecide
  split at hdecide
  next =>
    rw [← Option.some.inj hdecide]
    exact ⟨rfl, rfl, rfl⟩
  next => cases hdecide

theorem handleAttestPlan_decides_iff (h : admitAttest verifierPool message = some (needId, proposalId)) :
    (handleAttestPlan adapter verifierPool draws message node).2.decide ≠ none ↔
      (recording verifierPool message node needId proposalId).1 = true ∧
      (node.planStore.appendOp (attestOp message.envelope needId proposalId draws)).1 = .ok () ∧ adapter ≠ none := by
  rw [handleAttestPlan, h]
  dsimp only
  split
  next happended hreached =>
    constructor
    · intro _
      exact ⟨hreached, happended, Option.some_ne_none _⟩
    · intro _
      exact Option.some_ne_none _
  next hnot =>
    constructor
    · intro hsome
      exact absurd rfl hsome
    · intro hall
      obtain ⟨hreached, hok, hadapter⟩ := hall
      obtain ⟨tryDecide, hsome⟩ := Option.ne_none_iff_exists'.mp hadapter
      exact absurd hsome (hnot () tryDecide hok hreached)

end Call

section Admitted

variable {verifierPool : Option PoolView} {draws : Draws} {message : Attest} {needId proposalId : String}

/-- The state to which the tracker adds the approval. -/
def recordedState (verifierPool : Option PoolView) (node : AttestNode κ) (needId proposalId : String) : QuorumState :=
  (node.quorumTracker.get? (needId, proposalId)).getD ⟨needId, proposalId, .empty, currentKPlan verifierPool⟩

theorem recording_get? (node : AttestNode κ) (key : String × String) :
    (recording verifierPool message node needId proposalId).2.get? key =
      if key = (needId, proposalId) then
        some ((recordedState verifierPool node needId proposalId).addAttestation message.envelope.senderPkB64).2
      else node.quorumTracker.get? key := Table.get?_upsert _ _ _ _

theorem Tracking.recorded (h : Tracking p) (v : String) :
    v ∈ (recordedState verifierPool p.node needId proposalId).attestations ↔ ⟨needId, proposalId, v⟩ ∈ p.approvals := by
  unfold recordedState
  cases hget : p.node.quorumTracker.get? (needId, proposalId) with
  | none =>
    constructor
    · intro hv
      exact absurd hv (ListSet.not_mem_empty v)
    · intro hv
      exact absurd hv (h.untouched needId proposalId hget v)
  | some state => exact h.attested needId proposalId state hget v

theorem Tracking.recorded_after (h : Tracking p) (v : String) :
    v ∈ ((recordedState verifierPool p.node needId proposalId).addAttestation message.envelope.senderPkB64).2.attestations ↔
      ⟨needId, proposalId, v⟩ ∈ p.approvals ++ [⟨needId, proposalId, message.envelope.senderPkB64⟩] := by
  show v ∈ ListSet.add _ _ ↔ _
  rw [ListSet.mem_add, h.recorded, List.mem_append, List.mem_singleton, Approval.mk.injEq]
  tauto

theorem received_approvals (hadmits : admitAttest verifierPool message = some (needId, proposalId)) :
    (p.received adapter message verifierPool draws).approvals =
      p.approvals ++ [⟨needId, proposalId, message.envelope.senderPkB64⟩] := by
  show p.approvals ++ (handleAttestPlan adapter verifierPool draws message p.node).2.approval.toList = _
  rw [handleAttestPlan_approval hadmits]
  rfl

theorem received_tracker (hadmits : admitAttest verifierPool message = some (needId, proposalId)) :
    (p.received adapter message verifierPool draws).node.quorumTracker =
      (recording verifierPool message p.node needId proposalId).2 := handleAttestPlan_tracker hadmits

theorem received_completed (hadmits : admitAttest verifierPool message = some (needId, proposalId)) :
    (p.received adapter message verifierPool draws).completed =
      p.completed ++ if (recording verifierPool message p.node needId proposalId).1 then [(needId, proposalId)] else [] := by
  show p.completed ++ (if (handleAttestPlan adapter verifierPool draws message p.node).2.quorumReached then
    ((handleAttestPlan adapter verifierPool draws message p.node).2.approval.map
      fun a => (a.needId, a.proposalId)).toList else []) = _
  rw [handleAttestPlan_reached hadmits, handleAttestPlan_approval hadmits]
  rfl

theorem received_none (hadmits : admitAttest verifierPool message = none) :
    p.received adapter message verifierPool draws = p := by
  rw [Attestation.received, handleAttestPlan_none hadmits]
  simp

/-- The step lemma of the tracker. -/
theorem Tracking.admitted (h : Tracking p) (hadmits : admitAttest verifierPool message = some (needId, proposalId)) :
    Tracking (p.received adapter message verifierPool draws) := by
  refine ⟨?_, ?_, ?_, ?_⟩
  · intro n q state hget v
    rw [received_tracker hadmits, recording_get?] at hget
    rw [received_approvals hadmits]
    split at hget
    next hkey =>
      rw [← Option.some.inj hget, (Prod.mk.inj hkey).1, (Prod.mk.inj hkey).2]
      exact h.recorded_after v
    next hkey =>
      rw [h.attested n q state hget v, List.mem_append, List.mem_singleton, Approval.mk.injEq]
      have hne : ¬(n = needId ∧ q = proposalId) := fun hboth => hkey (by rw [hboth.1, hboth.2])
      tauto
  · intro n q hget v
    rw [received_tracker hadmits, recording_get?] at hget
    rw [received_approvals hadmits]
    split at hget
    next => cases hget
    next hkey =>
      rw [List.mem_append, List.mem_singleton, Approval.mk.injEq]
      have hold := h.untouched n q hget v
      have hne : ¬(n = needId ∧ q = proposalId) := fun hboth => hkey (by rw [hboth.1, hboth.2])
      tauto
  · intro key hkey
    rw [received_completed hadmits] at hkey
    rw [received_tracker hadmits]
    rcases List.mem_append.mp hkey with hold | hnew
    · exact QuorumTracker.recordAttestation_keeps (h.complete key hold)
    · split at hnew
      next hreached =>
        rw [List.mem_singleton.mp hnew]
        exact (QuorumTracker.recordAttestation_reached hreached).2
      next => cases hnew
  · intro key
    rw [received_completed hadmits]
    split
    next hreached =>
      rw [List.count_append]
      have hsingle := h.once key
      by_cases hkey : key = (needId, proposalId)
      · -- a proposal that is completed now had no quorum before
        have hnot : key ∉ p.completed := by
          intro hm
          have hquorum := h.complete key hm
          rw [hkey, (QuorumTracker.recordAttestation_reached hreached).1] at hquorum
          cases hquorum
        rw [List.count_eq_zero_of_not_mem hnot, hkey, List.count_singleton_self]
      · have hother : key ∉ [(needId, proposalId)] := fun hm => hkey (List.mem_singleton.mp hm)
        rw [List.count_eq_zero_of_not_mem hother]
        omega
    next =>
      rw [List.append_nil]
      exact h.once key

/-- At the attestation that completes a quorum, as many verifiers have approved as
the threshold of its proposal says. -/
theorem Tracking.card_completed (h : Tracking p) (hadmits : admitAttest verifierPool message = some (needId, proposalId))
    (hreached : (recording verifierPool message p.node needId proposalId).1 = true) :
    ((approvers needId proposalId (p.received adapter message verifierPool draws).approvals).card : Int) =
      (recordedState verifierPool p.node needId proposalId).kPlanRequired := by
  have hcomplete : ((recordedState verifierPool p.node needId proposalId).addAttestation
      message.envelope.senderPkB64).1 = true := hreached
  obtain ⟨hnew, hlength⟩ := QuorumState.addAttestation_completes.mp hcomplete
  rw [received_approvals hadmits, card_approvers h.recorded_after, QuorumState.addAttestation_length, if_neg hnew]
  exact hlength

theorem recordedState_of_get? {node : AttestNode κ} {state : QuorumState}
    (h : node.quorumTracker.get? (needId, proposalId) = some state) :
    recordedState verifierPool node needId proposalId = state := by
  rw [recordedState, h]
  rfl

/-- A threshold that is fixed by the call itself is the one it asks for. -/
theorem recordedState_of_none {node : AttestNode κ} (h : node.quorumTracker.get? (needId, proposalId) = none) :
    (recordedState verifierPool node needId proposalId).kPlanRequired = currentKPlan verifierPool := by
  rw [recordedState, h]
  rfl

/-- A call that decides is backed when the pool asks for no more than the threshold
that its quorum has met. -/
theorem keepsThreshold_iff (hadmits : admitAttest verifierPool message = some (needId, proposalId)) :
    KeepsThreshold adapter p (.receive message verifierPool draws) ↔
      ((handleAttestPlan adapter verifierPool draws message p.node).2.decide ≠ none →
        currentKPlan verifierPool ≤ (recordedState verifierPool p.node needId proposalId).kPlanRequired) := by
  rw [handleAttestPlan_decides_iff hadmits]
  constructor
  · intro hkeeps hall
    obtain ⟨hreached, hok, hadapter⟩ := hall
    cases hget : p.node.quorumTracker.get? (needId, proposalId) with
    | none => rw [recordedState_of_none hget]
    | some state =>
      have hcomplete : ((recordedState verifierPool p.node needId proposalId).addAttestation
          message.envelope.senderPkB64).1 = true := hreached
      rw [recordedState_of_get? hget] at hcomplete ⊢
      obtain ⟨hnew, hlength⟩ := QuorumState.addAttestation_completes.mp hcomplete
      exact hkeeps needId proposalId state hadmits hget hnew hlength hok hadapter
  · intro hle n q state hadmits' hget hnew hlength hok hadapter
    obtain ⟨rfl, rfl⟩ := Prod.mk.inj (Option.some.inj (hadmits.symm.trans hadmits'))
    have hcomplete := QuorumState.addAttestation_completes.mpr ⟨hnew, hlength⟩
    rw [← @recordedState_of_get? κ verifierPool needId proposalId p.node state hget] at hcomplete ⊢
    exact hle ⟨hcomplete, hok, hadapter⟩

theorem Tracking.backed_receive (h : Tracking p) (hb : Backed p) :
    Backed (p.received adapter message verifierPool draws) ↔
      KeepsThreshold adapter p (.receive message verifierPool draws) := by
  cases hadmits : admitAttest verifierPool message with
  | none =>
    rw [received_none hadmits]
    constructor
    · intro _ n q state hadmits'
      rw [hadmits] at hadmits'
      cases hadmits'
    · intro _
      exact hb
  | some key =>
    obtain ⟨needId, proposalId⟩ := key
    rw [keepsThreshold_iff hadmits]
    have hdecides : (p.received adapter message verifierPool draws).decides = p.decides ++
        ((handleAttestPlan adapter verifierPool draws message p.node).2.decide.map
          fun record => (record, (p.received adapter message verifierPool draws).approvals)).toList := rfl
    cases hdecide : (handleAttestPlan adapter verifierPool draws message p.node).2.decide with
    | none =>
      rw [hdecide] at hdecides
      rw [Backed, hdecides, Option.map_none, Option.toList_none, List.append_nil]
      constructor
      · intro _ hsome
        exact absurd rfl hsome
      · intro _
        exact hb
    | some record =>
      have hsome : (handleAttestPlan adapter verifierPool draws message p.node).2.decide ≠ none := by
        rw [hdecide]
        exact Option.some_ne_none record
      obtain ⟨hneed, hproposal, hkPlan⟩ := handleAttestPlan_decide hadmits hdecide
      have hcard : ((approvers needId proposalId (p.received adapter message verifierPool draws).approvals).card : Int) =
          (recordedState verifierPool p.node needId proposalId).kPlanRequired :=
        h.card_completed hadmits ((handleAttestPlan_decides_iff hadmits).mp hsome).1
      rw [hdecide] at hdecides
      rw [← hcard, ← hkPlan]
      constructor
      · intro hbacked _
        have hlast := hbacked _ (hdecides ▸ List.mem_append_right _ (List.mem_singleton_self _))
        rw [← hneed, ← hproposal]
        exact hlast
      · intro hle d hd
        rw [hdecides] at hd
        rcases List.mem_append.mp hd with hold | hnew
        · exact hb d hold
        · rw [List.mem_singleton.mp hnew]
          dsimp only
          rw [hneed, hproposal]
          exact hle (Option.some_ne_none record)

end Admitted

theorem Tracking.step (h : Tracking p) {a : AttestAction κ} (hstep : p.Step adapter a p') : Tracking p' := by
  cases hstep with
  | receive message verifierPool draws =>
    cases hadmits : admitAttest verifierPool message with
    | none =>
      rw [received_none hadmits]
      exact h
    | some key => exact h.admitted hadmits
  | elsewhere planStore consensus => exact ⟨h.attested, h.untouched, h.complete, h.once⟩

theorem Tracking.backed_iff (h : Tracking p) (hb : Backed p) {a : AttestAction κ} (hstep : p.Step adapter a p') :
    Backed p' ↔ KeepsThreshold adapter p a := by
  cases hstep with
  | receive message verifierPool draws => exact h.backed_receive hb
  | elsewhere planStore consensus => exact ⟨fun _ => trivial, fun _ => hb⟩

/-- Nothing has been attested yet; the plan store and the decisions may be any. -/
structure Unattested (p : Attestation κ) : Prop where
  quorumTracker : ∀ key, p.node.quorumTracker.get? key = none
  approvals : p.approvals = []
  completed : p.completed = []
  decides : p.decides = []

theorem Unattested.tracking (h : Unattested p) : Tracking p where
  attested n q state hget := by rw [h.quorumTracker] at hget; cases hget
  untouched n q _ v hm := by rw [h.approvals] at hm; cases hm
  complete key hkey := by rw [h.completed] at hkey; cases hkey
  once key := by rw [h.completed]; exact Nat.zero_le 1

theorem Unattested.backed (h : Unattested p) : Backed p := by
  intro d hd
  rw [h.decides] at hd
  cases hd

theorem Unattested.run {start : Attestation κ} {ok : Attestation κ → AttestAction κ → Prop} (h0 : Unattested start)
    (h : Visits (Attestation.Step adapter) ok start p) : Tracking p :=
  Visits.invariant h h0.tracking fun hs _ hstep => hs.step hstep

/-- In every run at most one attestation of a proposal is reported as completing its
quorum. Every DECIDE is backed while the pool asks for no more, at a completing
attestation, than at the first one; one attestation at which it asks for more is enough
to record a quorum that was not there. -/
theorem quorum_decides_backed (start : Attestation κ) (h0 : Unattested start) :
    (∀ p, Visits (Attestation.Step adapter) (fun _ _ => True) start p → OneCompletion p) ∧
    (∀ p, Visits (Attestation.Step adapter) (KeepsThreshold adapter) start p → Backed p) ∧
    ∀ p a p', Visits (Attestation.Step adapter) (fun _ _ => True) start p → Backed p → p.Step adapter a p' →
      (Backed p' ↔ KeepsThreshold adapter p a) := by
  refine ⟨fun p h => (h0.run h).once, ?_, fun p a p' h hb hstep => (h0.run h).backed_iff hb hstep⟩
  intro p h
  have hboth : Tracking p ∧ Backed p := by
    apply Visits.invariant h ⟨h0.tracking, h0.backed⟩
    intro p a p' hp hok hstep
    exact ⟨hp.1.step hstep, (hp.1.backed_iff hp.2 hstep).mpr hok⟩
  exact hboth.2

end Runs

def verifierName (n : Nat) : String := "verifier-" ++ toString n

theorem zero_le_zero : (0 : Int) ≤ 0 := by decide

theorem zero_le_hundred : (0 : Int) ≤ 100 := by decide

/-- A pool in which `size` verifiers are registered, each with enough stake. -/
def poolOf (size : Nat) : PoolView :=
  .ofDb ((List.range size).foldl (fun db n =>
    { db with
      accounts := db.accounts.upsert (verifierName n) ⟨0, 100, 0, zero_le_zero, zero_le_hundred, zero_le_zero⟩
      verifiers := db.verifiers.upsert (verifierName n) ⟨100, [], ⟨"org", "asn", "region", 1, false⟩, n, true⟩ }) Db.empty)

def approveBy (n : Nat) : Attest := ⟨⟨"north", verifierName n, 1, ⟨some "need", some "plan", none⟩⟩, none⟩

def acceptAll : TryDecide Unit := fun record _ => (.ok (some record), ())

def freshAttestation : Attestation Unit := ⟨⟨PlanStore.init, (), .empty⟩, [], [], []⟩

theorem unattested_fresh : Unattested freshAttestation := ⟨fun _ => rfl, rfl, rfl, rfl⟩

/-- The first approval comes while 7 verifiers are active, so that two are a quorum. -/
def firstApproval : Attestation Unit :=
  freshAttestation.received (some acceptAll) (approveBy 1) (some (poolOf 7)) (numbered "a")

/-- A second approval completes the quorum; the pool has `size` verifiers by then. -/
def secondApproval (size : Nat) : Attestation Unit :=
  firstApproval.received (some acceptAll) (approveBy 2) (some (poolOf size)) (numbered "b")

theorem secondApproval_visited (size : Nat) :
    Visits (Attestation.Step (some acceptAll)) (fun _ _ => True) freshAttestation (secondApproval size) :=
  .next (.next .start trivial (.receive _ _ _)) trivial (.receive _ _ _)

theorem firstApproval_keepsThreshold :
    Visits (Attestation.Step (some acceptAll)) (KeepsThreshold (some acceptAll)) freshAttestation firstApproval := by
  refine .next .start ?_ (.receive (approveBy 1) (some (poolOf 7)) (numbered "a"))
  intro needId proposalId state _ hget
  cases hget

/-- The pool has not changed: the DECIDE records the quorum of two that it has. -/
theorem quorum_decides_backed_steady : (secondApproval 7).decides.map (fun d => d.1.kPlan) = [2] ∧
    OneCompletion (secondApproval 7) ∧ Backed (secondApproval 7) := by
  have hall := @quorum_decides_backed Unit (some acceptAll) freshAttestation unattested_fresh
  refine ⟨by decide +kernel, hall.1 _ (secondApproval_visited 7), hall.2.1 _ ?_⟩
  apply Visits.next firstApproval_keepsThreshold ?_ (.receive (approveBy 2) (some (poolOf 7)) (numbered "b"))
  have hadmits : admitAttest (some (poolOf 7)) (approveBy 2) = some ("need", "plan") := by decide +kernel
  have hsame : currentKPlan (some (poolOf 7)) ≤
      (recordedState (some (poolOf 7)) firstApproval.node "need" "plan").kPlanRequired := by decide +kernel
  exact (keepsThreshold_iff hadmits).mpr fun _ => hsame

/-- The pool has grown to 20: the DECIDE records a quorum of five, of which two have
approved. -/
theorem grown_pool_decides_unbacked : Unattested freshAttestation ∧
    Visits (Attestation.Step (some acceptAll)) (fun _ _ => True) freshAttestation (secondApproval 20) ∧
    (secondApproval 20).decides.map (fun d => (d.1.kPlan, (approvers d.1.needId d.1.proposalId d.2).card)) = [(5, 2)] ∧
    ¬Backed (secondApproval 20) :=
  ⟨unattested_fresh, secondApproval_visited 20, by decide +kernel, by decide +kernel⟩

end AgentNetwork.Handlers
