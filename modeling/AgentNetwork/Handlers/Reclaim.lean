import AgentNetwork.Handlers.Leases
import Mathlib.Data.Nat.Pairing

namespace AgentNetwork.Handlers

open Relational Plan Consensus PlanStore Transactional

/-- A handler goes on alone, with draws of its own for every stretch, until it has
returned or the stretches are used up. -/
def Stage.runAlone {κ : Type} (adapter : Option (TryDecide κ)) (allowed : Envelope YieldPayload → Bool) :
    Nat → (Nat → Draws) → Stage → Node κ → Option Stage × Node κ
  | 0, _, stage, node => (some stage, node)
  | n + 1, draws, stage, node =>
    match stage.resume adapter allowed (draws 0) node with
    | (none, node) => (none, node)
    | (some next, node) => next.runAlone adapter allowed n (fun i => draws (i + 1)) node

/-- `try_decide` of the Raft adapter, on a node at an epoch. -/
def raftTryDecide (getBucketForNeed : String → UInt8) (currentEpoch : Int) : TryDecide Etcd := fun record etcd =>
  let (result, etcd) := RaftConsensusAdapter.tryDecide getBucketForNeed currentEpoch record etcd
  (.ok result, etcd)

def Claim.needId (claim : Claim) : String := claim.envelope.payload.needId.getD claim.taskId

def Claim.proposalId (claim : Claim) : String := claim.envelope.payload.proposalId.getD claim.workerId

def Claim.epoch (claim : Claim) : Int := claim.envelope.payload.epoch.getD 1

/-- The row of the task holds a state. -/
def HasState (t : String) (state : TaskState) (store : PlanStore) : Prop :=
  ∃ row, store.tasks.get? t = some row ∧ row.state = state.value

/-- A claim that passes the checks of its fields; its lamport and the next one fit
the plan store. -/
structure WellFormedClaim (envelope : Envelope ClaimPayload) (claim : Claim) : Prop where
  admitted : admitClaim envelope .empty = some claim
  lamport : fits envelope.lamport = true
  decideLamport : fits (envelope.lamport + 1) = true

/-- What `uuid4` and the clock give: ids that are all different and not in use, and
times that fit the plan store. -/
structure FreshDraws {κ : Type} (draws : Nat → Draws) (node : Node κ) : Prop where
  distinct : ∀ i j i' j', (draws i).uuid4 j = (draws i').uuid4 j' → i = i' ∧ j = j'
  newOp : ∀ i j, (draws i).uuid4 j ∉ node.planStore.ops.map PlanOp.opId
  newLease : ∀ i j, node.leaseRegistry.get? ((draws i).uuid4 j) = none
  times : ∀ i n, fits ((draws i).timeNs n) = true

/-- A lease of the worker has been added for the task, and the task is DECIDED. -/
def Reclaimed {κ : Type} (claim : Claim) (before after : Node κ) : Prop :=
  (∃ id lease, before.leaseRegistry.get? id = none ∧ after.leaseRegistry.get? id = some lease ∧
    lease.taskId = claim.taskId ∧ lease.workerId = claim.workerId) ∧
  HasState claim.taskId .decided after.planStore

/-- The first lease that was ever registered for the task, if there is one, is the
claimant's own. -/
def LockFree (claim : Claim) (leaseRegistry : Table String Lease) : Prop :=
  ∀ lease, findTaskLease claim.taskId leaseRegistry = some lease → lease.workerId = claim.workerId

/-- The claim names a need and a proposal, its epoch is not over, and a DECIDE that
is recorded for the need is for the same proposal and epoch. -/
structure OpenToDecide (getBucketForNeed : String → UInt8) (currentEpoch : Int) (claim : Claim) (etcd : Etcd) : Prop where
  needId : claim.needId ≠ ""
  proposalId : claim.proposalId ≠ ""
  epoch : currentEpoch ≤ claim.epoch
  agrees : ∀ existing, RaftConsensusAdapter.getDecide getBucketForNeed claim.needId etcd = some existing →
    existing.proposalId = claim.proposalId ∧ existing.epoch = claim.epoch

theorem not_draft_of_decided {t : String} {store : PlanStore} (h : HasState t .decided store) : ¬HasState t .draft store := by
  rintro ⟨row, hrow, hdraft⟩
  obtain ⟨row', hrow', hdecided⟩ := h
  rw [hrow] at hrow'
  rw [← Option.some.inj hrow', hdraft] at hdecided
  exact absurd hdecided (by decide)

section Checks

variable {envelope : Envelope ClaimPayload} {claim : Claim} {registry : Table String Lease}

/-- The lock check is the last one, and the only one to look at the leases. -/
theorem admitClaim_eq (h : admitClaim envelope .empty = some claim) (registry : Table String Lease) :
    admitClaim envelope registry =
      if (findTaskLease claim.taskId registry).any (·.workerId ≠ claim.workerId) then none else some claim := by
  have hnone : ∀ t, findTaskLease t .empty = none := fun t => rfl
  unfold admitClaim at h ⊢
  simp only [Option.bind_eq_bind, Option.bind_eq_some_iff, hnone, Option.any_none, Bool.false_eq_true, if_false] at h
  obtain ⟨taskId, htask, leaseTtl, httl, hchecks⟩ := h
  simp only [Option.bind_eq_bind, htask, httl, Option.bind_some]
  split at hchecks
  next => cases hchecks
  next httl' =>
    rw [if_neg httl']
    split at hchecks
    next => cases hchecks
    next hheartbeat =>
      rw [if_neg hheartbeat]
      split at hchecks
      next => cases hchecks
      next hcost =>
        rw [if_neg hcost]
        cases Option.some.inj hchecks
        rfl

theorem admitted_taskId (h : admitClaim envelope .empty = some claim) : claim.envelope = envelope ∧ claim.taskId ≠ "" := by
  simp only [admitClaim, Option.bind_eq_bind, Option.bind_eq_some_iff] at h
  obtain ⟨taskId, htask, leaseTtl, _, hchecks⟩ := h
  have hne := (Option.filter_eq_some_iff.mp htask).2
  split at hchecks
  next => cases hchecks
  next =>
    split at hchecks
    next => cases hchecks
    next =>
      split at hchecks
      next => cases hchecks
      next =>
        split at hchecks
        next => cases hchecks
        next =>
          cases Option.some.inj hchecks
          exact ⟨rfl, by simpa using hne⟩

theorem lockFree_iff :
    (findTaskLease claim.taskId registry).any (·.workerId ≠ claim.workerId) = false ↔ LockFree claim registry := by
  unfold LockFree
  cases findTaskLease claim.taskId registry with
  | none => simp
  | some lease => simp

theorem given_eq_some {text : String} (h : text ≠ "") : given (some text) = some text := by
  simp [given, Option.filter, h]

theorem given_empty : given (some "") = none := rfl

/-- What `try_decide` answers to the DECIDE of a claim that names a need and a proposal. -/
theorem raftTryDecide_answer (getBucketForNeed : String → UInt8) (currentEpoch : Int) (record : DecideRecord)
    (hneed : record.needId = claim.needId) (hproposal : record.proposalId = claim.proposalId)
    (hepoch : record.epoch = claim.epoch) (hneed' : claim.needId ≠ "") (hproposal' : claim.proposalId ≠ "") (etcd : Etcd) :
    ∃ etcd', (OpenToDecide getBucketForNeed currentEpoch claim etcd ∧
        raftTryDecide getBucketForNeed currentEpoch record etcd = (.ok (some record), etcd')) ∨
      (¬OpenToDecide getBucketForNeed currentEpoch claim etcd ∧
        raftTryDecide getBucketForNeed currentEpoch record etcd = (.ok none, etcd')) := by
  unfold raftTryDecide RaftConsensusAdapter.tryDecide
  by_cases hstale : record.epoch < currentEpoch
  · refine ⟨etcd, Or.inr ⟨fun h => ?_, by simp [RaftConsensusAdapter.stale, hstale]⟩⟩
    have := h.epoch
    omega
  · have hepoch' : currentEpoch ≤ claim.epoch := by omega
    cases hget : RaftConsensusAdapter.getDecide getBucketForNeed record.needId etcd with
    | none =>
      have hfree : etcd.contains (getDecideKey getBucketForNeed record.needId) = false :=
        Table.contains_eq_false_iff.mpr hget
      refine ⟨etcd.upsert (getDecideKey getBucketForNeed record.needId) record, Or.inl ⟨⟨hneed', hproposal', hepoch', ?_⟩, ?_⟩⟩
      · intro existing hexisting
        rw [← hneed, hget] at hexisting
        cases hexisting
      · simp [RaftConsensusAdapter.stale, hstale, RaftConsensusAdapter.transaction, hfree]
    | some existing =>
      have htaken : etcd.contains (getDecideKey getBucketForNeed record.needId) = true :=
        Table.contains_eq_true_iff.mpr ⟨existing, hget⟩
      have hread : etcd.get? (getDecideKey getBucketForNeed record.needId) = some existing := hget
      by_cases hsame : existing.proposalId = record.proposalId ∧ existing.epoch = record.epoch
      · refine ⟨etcd, Or.inl ⟨⟨hneed', hproposal', hepoch', ?_⟩, ?_⟩⟩
        · intro other hother
          rw [← hneed, hget] at hother
          rw [← Option.some.inj hother, ← hproposal, ← hepoch]
          exact hsame
        · simp [RaftConsensusAdapter.stale, hstale, RaftConsensusAdapter.transaction, htaken, hread,
            RaftConsensusAdapter.idempotentRetry, hsame]
      · refine ⟨etcd, Or.inr ⟨fun h => hsame ?_, ?_⟩⟩
        · rw [hproposal, hepoch]
          exact h.agrees existing (hneed ▸ hget)
        · simp [RaftConsensusAdapter.stale, hstale, RaftConsensusAdapter.transaction, htaken, hread,
            RaftConsensusAdapter.idempotentRetry, hsame]

end Checks

section Appends

variable {op : PlanOp} {store store' : PlanStore}

theorem insertTask_ops (row : TaskRow) (store : PlanStore) : (insertTask row store).ops = store.ops := by
  unfold insertTask
  split <;> rfl

theorem updateState_ops {newState : Option String} (h : updateState op newState store = .ok store') :
    store'.ops = store.ops := by
  unfold updateState at h
  split at h
  next => rw [← Except.ok.inj h]
  next =>
    split at h
    next =>
      cases newState with
      | none => cases h
      | some state => rw [← Except.ok.inj h]
    next => rw [← Except.ok.inj h]

theorem appendOp_annotate (op : PlanOp) (store : PlanStore) (hlamport : fits op.lamport = true) (htime : fits op.timestampNs = true)
    (hnew : op.opId ∉ store.ops.map PlanOp.opId) (hkind : op.opType = .annotate) :
    store.appendOp op = (.ok (), { store with ops := store.ops ++ [op] }) := by
  have hinsert : insertOp op store = .ok { store with ops := store.ops ++ [op] } := by
    simp [insertOp, hlamport, htime, hnew]
  have happly : applyOp op { store with ops := store.ops ++ [op] } = .ok { store with ops := store.ops ++ [op] } := by
    unfold applyOp
    rw [hkind]
  have hboth : insertOp op store >>= applyOp op = .ok { store with ops := store.ops ++ [op] } :=
    except_bind_ok.mpr ⟨_, hinsert, happly⟩
  rw [appendOp, hboth]

/-- A newer STATE for a task that is there goes into the log and sets its state. -/
theorem appendOp_state (op : PlanOp) {row : TaskRow} {state : String} (hlamport : fits op.lamport = true)
    (htime : fits op.timestampNs = true) (hnew : op.opId ∉ store.ops.map PlanOp.opId) (hkind : op.opType = .state)
    (hrow : store.tasks.get? op.taskId = some row) (hnewer : row.lastLamport < op.lamport)
    (hpayload : op.payload.get? "state" = some (.str state)) :
    ∃ store', store.appendOp op = (.ok (), store') ∧ store'.ops = store.ops ++ [op] ∧
      store'.tasks.get? op.taskId = some { row with state := state, lastLamport := op.lamport } := by
  have hinsert : insertOp op store = .ok { store with ops := store.ops ++ [op] } := by
    simp [insertOp, hlamport, htime, hnew]
  have hrow' : ({ store with ops := store.ops ++ [op] } : PlanStore).tasks.get? op.taskId = some row := hrow
  obtain ⟨store', happly, hget⟩ := applyOp_writes hrow' hkind rfl hnewer hpayload rfl
  have hops : store'.ops = store.ops ++ [op] := by
    have happly' := happly
    unfold applyOp at happly'
    rw [hkind] at happly'
    obtain ⟨_, _, hrest⟩ := except_bind_ok.mp happly'
    obtain ⟨_, _, hupdate⟩ := except_bind_ok.mp hrest
    rw [updateState_ops hupdate, insertTask_ops]
  have hboth : insertOp op store >>= applyOp op = .ok store' := except_bind_ok.mpr ⟨_, hinsert, happly⟩
  exact ⟨store', by rw [appendOp, hboth], hops, hget⟩

end Appends

section Alone

variable {κ : Type} {adapter : Option (TryDecide κ)} {allowed : Envelope YieldPayload → Bool} {draws : Nat → Draws}
  {stage next : Stage} {node node' : Node κ}

theorem FreshDraws.shift (h : FreshDraws draws node) : FreshDraws (fun i => draws (i + 1)) node where
  distinct i j i' j' heq := by
    obtain ⟨hi, hj⟩ := h.distinct (i + 1) j (i' + 1) j' heq
    exact ⟨by omega, hj⟩
  newOp i := h.newOp (i + 1)
  newLease i := h.newLease (i + 1)
  times i := h.times (i + 1)

theorem runAlone_next (h : stage.resume adapter allowed (draws 0) node = (some next, node')) (n : Nat) :
    stage.runAlone adapter allowed (n + 1) draws node =
      next.runAlone adapter allowed n (fun i => draws (i + 1)) node' := by
  rw [Stage.runAlone, h]

theorem runAlone_end (h : stage.resume adapter allowed (draws 0) node = (none, node')) (n : Nat) :
    stage.runAlone adapter allowed (n + 1) draws node = (none, node') := by
  rw [Stage.runAlone, h]

/-- An operation that the store takes. -/
theorem runAlone_append {op : PlanOp} {ops : List PlanOp} {continuation : Continuation} {planStore : PlanStore}
    (h : node.planStore.appendOp op = (.ok (), planStore)) (n : Nat) :
    (Stage.appends (op :: ops) continuation).runAlone adapter allowed (n + 1) draws node =
      (Stage.appends ops continuation).runAlone adapter allowed n (fun i => draws (i + 1))
        { node with planStore := planStore } := by
  apply runAlone_next
  simp only [Stage.resume, h]

theorem isDecided_getTask {t : String} {store : PlanStore} :
    isDecided (store.getTask t) = true ↔ HasState t .decided store := by
  unfold HasState
  cases hget : store.tasks.get? t with
  | none => simp [isDecided, PlanStore.getTask, hget]
  | some row => simp [isDecided, PlanStore.getTask, hget]

/-- A claim whose DECIDE comes to nothing finds its task as it was, and gives up. -/
theorem runAlone_refused (node : Node κ) {claim : Claim} (h : ¬HasState claim.taskId .decided node.planStore) (n : Nat) :
    (Stage.getTask claim false).runAlone adapter allowed (n + 2) draws node = (none, node) := by
  have hnot : isDecided (node.planStore.getTask claim.taskId) = false := by
    rw [← Bool.not_eq_true, isDecided_getTask]
    exact h
  rw [isDecided] at hnot
  rw [runAlone_next rfl, runAlone_end]
  simp only [Stage.resume, hnot, Bool.false_eq_true, if_false]

theorem decideOps_claim {claim : Claim} (htask : claim.taskId ≠ "") (record : DecideRecord) (d : Draws) :
    ∃ stateOp decideOp, decideOps claim.decideEnvelope record d = [stateOp, decideOp] ∧
      (stateOp.opId = d.uuid4 0 ∧ stateOp.lamport = claim.envelope.lamport + 1 ∧ stateOp.opType = .state ∧
        stateOp.taskId = claim.taskId ∧ stateOp.payload.get? "state" = some (.str TaskState.decided.value) ∧
        stateOp.timestampNs = d.timeNs 1) ∧
      (decideOp.opId = d.uuid4 1 ∧ decideOp.lamport = claim.envelope.lamport + 1 ∧ decideOp.opType = .annotate ∧
        decideOp.timestampNs = d.timeNs 3) := by
  have hgiven : given claim.decideEnvelope.payload.taskId = some claim.taskId := given_eq_some htask
  rw [decideOps, hgiven]
  exact ⟨_, _, rfl, ⟨rfl, rfl, rfl, rfl, rfl, rfl⟩, rfl, rfl, rfl, rfl⟩

/-- A claim whose DECIDE is accepted writes it down and gets its lease. -/
theorem runAlone_accepted (adapter : Option (TryDecide κ)) (allowed : Envelope YieldPayload → Bool) (node : Node κ)
    (record : DecideRecord) {claim : Claim} {row : TaskRow} (hfresh : FreshDraws draws node)
    (hlamport : fits claim.envelope.lamport = true) (hlamport' : fits (claim.envelope.lamport + 1) = true)
    (htask : claim.taskId ≠ "") (hrow : node.planStore.tasks.get? claim.taskId = some row)
    (hnewer : row.lastLamport < claim.envelope.lamport + 1) (n : Nat) :
    ∃ after, (Stage.appends (decideOps claim.decideEnvelope record (draws 0)) (.backToClaim claim)).runAlone adapter allowed
        (n + 7) (fun i => draws (i + 1)) node = (none, after) ∧
      after.leaseRegistry = node.leaseRegistry.upsert ((draws 5).uuid4 0) (claim.lease (draws 5)) ∧
      HasState claim.taskId .decided after.planStore := by
  obtain ⟨stateOp, decideOp, hops, ⟨hid, hl, hkind, ht, hpayload, htime⟩, hid', hl', hkind', htime'⟩ :=
    decideOps_claim htask record (draws 0)
  have hdiffer : ∀ i j i' j', ¬(i = i' ∧ j = j') → (draws i).uuid4 j ≠ (draws i').uuid4 j' :=
    fun i j i' j' hne heq => hne (hfresh.distinct i j i' j' heq)
  have hnew := hfresh.newOp 0 0
  have hnew' := hfresh.newOp 0 1
  have hnewClaim := hfresh.newOp 5 1
  rw [← hid] at hnew
  -- the STATE, the annotation of the DECIDE, and the way back to the claim
  obtain ⟨store₁, happend₁, hops₁, hrow₁⟩ := appendOp_state stateOp (hl ▸ hlamport') (htime ▸ hfresh.times 0 1)
    hnew hkind (ht ▸ hrow) (hl ▸ hnewer) hpayload
  have hnew₁ : decideOp.opId ∉ store₁.ops.map PlanOp.opId := by
    rw [hops₁, List.map_append, List.mem_append, hid']
    simp only [List.map_cons, List.map_nil, List.mem_singleton, hid, not_or]
    exact ⟨hnew', hdiffer 0 1 0 0 (by omega)⟩
  have happend₂ := appendOp_annotate decideOp store₁ (hl' ▸ hlamport') (htime' ▸ hfresh.times 0 3) hnew₁ hkind'
  have hdecided : HasState claim.taskId .decided { store₁ with ops := store₁.ops ++ [decideOp] } :=
    ⟨_, ht ▸ hrow₁, rfl⟩
  have hview := isDecided_getTask.mpr hdecided
  rw [isDecided] at hview
  have hnew₃ : (claim.claimOp (draws 5)).opId ∉ (store₁.ops ++ [decideOp]).map PlanOp.opId := by
    show (draws 5).uuid4 1 ∉ _
    rw [hops₁]
    simp only [List.map_append, List.map_cons, List.map_nil, List.mem_append, List.mem_singleton, hid, hid', not_or]
    exact ⟨⟨hnewClaim, hdiffer 5 1 0 0 (by omega)⟩, hdiffer 5 1 0 1 (by omega)⟩
  have happend₃ := appendOp_annotate (claim.claimOp (draws 5)) { store₁ with ops := store₁.ops ++ [decideOp] }
    hlamport (hfresh.times 5 0) hnew₃ rfl
  rw [hops, runAlone_append happend₁, runAlone_append happend₂, runAlone_next rfl, runAlone_next rfl]
  -- the task is DECIDED, so the lease is registered, and the claim is noted
  have hregister : (Stage.register claim true
      (({ store₁ with ops := store₁.ops ++ [decideOp] } : PlanStore).getTask claim.taskId)).resume adapter allowed (draws 5)
        { node with planStore := { store₁ with ops := store₁.ops ++ [decideOp] } } =
      (some (.appends [claim.claimOp (draws 5)] .finished),
        { node with
          planStore := { store₁ with ops := store₁.ops ++ [decideOp] }
          leaseRegistry := node.leaseRegistry.upsert ((draws 5).uuid4 0) (claim.lease (draws 5)) }) := by
    simp only [Stage.resume, hview, if_true]
    rfl
  rw [runAlone_next hregister, runAlone_append happend₃, runAlone_end rfl]
  exact ⟨_, rfl, rfl, hdecided⟩

end Alone

theorem not_reclaimed {κ : Type} {claim : Claim} {before after : Node κ}
    (h : after.leaseRegistry = before.leaseRegistry) : ¬Reclaimed claim before after := by
  rintro ⟨⟨id, lease, hnone, hsome, _⟩, _⟩
  rw [h, hnone] at hsome
  cases hsome

section Reclaim

/-- The DECIDE of a claim: refused, or accepted and about to be written down. -/
theorem startDecide_claim (getBucketForNeed : String → UInt8) (currentEpoch : Int)
    (allowed : Envelope YieldPayload → Bool) (node : Node Etcd) (claim : Claim) (draws : Draws) : ∃ etcd,
    (¬OpenToDecide getBucketForNeed currentEpoch claim node.consensus ∧
      (Stage.decide claim.decideEnvelope (some claim)).resume (some (raftTryDecide getBucketForNeed currentEpoch)) allowed
        draws node = (some (.getTask claim false), { node with consensus := etcd })) ∨
    (OpenToDecide getBucketForNeed currentEpoch claim node.consensus ∧ ∃ record,
      (Stage.decide claim.decideEnvelope (some claim)).resume (some (raftTryDecide getBucketForNeed currentEpoch)) allowed
        draws node = (some (.appends (decideOps claim.decideEnvelope record draws) (.backToClaim claim)),
          { node with consensus := etcd })) := by
  have hneed : claim.decideEnvelope.payload.needId = some claim.needId := rfl
  have hproposal : claim.decideEnvelope.payload.proposalId = some claim.proposalId := rfl
  by_cases hneed' : claim.needId = ""
  · refine ⟨node.consensus, Or.inl ⟨fun h => h.needId hneed', ?_⟩⟩
    simp only [Stage.resume, startDecide, hneed, hneed', given_empty]
    rfl
  by_cases hproposal' : claim.proposalId = ""
  · refine ⟨node.consensus, Or.inl ⟨fun h => h.proposalId hproposal', ?_⟩⟩
    simp only [Stage.resume, startDecide, hneed, given_eq_some hneed', hproposal, hproposal', given_empty]
    rfl
  obtain ⟨etcd, hanswer⟩ := raftTryDecide_answer getBucketForNeed currentEpoch
    ⟨claim.needId, claim.proposalId, claim.decideEnvelope.payload.epoch.getD 1, claim.decideEnvelope.lamport,
      claim.decideEnvelope.payload.kPlan.getD 1, claim.decideEnvelope.senderPkB64, draws.timeNs 0⟩
    rfl rfl rfl hneed' hproposal' node.consensus
  refine ⟨etcd, ?_⟩
  simp only [Stage.resume, startDecide, hneed, given_eq_some hneed', hproposal, given_eq_some hproposal']
  obtain ⟨hopen, hanswer⟩ | ⟨hclosed, hanswer⟩ := hanswer
  · rw [hanswer]
    exact Or.inr ⟨hopen, _, rfl⟩
  · rw [hanswer]
    exact Or.inl ⟨hclosed, rfl⟩

/-- A claim on a task in DRAFT, handled alone, comes to its end; it gets a lease and
decides the task exactly if the first lease ever registered for the task is the
claimant's own, or there is none, and the need is open to its DECIDE: no YIELD or
RELEASE takes a lease or a DECIDE back. -/
theorem reclaimed_iff {getBucketForNeed : String → UInt8} {currentEpoch : Int} {allowed : Envelope YieldPayload → Bool}
    {node : Node Etcd} {envelope : Envelope ClaimPayload} {claim : Claim} {row : TaskRow} {draws : Nat → Draws}
    (hwell : WellFormedClaim envelope claim) (hrow : node.planStore.tasks.get? claim.taskId = some row)
    (hdraft : row.state = TaskState.draft.value) (hnewer : row.lastLamport < envelope.lamport)
    (hfresh : FreshDraws draws node) (n : Nat) :
    ∃ after, (Stage.claimExtended envelope).runAlone (some (raftTryDecide getBucketForNeed currentEpoch)) allowed (n + 9)
        draws node = (none, after) ∧
      (Reclaimed claim node after ↔
        LockFree claim node.leaseRegistry ∧ OpenToDecide getBucketForNeed currentEpoch claim node.consensus) := by
  obtain ⟨rfl, htask⟩ := admitted_taskId hwell.admitted
  have hadmits := admitClaim_eq hwell.admitted node.leaseRegistry
  by_cases hlock : LockFree claim node.leaseRegistry
  · rw [lockFree_iff.mpr hlock] at hadmits
    have hadmitted : (Stage.claimExtended claim.envelope).resume (some (raftTryDecide getBucketForNeed currentEpoch)) allowed
        (draws 0) node = (some (.decide claim.decideEnvelope (some claim)), node) := by
      simp [Stage.resume, hadmits]
    rw [runAlone_next hadmitted]
    obtain ⟨etcd, ⟨hclosed, hdecide⟩ | ⟨hopen, record, hdecide⟩⟩ := startDecide_claim getBucketForNeed
      currentEpoch allowed node claim (draws 1)
    · have hnot : ¬HasState claim.taskId .decided node.planStore :=
        fun hdecided => not_draft_of_decided hdecided ⟨row, hrow, hdraft⟩
      rw [runAlone_next hdecide]
      exact ⟨{ node with consensus := etcd }, runAlone_refused { node with consensus := etcd } hnot (n + 5),
        fun h => absurd h (not_reclaimed rfl), fun h => absurd h.2 hclosed⟩
    · have hshift := hfresh.shift
      have hafter := runAlone_accepted (some (raftTryDecide getBucketForNeed currentEpoch)) allowed
        { node with consensus := etcd } record ⟨hshift.distinct, hshift.newOp, hshift.newLease, hshift.times⟩
        hwell.lamport hwell.decideLamport htask hrow (by omega) n
      obtain ⟨after, hrun, hregistry, hdecided⟩ := hafter
      rw [runAlone_next hdecide]
      refine ⟨after, hrun, fun _ => ⟨hlock, hopen⟩, fun _ => ⟨?_, hdecided⟩⟩
      refine ⟨(draws 6).uuid4 0, claim.lease (draws 6), hfresh.newLease 6 0, ?_, rfl, rfl⟩
      rw [hregistry, Table.get?_upsert, if_pos rfl]
  · rw [if_pos (by rw [← Bool.not_eq_false, lockFree_iff]; exact hlock)] at hadmits
    have hrejected : (Stage.claimExtended claim.envelope).resume (some (raftTryDecide getBucketForNeed currentEpoch)) allowed
        (draws 0) node = (none, node) := by
      simp [Stage.resume, hadmits]
    rw [runAlone_end hrejected]
    exact ⟨node, rfl, fun h => absurd h (not_reclaimed rfl), fun h => absurd h.1 hlock⟩

end Reclaim

/-- Ids that differ in their lengths. -/
def longerIds (i : Nat) : Draws := ⟨fun j => String.ofList (List.replicate (Nat.pair i j) 'x'), fun n => n % 8⟩

theorem longerIds_length (i j : Nat) : ((longerIds i).uuid4 j).toList.length = Nat.pair i j := by
  simp [longerIds]

/-- A node that knows the task, in DRAFT, and nothing else. -/
def draftNode : Node Etcd :=
  { idleProcess.node with
    planStore := (PlanStore.init.appendOp ⟨"a", "north", 1, "planner", .addTask, "task", dict [], 0⟩).2 }

def claimAt (worker : String) (lamport : Int) : Envelope ClaimPayload :=
  ⟨"north", worker, lamport, ⟨some "task", none, some 60, none, none, none, none, none, none, none⟩⟩

def claimOf (worker : String) (lamport : Int) : Claim := ⟨claimAt worker lamport, "task", worker, 60, 30⟩

theorem wellFormed_claimAt (worker : String) {lamport : Int} (h : fits lamport = true) (h' : fits (lamport + 1) = true) :
    WellFormedClaim (claimAt worker lamport) (claimOf worker lamport) := ⟨rfl, h, h'⟩

theorem longerIds_fresh : FreshDraws longerIds draftNode where
  distinct i j i' j' heq := by
    have hlength := congrArg (fun id => id.toList.length) heq
    simp only [longerIds_length] at hlength
    exact Nat.pair_eq_pair.mp hlength
  newOp i j hmem := by
    have hone : (longerIds i).uuid4 j = "a" := List.mem_singleton.mp hmem
    have hchars : List.replicate (Nat.pair i j) 'x' = ['a'] := by
      have := congrArg String.toList hone
      simpa [longerIds] using this
    have hmem : 'a' ∈ List.replicate (Nat.pair i j) 'x' := by simp [hchars]
    exact absurd (List.eq_of_mem_replicate hmem) (by decide)
  newLease i j := rfl
  times i n := by
    have hlt := Nat.mod_lt n (show 8 > 0 by omega)
    have : (longerIds i).timeNs n = ((n % 8 : Nat) : Int) := rfl
    simp only [fits, decide_eq_true_eq, this]
    omega

/-- The first claim on a task is granted. -/
theorem reclaimed_iff_first_claim : ∃ after, Reclaimed (claimOf "worker-a" 2) draftNode after := by
  have hwell := wellFormed_claimAt "worker-a" (show fits 2 = true by decide) (show fits (2 + 1) = true by decide)
  have hopen : OpenToDecide (fun _ => 0) 1 (claimOf "worker-a" 2) draftNode.consensus :=
    ⟨by decide, by decide, by decide, fun existing h => by cases h⟩
  have hfree : LockFree (claimOf "worker-a" 2) draftNode.leaseRegistry := fun lease h => by cases h
  obtain ⟨after, _, hiff⟩ := @reclaimed_iff (fun _ => 0) 1 (fun _ => true) draftNode _ _
    ⟨"task", "north", none, "DRAFT", 1⟩ longerIds hwell rfl rfl (by decide) longerIds_fresh 0
  exact ⟨after, hiff.mpr ⟨hfree, hopen⟩⟩

/-- Draws that number what they give, stretch by stretch. -/
def numberedRun (name : String) (i : Nat) : Draws := numbered (name ++ toString i ++ "-")

/-- The node after an envelope has been handled alone. -/
def handled (draws : Nat → Draws) (stage : Stage) (node : Node Etcd) : Node Etcd :=
  (stage.runAlone (some (raftTryDecide (fun _ => 0) 1)) (fun _ => true) 9 draws node).2

def claimedNode : Node Etcd := handled (numberedRun "a") (.claimExtended (claimAt "worker-a" 2)) draftNode

/-- The lease of the first worker has been released, and the task is in DRAFT again. -/
def releasedNode : Node Etcd :=
  handled (numberedRun "r") (.release ⟨"north", "monitor", 5, ⟨some "task", some "a6-0", some "timeout"⟩⟩) claimedNode

/-- The lease is granted and released; another worker's claim is then rejected. -/
theorem released_task_not_reclaimed :
    HasState "task" .decided claimedNode.planStore ∧
    (claimedNode.leaseRegistry.get? "a6-0").map Lease.workerId = some "worker-a" ∧
    HasState "task" .draft releasedNode.planStore ∧
    WellFormedClaim (claimAt "worker-b" 9) (claimOf "worker-b" 9) ∧
    ¬Reclaimed (claimOf "worker-b" 9) releasedNode
      (handled (numberedRun "b") (.claimExtended (claimAt "worker-b" 9)) releasedNode) := by
  refine ⟨⟨_, rfl, rfl⟩, rfl, ⟨_, rfl, rfl⟩, wellFormed_claimAt "worker-b" (by decide) (by decide), not_reclaimed rfl⟩

end AgentNetwork.Handlers
