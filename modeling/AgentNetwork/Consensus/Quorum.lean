import AgentNetwork.Library.Double
import AgentNetwork.Library.ListSet
import AgentNetwork.Library.Table

namespace AgentNetwork.Consensus

open Relational

/-- The attestations of one proposal. -/
structure QuorumState where
  needId : String
  proposalId : String
  attestations : ListSet String
  kPlanRequired : Int

namespace QuorumState

def hasQuorum (state : QuorumState) : Bool := (state.attestations.elems.length : Int) ≥ state.kPlanRequired

/-- `add_attestation`; it says whether this attestation completes the quorum. -/
def addAttestation (verifierId : String) (state : QuorumState) : Bool × QuorumState :=
  let wasQuorum := state.hasQuorum
  let state := { state with attestations := state.attestations.add verifierId }
  (state.hasQuorum && !wasQuorum, state)

variable {state : QuorumState} {verifierId : String}

theorem addAttestation_length : ((state.addAttestation verifierId).2.attestations.elems.length : Int) =
    state.attestations.elems.length + if verifierId ∈ state.attestations then 0 else 1 := by
  show ((state.attestations.add verifierId).elems.length : Int) = _
  split
  next h =>
    rw [ListSet.add_of_mem h]
    omega
  next h =>
    rw [ListSet.elems_add_of_not_mem h, List.length_append, List.length_singleton]
    omega

/-- The attestation that completes a quorum is a new one, and the last that was missing. -/
theorem addAttestation_completes : (state.addAttestation verifierId).1 = true ↔
    verifierId ∉ state.attestations ∧ (state.attestations.elems.length : Int) + 1 = state.kPlanRequired := by
  have hlength := @addAttestation_length state verifierId
  have hafter : (state.addAttestation verifierId).1 = true ↔
      state.kPlanRequired ≤ ((state.addAttestation verifierId).2.attestations.elems.length : Int) ∧
        ¬state.kPlanRequired ≤ (state.attestations.elems.length : Int) := by
    simp [addAttestation, hasQuorum]
  rw [hafter, hlength]
  split
  next h =>
    constructor
    · intro hboth
      omega
    · intro hboth
      exact absurd h hboth.1
  next h =>
    constructor
    · intro hboth
      exact ⟨h, by omega⟩
    · intro hboth
      omega

theorem addAttestation_hasQuorum : (state.addAttestation verifierId).2.hasQuorum =
    (state.hasQuorum || (state.addAttestation verifierId).1) := by
  have hlength := @addAttestation_length state verifierId
  have hkeeps : state.hasQuorum = true → (state.addAttestation verifierId).2.hasQuorum = true := by
    intro h
    have hreq : (state.addAttestation verifierId).2.kPlanRequired = state.kPlanRequired := rfl
    rw [hasQuorum, decide_eq_true_eq] at h ⊢
    rw [hreq, hlength]
    split <;> omega
  show _ = (state.hasQuorum || ((state.addAttestation verifierId).2.hasQuorum && !state.hasQuorum))
  cases h : state.hasQuorum with
  | true => rw [hkeeps h]; rfl
  | false => simp

end QuorumState

/-- `QuorumTracker.states`, by need and proposal. -/
abbrev QuorumTracker := Table (String × String) QuorumState

namespace QuorumTracker

/-- `record_attestation`; the first attestation fixes the threshold of its proposal. -/
def recordAttestation (needId proposalId verifierId : String) (kPlan : Int) (tracker : QuorumTracker) :
    Bool × QuorumTracker :=
  let key := (needId, proposalId)
  let state := (tracker.get? key).getD ⟨needId, proposalId, .empty, kPlan⟩
  let (reached, state) := state.addAttestation verifierId
  (reached, tracker.upsert key state)

def checkQuorum (needId proposalId : String) (tracker : QuorumTracker) : Bool :=
  (tracker.get? (needId, proposalId)).any QuorumState.hasQuorum

/-- `min(k_target, max(1, int(active_verifiers * alpha)))`. -/
def getKPlan (activeVerifiers : Int) (alpha : Rat) (kTarget : Int) : Int :=
  let calculated := max 1 (Double.trunc (Double.scale activeVerifiers alpha))
  min kTarget calculated

variable {needId proposalId verifierId needId' proposalId' : String} {kPlan : Int} {tracker : QuorumTracker}

theorem checkQuorum_iff : checkQuorum needId proposalId tracker = true ↔
    ∃ state, tracker.get? (needId, proposalId) = some state ∧ state.hasQuorum = true := by
  unfold checkQuorum
  cases tracker.get? (needId, proposalId) with
  | none => simp
  | some state => simp

theorem recordAttestation_reached (h : (recordAttestation needId proposalId verifierId kPlan tracker).1 = true) :
    checkQuorum needId proposalId tracker = false ∧
    (recordAttestation needId proposalId verifierId kPlan tracker).2.checkQuorum needId proposalId = true := by
  let state := (tracker.get? (needId, proposalId)).getD ⟨needId, proposalId, .empty, kPlan⟩
  have hreached : (state.addAttestation verifierId).1 = true := h
  constructor
  · cases hget : tracker.get? (needId, proposalId) with
    | none => rw [checkQuorum, hget]; rfl
    | some old =>
      have hstate : state = old := by
        show (tracker.get? (needId, proposalId)).getD _ = old
        rw [hget]
        rfl
      rw [hstate, QuorumState.addAttestation, Bool.and_eq_true, Bool.not_eq_true'] at hreached
      rw [checkQuorum, hget]
      exact hreached.2
  · show ((tracker.upsert (needId, proposalId) (state.addAttestation verifierId).2).get? (needId, proposalId)).any _ = _
    rw [Table.get?_upsert, if_pos rfl]
    show (state.addAttestation verifierId).2.hasQuorum = true
    rw [QuorumState.addAttestation_hasQuorum, hreached, Bool.or_true]

/-- A quorum once reached stays reached. -/
theorem recordAttestation_keeps (h : checkQuorum needId' proposalId' tracker = true) :
    (recordAttestation needId proposalId verifierId kPlan tracker).2.checkQuorum needId' proposalId' = true := by
  let state := (tracker.get? (needId, proposalId)).getD ⟨needId, proposalId, .empty, kPlan⟩
  show ((tracker.upsert (needId, proposalId) (state.addAttestation verifierId).2).get? (needId', proposalId')).any _ = _
  rw [Table.get?_upsert]
  split
  next hkey =>
    obtain ⟨old, hget, hold⟩ := checkQuorum_iff.mp h
    rw [hkey] at hget
    have hstate : state = old := by
      show (tracker.get? (needId, proposalId)).getD _ = old
      rw [hget]
      rfl
    show (state.addAttestation verifierId).2.hasQuorum = true
    rw [hstate, QuorumState.addAttestation_hasQuorum, hold, Bool.true_or]
  next => exact h

end QuorumTracker

end AgentNetwork.Consensus
