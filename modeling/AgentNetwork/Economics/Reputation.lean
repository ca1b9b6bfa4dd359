import AgentNetwork.Economics.Stake
import AgentNetwork.Library.Double

namespace AgentNetwork

open Relational Transactional Transactional.Prog

namespace ReputationTracker

def failedAttestationPenalty : Rat := Double.nearest (-3 / 10)

def successfulChallengeBoost : Rat := Double.nearest (1 / 10)

def clamp (value : Rat) : Rat := max 0 (min 1 value)

def applyDelta (did eventType : String) (delta : Rat) : Econ Unit := do
  withLock do
    let verifier ← query (VerifierPool.getVerifier did)
    match verifier with
    | none => raise (.valueError s!"Verifier not found for DID: {did}")
    | some verifier => do
      let newRep := clamp (Double.nearest (verifier.metadata.reputation + delta))
      withConn do
        VerifierPool.updateReputation did newRep
        let eventId ← uuid4
        let timestamp ← timeNs
        execute (insertReputationEvent eventId ⟨did, eventType, delta, timestamp, some did⟩)

def recordAttestation (did _taskId : String) (verdict : Bool) : Econ Unit :=
  runIf (verdict = false) (applyDelta did "ATTESTATION_FAILED" failedAttestationPenalty)

def recordChallenge (did : String) (upheld : Bool) : Econ Unit :=
  runIf (upheld = true) (applyDelta did "CHALLENGE_SUCCESS" successfulChallengeBoost)

/-- The rows of `reputation_events` that concern a verifier. -/
def eventsOf (did : String) (db : Db) : List (String × ReputationEvent) :=
  db.reputationEvents.entries.filter fun r => r.2.did = did ∨ r.2.verifierId = some did

/-- `MAX(timestamp_ns)`, or the registration when it is NULL or zero. -/
def lastActivity (did : String) (verifier : VerifierRecord) (db : Db) : Int :=
  match ((eventsOf did db).map fun r => r.2.timestampNs).max? with
  | some t => if t = 0 then verifier.registeredAt else t
  | none => verifier.registeredAt

/-- `get_reputation`; `decayFactor` is the float power `(1.0 - 0.05) ** weeks`. -/
def getReputation (decayFactor : Rat → Rat) (did : String) : Econ Rat := do
  let verifier ← query (VerifierPool.getVerifier did)
  match verifier with
  | none => pure 0
  | some verifier => do
    let last ← query (lastActivity did verifier)
    let now ← timeNs
    let weeksInactive := Double.nearest (Double.nearest (now - last : Int) / 604800000000000)
    if weeksInactive > Double.nearest (1 / 100) then
      pure (clamp (Double.nearest (verifier.metadata.reputation * decayFactor weeksInactive)))
    else pure verifier.metadata.reputation

def applyDecay (decayFactor : Rat → Rat) (did : String) : Econ Rat := do
  let currentRep ← getReputation decayFactor did
  let verifier ← query (VerifierPool.getVerifier did)
  match verifier with
  | none => pure 0
  | some verifier => do
    runIf (|Double.nearest (currentRep - verifier.metadata.reputation)| > Double.nearest (1 / 1000))
      (VerifierPool.updateReputation did currentRep)
    pure currentRep

/-- `get_reputation_history`, newest first. -/
def getReputationHistory (did : String) (limit : Int) (db : Db) : List (String × ReputationEvent) :=
  sqlLimit limit ((eventsOf did db).insertionSort fun r r' => r'.2.timestampNs ≤ r.2.timestampNs)

end ReputationTracker

end AgentNetwork
