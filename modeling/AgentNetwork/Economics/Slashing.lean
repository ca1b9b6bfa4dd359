import AgentNetwork.Economics.Stake
import AgentNetwork.Library.Double

namespace AgentNetwork

open Relational Transactional Transactional.Prog

inductive ViolationType
  | failedChallenge
  | missedHeartbeat
  | policyViolation
  deriving DecidableEq

def ViolationType.value : ViolationType → String
  | .failedChallenge => "FAILED_CHALLENGE"
  | .missedHeartbeat => "MISSED_HEARTBEAT"
  | .policyViolation => "POLICY_VIOLATION"

/-- `ViolationType(value)`. -/
def ViolationType.ofValue (value : String) : Except LedgerError ViolationType :=
  match [ViolationType.failedChallenge, .missedHeartbeat, .policyViolation].find? (·.value = value) with
  | some violation => .ok violation
  | none => .error (.valueError s!"'{value}' is not a valid ViolationType")

structure SlashEvent where
  eventId : String
  accountId : String
  reason : ViolationType
  amount : Int
  evidenceHash : String
  severity : Int
  timestamp : Int
  deriving DecidableEq

/-- A record of the attestation log; `none` for one without a `verifier_id`. -/
structure AttestRecord where
  verifierId : Option String
  deriving DecidableEq

/-- What `slash_verifiers` returns; only its early return has `honest_rewards`. -/
structure SlashReport where
  totalSlashed : Int
  challengerPayout : Int
  honestPayout : Int
  burned : Int
  events : List SlashEvent
  honestRewards : Option (List (String × Int))
  deriving DecidableEq

namespace SlashingRules

/-- The part of a stake a violation costs, in the float arithmetic of the code. -/
def slashOf (violation : ViolationType) (severity staked : Int) : Int :=
  match violation with
  | .failedChallenge => Double.trunc (Double.scale staked (1 / 2))
  | .missedHeartbeat =>
    let percentage := Double.scale (min severity 10) (Double.nearest (1 / 100))
    Double.trunc (Double.scale staked percentage)
  | .policyViolation =>
    let multiplier := Double.nearest (1 + Double.nearest (severity / 10))
    let percentage := Double.nearest (Double.nearest (1 / 10) * multiplier)
    Double.trunc (Double.scale staked percentage)

def calculateSlashAmount (accountId : String) (violation : ViolationType) (severity : Int) : Econ Int := do
  raiseIf (severity < 0 ∨ severity > 10) (.valueError s!"Severity must be 0-10, got {severity}")
  let staked ← query (StakeManager.getStakedAmount accountId)
  pure (slashOf violation severity staked)

def executeSlash (event : SlashEvent) : Econ Unit := do
  withLock do
    let staked ← query (StakeManager.getStakedAmount event.accountId)
    let actualSlash := min staked event.amount
    withConn do
      runIf (actualSlash > 0) do
        execute (updateAccount event.accountId 0 (-actualSlash) 0)
        recordOperation event.accountId "SLASH" actualSlash event.timestamp
          (.slash event.eventId event.reason.value event.severity event.evidenceHash)
      execute (insertSlashEvent event.eventId
        ⟨event.accountId, event.reason.value, actualSlash, event.evidenceHash, event.severity, event.timestamp⟩)

/-- `get_slash_history`, newest first. -/
def getSlashHistory (accountId : String) (limit : Int) (db : Db) : Except LedgerError (List SlashEvent) :=
  (sqlLimit limit ((db.slashEvents.entries.filter fun r => r.2.accountId = accountId).insertionSort
    fun r r' => r'.2.timestampNs ≤ r.2.timestampNs)).mapM fun (eventId, row) => do
      let reason ← ViolationType.ofValue row.reason
      .ok ⟨eventId, row.accountId, reason, row.amount, row.evidenceHash, row.severity, row.timestampNs⟩

/-- The loop that halves each verifier's stake: the events and their total. -/
def slashEach (evidence : String) (timestamp : Int) : List String → Econ (List SlashEvent × Int)
  | [] => pure ([], 0)
  | verifierId :: rest => do
    let slashAmount ← calculateSlashAmount verifierId .failedChallenge 10
    let eventId ← uuid4
    let event : SlashEvent := ⟨eventId, verifierId, .failedChallenge, slashAmount, evidence, 10, timestamp⟩
    executeSlash event
    let (events, total) ← slashEach evidence timestamp rest
    pure (event :: events, slashAmount + total)

def payReward (reason evidence : String) (timestamp : Int) (payout : String × Int) : Econ Unit := do
  execute (updateAccount payout.1 payout.2 0 0)
  recordOperation payout.1 "SLASH_REWARD" payout.2 timestamp (.slashReward reason evidence)

/-- Equal shares of `total`, the remainder with the first. -/
def honestPayouts (total : Int) (honest : List String) : List (String × Int) :=
  let share := total / honest.length
  match honest with
  | [] => []
  | first :: rest => (first, share + total % honest.length) :: rest.map fun v => (v, share)

/-- The claimed honest verifiers without an attestation. -/
def unverifiedHonest (honest : List String) (log : List AttestRecord) : List String :=
  honest.filter fun v => ¬ some v ∈ log.map AttestRecord.verifierId

/-- The slashes and payments of `slash_verifiers`, its arguments being complete. -/
def slashAttested (verifiers : List String) (evidence challenger : String) (honest : List String) (timestamp : Int)
    (log : List AttestRecord) : Econ SlashReport := do
  let unverified := unverifiedHonest honest log
  let shown := ", ".intercalate (unverified.dedup.insertionSort fun a b => a ≤ b)
  raiseIf (unverified ≠ []) (.valueError s!"Unverified honest_verifiers claimed without proof: {shown}")
  let (events, totalSlashed) ← slashEach evidence timestamp verifiers
  let challengerPayout := totalSlashed * 50 / 100
  let honestTotal := totalSlashed * 40 / 100
  let burned := totalSlashed - challengerPayout - honestTotal
  withLock do
    withConn do
      runIf (challengerPayout > 0) (payReward "challenge_upheld" evidence timestamp (challenger, challengerPayout))
      runIf (honestTotal > 0 ∧ honest ≠ [])
        (forEach (honestPayouts honestTotal honest) (payReward "honest_verifier" evidence timestamp))
  pure ⟨totalSlashed, challengerPayout, honestTotal, burned, events, none⟩

def slashVerifiers (verifiers : List String) (evidence challenger : String) (honestVerifiers : Option (List String))
    (timestampNs : Option Int) (attestationLog : Option (List AttestRecord)) : Econ SlashReport := do
  let timestamp ← timestampOr timestampNs
  if verifiers.isEmpty then pure ⟨0, 0, 0, 0, [], some []⟩
  else
    match attestationLog with
    | none => raise (.valueError "attestation_log is required for slash_verifiers")
    | some log => slashAttested verifiers evidence challenger (honestVerifiers.getD []) timestamp log

end SlashingRules

end AgentNetwork
