import Mathlib.Data.List.Sort
import AgentNetwork.Economics.Ledger

namespace AgentNetwork

open Relational Transactional Transactional.Prog

namespace StakeManager

def getStakedAmount (accountId : String) (db : Db) : Int :=
  match CreditLedger.getAccount accountId db with
  | some account => account.locked
  | none => 0

def getUnbondingAmount (accountId : String) (db : Db) : Int :=
  match CreditLedger.getAccount accountId db with
  | some account => account.unbonding
  | none => 0

def stake (accountId : String) (amount : Int) : Econ Unit := do
  raiseIf (amount ≤ 0) (.valueError s!"Stake amount must be positive: {amount}")
  withLock do
    let balance ← query (CreditLedger.getBalance accountId)
    raiseIf (balance < amount) (.insufficientBalance s!"Insufficient balance to stake: {balance} < {amount}")
    withConn do
      execute (updateAccount accountId (-amount) amount 0)
      let timestamp ← timeNs
      recordOperation accountId "STAKE" amount timestamp .stake

/-- `unstake` of a manager whose unbonding period is `unbondingSeconds`. -/
def unstake (unbondingSeconds : Int) (accountId : String) (amount : Int) : Econ String := do
  raiseIf (amount ≤ 0) (.valueError s!"Unstake amount must be positive: {amount}")
  withLock do
    let staked ← query (getStakedAmount accountId)
    raiseIf (staked < amount) (.insufficientStake s!"Insufficient stake to unstake: {staked} < {amount}")
    let startedAt ← timeNs
    let completedAt := startedAt + unbondingSeconds * 1000000000
    let unbondingId ← uuid4
    withConn do
      execute (updateAccount accountId 0 (-amount) amount)
      execute (insertUnbonding unbondingId ⟨accountId, amount, startedAt, completedAt, false⟩)
      recordOperation accountId "UNSTAKE" amount startedAt (.unstake unbondingId completedAt)
    pure unbondingId

/-- `SELECT unbonding_id, amount FROM unbonding WHERE account_id = ? AND
completed = 0 AND completed_at <= ?`. -/
def eligibleRecords (accountId : String) (currentTime : Int) (db : Db) : List (String × Int) :=
  (db.unbonding.entries.filter fun r =>
    r.2.accountId = accountId && !r.2.completed && decide (r.2.completedAt ≤ currentTime)).map fun r => (r.1, r.2.amount)

def completeUnbonding (accountId : String) : Econ Int := do
  withLock do
    let currentTime ← timeNs
    let records ← query (eligibleRecords accountId currentTime)
    if records.isEmpty then pure 0
    else
      let totalReleased := (records.map Prod.snd).sum
      withConn do
        execute (updateAccount accountId totalReleased 0 (-totalReleased))
        forEach records fun record => do
          execute (markCompleted record.1)
          recordOperation accountId "COMPLETE_UNBONDING" record.2 currentTime (.completeUnbonding record.1)
      pure totalReleased

/-- `get_unbonding_records`, newest first. -/
def getUnbondingRecords (accountId : String) (includeCompleted : Bool) (db : Db) : List (String × UnbondingRecord) :=
  (db.unbonding.entries.filter fun r => r.2.accountId = accountId && (includeCompleted || !r.2.completed)).insertionSort
    fun r r' => r'.2.startedAt ≤ r.2.startedAt

end StakeManager

end AgentNetwork

namespace AgentNetwork

open Relational Transactional Transactional.Prog

namespace VerifierPool

def register (verifierId : String) (stake : Int) (capabilities : List String) (metadata : VerifierMetadata) :
    Econ Unit := do
  raiseIf (metadata.reputation < 0 ∨ metadata.reputation > 1)
    (.valueError s!"Reputation must be 0.0-1.0, got {metadata.reputation}")
  let currentStake ← query (StakeManager.getStakedAmount verifierId)
  raiseIf (currentStake < stake) (.valueError s!"Verifier stake mismatch: claimed {stake}, actual {currentStake}")
  withLock do
    withConn do
      let registeredAt ← timeNs
      execute (replaceVerifier verifierId ⟨stake, capabilities, metadata, registeredAt, true⟩)

/-- The three updates of a row: it has to be there. -/
def updateExisting (verifierId : String) (f : VerifierRecord → VerifierRecord) : Econ Unit := do
  withLock do
    let found ← query (·.verifiers.contains verifierId)
    raiseIf (found = false) (.valueError s!"Verifier not found: {verifierId}")
    withConn do
      execute (updateVerifier verifierId f)

def deregister (verifierId : String) : Econ Unit :=
  updateExisting verifierId fun r => { r with active := false }

/-- `get_pool_members`, newest registration first. -/
def getPoolMembers (activeOnly : Bool) (db : Db) : List (String × VerifierRecord) :=
  (db.verifiers.entries.filter fun r => !activeOnly || r.2.active).insertionSort
    fun r r' => r'.2.registeredAt ≤ r.2.registeredAt

/-- `get_active_verifiers`, each with its live stake. -/
def getActiveVerifiers (minStake : Int) (db : Db) : List (String × VerifierRecord) :=
  (getPoolMembers true db).filterMap fun r =>
    let currentStake := StakeManager.getStakedAmount r.1 db
    if currentStake ≥ minStake then some (r.1, { r.2 with stake := currentStake }) else none

def getVerifier (verifierId : String) (db : Db) : Option VerifierRecord := db.verifiers.get? verifierId

def updateCapabilities (verifierId : String) (capabilities : List String) : Econ Unit :=
  updateExisting verifierId fun r => { r with capabilities := capabilities }

def updateReputation (verifierId : String) (reputation : Rat) : Econ Unit := do
  raiseIf (reputation < 0 ∨ reputation > 1) (.valueError s!"Reputation must be 0.0-1.0, got {reputation}")
  updateExisting verifierId fun r => { r with metadata := { r.metadata with reputation := reputation } }

end VerifierPool

end AgentNetwork
