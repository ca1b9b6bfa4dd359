import AgentNetwork.Economics.Ledger
import Mathlib.Data.List.Sort

namespace AgentNetwork

open Relational Transactional Transactional.Prog

/-- `BOUNTY_CAPS`. -/
def bountyCap : TaskClass → Int
  | .simple => 10
  | .complex => 100
  | .critical => 1000

namespace BountyManager

def createBounty (taskId : String) (amount : Int) (taskClass : TaskClass) (creatorId : String) : Econ String := do
  let cap := bountyCap taskClass
  raiseIf (amount > cap) (.valueError s!"Bounty amount {amount} exceeds {taskClass.value} cap of {cap}")
  raiseIf (amount ≤ 0) (.valueError s!"Bounty amount must be positive: {amount}")
  let bountyId ← uuid4
  withLock do
    withConn do
      let createdAt ← timeNs
      execute (insertBounty bountyId ⟨taskId, amount, taskClass, creatorId, none, createdAt, none, none, .created⟩)
  pure bountyId

/-- `SELECT ... FROM bounties WHERE bounty_id = ?`. -/
def findBounty (bountyId : String) : Econ Bounty := do
  let row ← query (·.bounties.get? bountyId)
  match row with
  | none => raise (.valueError s!"Bounty not found: {bountyId}")
  | some bounty => pure bounty

def escrowBounty (bountyId _commitId : String) : Econ (Option String) := do
  withLock do
    let bounty ← findBounty bountyId
    raiseIf (bounty.status ≠ .created) (.valueError s!"Bounty already {bounty.status.value}: {bountyId}")
    CreditLedger.escrow bounty.creatorId bounty.amount bountyId
    -- `ledger.escrow` returns nothing, so the column stays NULL
    let escrowId : Option String := none
    withConn do
      let escrowedAt ← timeNs
      execute (updateBounty bountyId fun b =>
        { b with escrowId := escrowId, escrowedAt := some escrowedAt, status := .escrowed })
    pure escrowId

/-- The ledger calls of one distribution: release, onward transfers, burn. -/
def payRecipients (escrowId : Option String) (amount : Int) (recipients : Table String Int) : Econ Unit :=
  match recipients.entries with
  | [] => CreditLedger.cancelEscrow escrowId
  | (firstRecipient, _) :: _ => do
    CreditLedger.releaseEscrow escrowId firstRecipient
    forEach (recipients.entries.filter fun r => r.1 ≠ firstRecipient) fun r => do
      let _ ← CreditLedger.transfer firstRecipient r.1 r.2 false
      pure ()
    let burnAmount := amount - (recipients.entries.map Prod.snd).sum
    runIf (burnAmount > 0) do
      -- `get_account` never raises, so the account is never created here
      let _ ← query (CreditLedger.getAccount "burn")
      let _ ← CreditLedger.transfer firstRecipient "burn" burnAmount false
      pure ()

def distributeBounty (bountyId : String) (recipients : Table String Int) : Econ Unit := do
  withLock do
    let bounty ← findBounty bountyId
    raiseIf (bounty.status ≠ .escrowed)
      (.valueError s!"Bounty not escrowed (status={bounty.status.value}): {bountyId}")
    let totalDistributed := (recipients.entries.map Prod.snd).sum
    raiseIf (totalDistributed > bounty.amount)
      (.valueError s!"Distribution total {totalDistributed} exceeds bounty {bounty.amount}")
    payRecipients bounty.escrowId bounty.amount recipients
    withConn do
      let distributedAt ← timeNs
      execute (updateBounty bountyId fun b => { b with distributedAt := some distributedAt, status := .distributed })

def cancelBounty (bountyId : String) : Econ Unit := do
  withLock do
    let bounty ← findBounty bountyId
    runIf (bounty.status = .escrowed ∧ bounty.escrowId.getD "" ≠ "") (CreditLedger.cancelEscrow bounty.escrowId)
    withConn do
      execute (updateBounty bountyId fun b => { b with status := .cancelled })

def getBounty (bountyId : String) (db : Db) : Option Bounty := db.bounties.get? bountyId

/-- `get_task_bounty`: the newest bounty of the task. -/
def getTaskBounty (taskId : String) (db : Db) : Option (String × Bounty) :=
  ((db.bounties.entries.filter fun r => r.2.taskId = taskId).insertionSort
    fun (r r' : String × Bounty) => r'.2.createdAt ≤ r.2.createdAt).head?

end BountyManager

end AgentNetwork
