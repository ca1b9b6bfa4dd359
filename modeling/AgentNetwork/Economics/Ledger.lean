import AgentNetwork.Economics.Database
import Mathlib.Data.List.Sort

namespace AgentNetwork

open Relational Transactional Transactional.Prog

def validateAmount (amount : Int) : Econ Unit :=
  raiseIf (amount ≤ 0) (.valueError s!"Amount must be positive, got {amount}")

def validateAccountId (accountId : String) : Econ Unit :=
  raiseIf (isBlank accountId) (.valueError "Account ID cannot be empty")

/-- A timestamp argument that defaults to the clock. -/
def timestampOr (timestampNs : Option Int) : Econ Int :=
  match timestampNs with
  | some t => pure t
  | none => timeNs

/-- `INSERT INTO operations` under a fresh `uuid4`. -/
def recordOperation (accountId opType : String) (amount timestampNs : Int) (metadata : Metadata) : Econ Unit := do
  let opId ← uuid4
  execute (insertOperation opId ⟨accountId, opType, amount, timestampNs, metadata⟩)

namespace CreditLedger

def systemAccountId : String := "system"

def maxSupply : Int := 1000000000000

def getAccount (accountId : String) (db : Db) : Option Account := db.accounts.get? accountId

def getBalance (accountId : String) (db : Db) : Int :=
  match db.accounts.get? accountId with
  | some account => account.balance
  | none => 0

def createAccount (accountId : String) (initialBalance : Int) (minterId : Option String) : Econ Unit := do
  validateAccountId accountId
  raiseIf (initialBalance < 0) (.valueError s!"Initial balance cannot be negative: {initialBalance}")
  let minter := minterId.getD systemAccountId
  raiseIf (initialBalance > 0 ∧ minter ≠ systemAccountId)
    (.valueError s!"Only '{systemAccountId}' account is authorized to mint credits. Account '{minter}' is not authorized.")
  withLock do
    let found ← query (·.accounts.contains accountId)
    raiseIf found (.accountExists s!"Account already exists: {accountId}")
    let currentSupply ← query (·.totalSupply)
    raiseIf (initialBalance > 0 ∧ currentSupply + initialBalance > maxSupply)
      (.valueError s!"Minting {initialBalance} would exceed MAX_SUPPLY (current: {currentSupply}, max: {maxSupply})")
    withConn do
      execute (insertAccount accountId initialBalance)
      runIf (initialBalance > 0) do
        let timestamp ← timeNs
        recordOperation accountId OpType.mint.value initialBalance timestamp (.mint minter)
        execute (addSupply initialBalance)

/-- `get_total_supply`; the row of `supply_tracking` always exists. -/
def getTotalSupply : Econ Int := withLock (query (·.totalSupply))

/-- Adds to a balance, opening the account when there is none. -/
def creditAccount (accountId : String) (amount : Int) : Econ Unit := do
  let found ← query (·.accounts.contains accountId)
  if found then execute (updateAccount accountId amount 0 0)
  else execute (insertAccount accountId amount)

def transfer (fromId toId : String) (amount : Int) (allowCreateRecipient : Bool) : Econ String := do
  validateAccountId fromId
  validateAccountId toId
  validateAmount amount
  withLock do
    let fromBalance ← query (getBalance fromId)
    raiseIf (fromBalance < amount) (.insufficientBalance s!"Insufficient balance: {fromBalance} < {amount}")
    let recipientExists ← query (·.accounts.contains toId)
    raiseIf (recipientExists = false ∧ allowCreateRecipient = false)
      (.valueError s!"Recipient account does not exist: {toId}. Create account first or use allow_create_recipient=True")
    -- outside the transaction: pending until its commit or rollback
    runIf (recipientExists = false) (execute (insertAccount toId 0))
    withConn do
      execute (updateAccount fromId (-amount) 0 0)
      creditAccount toId amount
      let opId ← uuid4
      let timestamp ← timeNs
      recordOperation fromId OpType.transfer.value (-amount) timestamp (.transferTo toId opId)
      recordOperation toId OpType.transfer.value amount timestamp (.transferFrom fromId opId)
      pure opId

def escrow (accountId : String) (amount : Int) (escrowId : String) : Econ Unit := do
  validateAccountId accountId
  validateAmount amount
  withLock do
    let balance ← query (getBalance accountId)
    raiseIf (balance < amount) (.insufficientBalance s!"Insufficient balance for escrow: {balance} < {amount}")
    withConn do
      execute (updateAccount accountId (-amount) amount 0)
      let createdAt ← timeNs
      execute (insertEscrow escrowId ⟨accountId, amount, createdAt, false, none⟩)
      let timestamp ← timeNs
      recordOperation accountId OpType.escrow.value amount timestamp (.escrow escrowId)

/-- `SELECT ... FROM escrows WHERE escrow_id = ?` with its two checks. A NULL
key selects no row. -/
def openEscrow (escrowId : Option String) : Econ (String × Escrow) := do
  let row ← query fun db => escrowId.bind fun key => (db.escrows.get? key).map fun e => (key, e)
  let shown := escrowId.getD "None"
  match row with
  | none => raise (.escrowNotFound s!"Escrow not found: {shown}")
  | some (key, e) =>
    if e.released then raise (.escrowAlreadyReleased s!"Escrow already released: {key}")
    else pure (key, e)

def releaseEscrow (escrowId : Option String) (toId : String) : Econ Unit := do
  validateAccountId toId
  withLock do
    withConn do
      let (key, e) ← openEscrow escrowId
      execute (updateAccount e.accountId 0 (-e.amount) 0)
      creditAccount toId e.amount
      execute (markReleased key toId)
      let timestamp ← timeNs
      recordOperation toId OpType.release.value e.amount timestamp (.release key e.accountId)

def cancelEscrow (escrowId : Option String) : Econ Unit := do
  withLock do
    let (key, e) ← openEscrow escrowId
    withConn do
      execute (updateAccount e.accountId e.amount (-e.amount) 0)
      execute (markReleased key e.accountId)
      let timestamp ← timeNs
      recordOperation e.accountId OpType.escrow.value (-e.amount) timestamp (.cancel key)

/-- One row of `operations` as a `LedgerOp`. -/
def readRow (row : String × Operation) : Except LedgerError LedgerOp := do
  let operation ← OpType.ofValue row.2.opType
  match Json.loads row.2.metadata.text with
  | none => .error (.jsonDecode row.2.metadata.text)
  | some metadata => .ok ⟨row.1, row.2.accountId, operation, row.2.amount, row.2.timestampNs, metadata⟩

/-- The rows `get_audit_trail` selects, newest first; an account id that is
`None` or empty selects all. -/
def auditRows (accountId : Option String) (limit : Int) (db : Db) : List (String × Operation) :=
  let rows := match accountId.filter (· ≠ "") with
    | some a => db.operations.entries.filter fun (r : String × Operation) => r.2.accountId = a
    | none => db.operations.entries
  sqlLimit limit (rows.insertionSort fun (r r' : String × Operation) => r'.2.timestampNs ≤ r.2.timestampNs)

def getAuditTrail (accountId : Option String) (limit : Int) (db : Db) : Except LedgerError (List LedgerOp) :=
  (auditRows accountId limit db).mapM readRow

end CreditLedger

end AgentNetwork
