import AgentNetwork.Library.Table
import AgentNetwork.Library.Program
import AgentNetwork.Economics.Operations
import Mathlib.Algebra.Order.Ring.Rat

namespace AgentNetwork

open Relational Transactional

/-- A row of `accounts`; its CHECK constraints are fields. -/
structure Account where
  balance : Int
  locked : Int
  unbonding : Int
  balance_nonneg : 0 ≤ balance
  locked_nonneg : 0 ≤ locked
  unbonding_nonneg : 0 ≤ unbonding
  deriving DecidableEq

structure Escrow where
  accountId : String
  amount : Int
  createdAt : Int
  released : Bool
  releasedTo : Option String
  deriving DecidableEq

structure UnbondingRecord where
  accountId : String
  amount : Int
  startedAt : Int
  completedAt : Int
  completed : Bool
  deriving DecidableEq

structure SlashRow where
  accountId : String
  reason : String
  amount : Int
  evidenceHash : String
  severity : Int
  timestampNs : Int
  deriving DecidableEq

inductive TaskClass
  | simple
  | complex
  | critical
  deriving DecidableEq

def TaskClass.value : TaskClass → String
  | .simple => "SIMPLE"
  | .complex => "COMPLEX"
  | .critical => "CRITICAL"

inductive BountyStatus
  | created
  | escrowed
  | distributed
  | cancelled
  deriving DecidableEq

def BountyStatus.value : BountyStatus → String
  | .created => "CREATED"
  | .escrowed => "ESCROWED"
  | .distributed => "DISTRIBUTED"
  | .cancelled => "CANCELLED"

structure Bounty where
  taskId : String
  amount : Int
  taskClass : TaskClass
  creatorId : String
  escrowId : Option String
  createdAt : Int
  escrowedAt : Option Int
  distributedAt : Option Int
  status : BountyStatus
  deriving DecidableEq

structure VerifierMetadata where
  orgId : String
  asn : String
  region : String
  reputation : Rat
  teeVerified : Bool
  deriving DecidableEq

structure VerifierRecord where
  stake : Int
  capabilities : List String
  metadata : VerifierMetadata
  registeredAt : Int
  active : Bool
  deriving DecidableEq

structure ReputationEvent where
  did : String
  eventType : String
  delta : Rat
  timestampNs : Int
  verifierId : Option String
  deriving DecidableEq

/-- The database the economics modules share; `totalSupply` is the single row of
`supply_tracking`. -/
structure Db where
  accounts : Table String Account
  operations : Table String Operation
  escrows : Table String Escrow
  totalSupply : Int
  unbonding : Table String UnbondingRecord
  slashEvents : Table String SlashRow
  bounties : Table String Bounty
  verifiers : Table String VerifierRecord
  reputationEvents : Table String ReputationEvent
  deriving DecidableEq

abbrev Econ := Prog LedgerError Db

def Db.empty : Db :=
  ⟨.empty, .empty, .empty, 0, .empty, .empty, .empty, .empty, .empty⟩

/-- A new connection to an empty database, with the lock free. -/
def Session.empty : Session Db := ⟨Db.empty, Db.empty, false, 0, 0⟩

/-- `LIMIT limit`: a negative one is none. -/
def sqlLimit {ρ : Type} (limit : Int) (rows : List ρ) : List ρ := if limit < 0 then rows else rows.take limit.toNat

/-- The account row with these columns, if it passes the CHECK constraints. -/
def Account.checked (balance locked unbonding : Int) : Except LedgerError Account :=
  if h : 0 ≤ balance ∧ 0 ≤ locked ∧ 0 ≤ unbonding then
    .ok ⟨balance, locked, unbonding, h.1, h.2.1, h.2.2⟩
  else .error (.integrity "CHECK constraint failed: accounts")

/-- An `INSERT` into one table: `put` stores the table it yields. -/
def insertRow {ρ : Type} (column : String) (t : Table String ρ) (key : String) (row : ρ) (put : Table String ρ → Db) :
    Except LedgerError Db :=
  match t.insert? key row with
  | some t' => .ok (put t')
  | none => .error (.integrity s!"UNIQUE constraint failed: {column}")

/-- `INSERT INTO accounts ... VALUES (accountId, balance, 0, 0)`. -/
def insertAccount (accountId : String) (balance : Int) (db : Db) : Except LedgerError Db := do
  let account ← Account.checked balance 0 0
  insertRow "accounts.account_id" db.accounts accountId account fun t => { db with accounts := t }

/-- `UPDATE accounts SET balance = balance + b, locked = locked + l, unbonding = unbonding + u WHERE account_id = accountId`. -/
def updateAccount (accountId : String) (b l u : Int) (db : Db) : Except LedgerError Db :=
  match db.accounts.get? accountId with
  | none => .ok db
  | some account => do
    let account' ← Account.checked (account.balance + b) (account.locked + l) (account.unbonding + u)
    .ok { db with accounts := db.accounts.set accountId account' }

def insertOperation (opId : String) (op : Operation) (db : Db) : Except LedgerError Db :=
  insertRow "operations.op_id" db.operations opId op fun t => { db with operations := t }

def insertEscrow (escrowId : String) (escrow : Escrow) (db : Db) : Except LedgerError Db :=
  insertRow "escrows.escrow_id" db.escrows escrowId escrow fun t => { db with escrows := t }

/-- `UPDATE escrows SET released = 1, released_to = toId WHERE escrow_id = escrowId`. -/
def markReleased (escrowId toId : String) (db : Db) : Except LedgerError Db :=
  .ok { db with escrows := db.escrows.modify escrowId fun e => { e with released := true, releasedTo := some toId } }

/-- `UPDATE supply_tracking SET total_supply = total_supply + n WHERE id = 1`. -/
def addSupply (n : Int) (db : Db) : Except LedgerError Db :=
  if 0 ≤ db.totalSupply + n then .ok { db with totalSupply := db.totalSupply + n }
  else .error (.integrity "CHECK constraint failed: supply_tracking")

def insertUnbonding (unbondingId : String) (record : UnbondingRecord) (db : Db) : Except LedgerError Db :=
  insertRow "unbonding.unbonding_id" db.unbonding unbondingId record fun t => { db with unbonding := t }

/-- `UPDATE unbonding SET completed = 1 WHERE unbonding_id = unbondingId`. -/
def markCompleted (unbondingId : String) (db : Db) : Except LedgerError Db :=
  .ok { db with unbonding := db.unbonding.modify unbondingId fun r => { r with completed := true } }

def insertSlashEvent (eventId : String) (row : SlashRow) (db : Db) : Except LedgerError Db :=
  insertRow "slash_events.event_id" db.slashEvents eventId row fun t => { db with slashEvents := t }

def insertBounty (bountyId : String) (bounty : Bounty) (db : Db) : Except LedgerError Db :=
  insertRow "bounties.bounty_id" db.bounties bountyId bounty fun t => { db with bounties := t }

/-- `UPDATE bounties SET ... WHERE bounty_id = bountyId`. -/
def updateBounty (bountyId : String) (f : Bounty → Bounty) (db : Db) : Except LedgerError Db :=
  .ok { db with bounties := db.bounties.modify bountyId f }

/-- `UPDATE verifiers SET ... WHERE verifier_id = verifierId`. -/
def updateVerifier (verifierId : String) (f : VerifierRecord → VerifierRecord) (db : Db) : Except LedgerError Db :=
  .ok { db with verifiers := db.verifiers.modify verifierId f }

/-- `INSERT OR REPLACE INTO verifiers`. -/
def replaceVerifier (verifierId : String) (record : VerifierRecord) (db : Db) : Except LedgerError Db :=
  .ok { db with verifiers := db.verifiers.upsert verifierId record }

def insertReputationEvent (eventId : String) (event : ReputationEvent) (db : Db) : Except LedgerError Db :=
  insertRow "reputation_events.event_id" db.reputationEvents eventId event fun t => { db with reputationEvents := t }

theorem checked_ok {b l u : Int} {account : Account} :
    Account.checked b l u = .ok account ↔ account.balance = b ∧ account.locked = l ∧ account.unbonding = u := by
  unfold Account.checked
  split
  next h =>
    cases account
    simp [eq_comm]
  next h =>
    have := account.balance_nonneg
    have := account.locked_nonneg
    have := account.unbonding_nonneg
    constructor
    · exact nofun
    · rintro ⟨rfl, rfl, rfl⟩
      omega

theorem insertRow_ok {ρ : Type} {column : String} {t : Table String ρ} {key : String} {row : ρ}
    {put : Table String ρ → Db} {db' : Db} :
    insertRow column t key row put = .ok db' ↔ ∃ fresh : t.get? key = none, db' = put (t.insert key row fresh) := by
  unfold insertRow
  cases h : t.insert? key row with
  | none =>
    unfold Table.insert? at h
    split at h
    · simp at h
    next hf => simp [hf]
  | some t' =>
    obtain ⟨fresh, rfl⟩ := Table.insert?_eq_some_iff.mp h
    simp [fresh, eq_comm]

theorem insertAccount_ok {accountId : String} {balance : Int} {db db' : Db} :
    insertAccount accountId balance db = .ok db' ↔
      ∃ account : Account, (account.balance = balance ∧ account.locked = 0 ∧ account.unbonding = 0) ∧
        ∃ fresh : db.accounts.get? accountId = none,
          db' = { db with accounts := db.accounts.insert accountId account fresh } := by
  unfold insertAccount
  constructor
  · intro h
    obtain ⟨account, hc, h⟩ := except_bind_ok.mp h
    exact ⟨account, checked_ok.mp hc, insertRow_ok.mp h⟩
  · rintro ⟨account, hc, h⟩
    exact except_bind_ok.mpr ⟨account, checked_ok.mpr hc, insertRow_ok.mpr h⟩

theorem updateAccount_ok {accountId : String} {b l u : Int} {db db' : Db} :
    updateAccount accountId b l u db = .ok db' ↔
      (db.accounts.get? accountId = none ∧ db' = db) ∨
      ∃ account account' : Account, db.accounts.get? accountId = some account ∧
        account'.balance = account.balance + b ∧ account'.locked = account.locked + l ∧
        account'.unbonding = account.unbonding + u ∧
        db' = { db with accounts := db.accounts.set accountId account' } := by
  unfold updateAccount
  cases hg : db.accounts.get? accountId with
  | none => simp [eq_comm]
  | some account =>
    simp only [reduceCtorEq, false_and, Option.some.injEq, false_or]
    constructor
    · intro h
      obtain ⟨account', hc, h⟩ := except_bind_ok.mp h
      obtain ⟨hb, hl, hu⟩ := checked_ok.mp hc
      exact ⟨account, account', rfl, hb, hl, hu, (Except.ok.inj h).symm⟩
    · rintro ⟨_, account', rfl, hb, hl, hu, rfl⟩
      exact except_bind_ok.mpr ⟨account', checked_ok.mpr ⟨hb, hl, hu⟩, rfl⟩

end AgentNetwork
