import AgentNetwork.Library.JsonText
import Mathlib.Data.List.Basic
import Mathlib.Tactic.Common

namespace AgentNetwork

/-- The exceptions of the economics modules with their messages; `integrity` is
what SQLite raises for a CHECK or a PRIMARY KEY, `jsonDecode` what `json.loads`
raises for a text. -/
inductive LedgerError
  | valueError (message : String)
  | insufficientBalance (message : String)
  | accountExists (message : String)
  | escrowNotFound (message : String)
  | escrowAlreadyReleased (message : String)
  | insufficientStake (message : String)
  | integrity (message : String)
  | jsonDecode (text : String)
  deriving DecidableEq

inductive OpType
  | mint
  | transfer
  | escrow
  | release
  | slash
  deriving DecidableEq

def OpType.value : OpType → String
  | .mint => "MINT"
  | .transfer => "TRANSFER"
  | .escrow => "ESCROW"
  | .release => "RELEASE"
  | .slash => "SLASH"

/-- `OpType(value)`. -/
def OpType.ofValue (value : String) : Except LedgerError OpType :=
  match [OpType.mint, .transfer, .escrow, .release, .slash].find? (·.value = value) with
  | some op => .ok op
  | none => .error (.valueError s!"'{value}' is not a valid OpType")

/-- What an operation records beside its account and amount. The first six are
written through `json.dumps`, the others as formatted text. -/
inductive Metadata
  | mint (minter : String)
  | transferTo (toAccount transferId : String)
  | transferFrom (fromAccount transferId : String)
  | escrow (escrowId : String)
  | release (escrowId fromAccount : String)
  | cancel (escrowId : String)
  | stake
  | unstake (unbondingId : String) (completedAt : Int)
  | completeUnbonding (unbondingId : String)
  | slash (eventId reason : String) (severity : Int) (evidenceHash : String)
  | slashReward (reason evidenceHash : String)
  deriving DecidableEq

/-- The text in the column `metadata_json`. -/
def Metadata.text : Metadata → String
  | .mint minter => Json.dumps [("reason", "initial_balance"), ("minter", minter)]
  | .transferTo toAccount transferId => Json.dumps [("to_account", toAccount), ("transfer_id", transferId)]
  | .transferFrom fromAccount transferId => Json.dumps [("from_account", fromAccount), ("transfer_id", transferId)]
  | .escrow escrowId => Json.dumps [("escrow_id", escrowId)]
  | .release escrowId fromAccount => Json.dumps [("escrow_id", escrowId), ("from_account", fromAccount)]
  | .cancel escrowId => Json.dumps [("escrow_id", escrowId), ("action", "cancel")]
  | .stake => "\x7b\"action\": \"stake\"\x7d"
  | .unstake unbondingId completedAt =>
    "\x7b\"unbonding_id\": \"" ++ unbondingId ++ "\", \"completed_at\": " ++ toString completedAt ++ "\x7d"
  | .completeUnbonding unbondingId => "\x7b\"unbonding_id\": \"" ++ unbondingId ++ "\"\x7d"
  | .slash eventId reason severity evidenceHash =>
    "\x7b\"event_id\": \"" ++ eventId ++ "\", \"reason\": \"" ++ reason ++ "\", \"severity\": " ++ toString severity ++
      ", \"evidence_hash\": \"" ++ evidenceHash ++ "\"\x7d"
  | .slashReward reason evidenceHash =>
    "\x7b\"reason\": \"" ++ reason ++ "\", \"evidence_hash\": \"" ++ evidenceHash ++ "\"\x7d"

/-- A row of `operations` under its `op_id`. -/
structure Operation where
  accountId : String
  opType : String
  amount : Int
  timestampNs : Int
  metadata : Metadata
  deriving DecidableEq

/-- An entry of the audit trail as it is read back. -/
structure LedgerOp where
  opId : String
  account : String
  operation : OpType
  amount : Int
  timestamp : Int
  metadata : Json
  deriving DecidableEq

/-- The characters `str.strip` removes. -/
def isSpace (c : Char) : Bool :=
  c.toNat ∈ [0x09, 0x0a, 0x0b, 0x0c, 0x0d, 0x1c, 0x1d, 0x1e, 0x1f, 0x20, 0x85, 0xa0, 0x1680, 0x2028, 0x2029,
    0x202f, 0x205f, 0x3000] ∨ (0x2000 ≤ c.toNat ∧ c.toNat ≤ 0x200a)

/-- `not account_id or not account_id.strip()`. -/
def isBlank (accountId : String) : Bool := accountId.toList.all isSpace

end AgentNetwork
