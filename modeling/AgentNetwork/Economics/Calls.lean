import AgentNetwork.Economics.Bounties
import AgentNetwork.Economics.Slashing
import AgentNetwork.Economics.Reputation
import AgentNetwork.Library.Runs

namespace AgentNetwork

open Relational Transactional Transactional.Prog

/-- What the objects are built with: the unbonding period, and the float power
the decay of a reputation uses. -/
structure Config where
  unbondingSeconds : Int
  decayFactor : Rat → Rat

inductive Component
  | ledger
  | stake
  | slashing
  | pool
  | reputation
  | bounty
  deriving DecidableEq

/-- A public operation with its arguments. -/
inductive Call
  | createAccount (accountId : String) (initialBalance : Int) (minterId : Option String)
  | getBalance (accountId : String)
  | getAccount (accountId : String)
  | getTotalSupply
  | transfer (fromId toId : String) (amount : Int) (allowCreateRecipient : Bool)
  | escrow (accountId : String) (amount : Int) (escrowId : String)
  | releaseEscrow (escrowId : Option String) (toId : String)
  | cancelEscrow (escrowId : Option String)
  | getAuditTrail (accountId : Option String) (limit : Int)
  | stake (accountId : String) (amount : Int)
  | unstake (accountId : String) (amount : Int)
  | completeUnbonding (accountId : String)
  | getStakedAmount (accountId : String)
  | getUnbondingAmount (accountId : String)
  | getUnbondingRecords (accountId : String) (includeCompleted : Bool)
  | calculateSlashAmount (accountId : String) (violation : ViolationType) (severity : Int)
  | executeSlash (event : SlashEvent)
  | getSlashHistory (accountId : String) (limit : Int)
  | slashVerifiers (verifiers : List String) (evidence challenger : String) (honestVerifiers : Option (List String))
      (timestampNs : Option Int) (attestationLog : Option (List AttestRecord))
  | register (verifierId : String) (stake : Int) (capabilities : List String) (metadata : VerifierMetadata)
  | deregister (verifierId : String)
  | getPoolMembers (activeOnly : Bool)
  | getActiveVerifiers (minStake : Int)
  | getVerifier (verifierId : String)
  | updateCapabilities (verifierId : String) (capabilities : List String)
  | updateReputation (verifierId : String) (reputation : Rat)
  | recordAttestation (did taskId : String) (verdict : Bool)
  | recordChallenge (did : String) (upheld : Bool)
  | getReputation (did : String)
  | applyDecay (did : String)
  | getReputationHistory (did : String) (limit : Int)
  | createBounty (taskId : String) (amount : Int) (taskClass : TaskClass) (creatorId : String)
  | escrowBounty (bountyId commitId : String)
  | distributeBounty (bountyId : String) (recipients : Table String Int)
  | cancelBounty (bountyId : String)
  | getBounty (bountyId : String)
  | getTaskBounty (taskId : String)
  deriving DecidableEq

/-- Runs a program for its effect. -/
def forEffect {α : Type} (p : Econ α) : Econ Unit := do
  let _ ← p
  pure ()

/-- A reading that may raise. -/
def attempt {α : Type} (f : Db → Except LedgerError α) : Econ Unit := do
  let answer ← query f
  match answer with
  | .ok _ => pure ()
  | .error e => raise e

namespace Call

def component : Call → Component
  | createAccount .. | getBalance _ | getAccount _ | getTotalSupply | transfer .. | escrow .. | releaseEscrow ..
  | cancelEscrow _ | getAuditTrail .. => .ledger
  | stake .. | unstake .. | completeUnbonding _ | getStakedAmount _ | getUnbondingAmount _
  | getUnbondingRecords .. => .stake
  | calculateSlashAmount .. | executeSlash _ | getSlashHistory .. | slashVerifiers .. => .slashing
  | register .. | deregister _ | getPoolMembers _ | getActiveVerifiers _ | getVerifier _ | updateCapabilities ..
  | updateReputation .. => .pool
  | recordAttestation .. | recordChallenge .. | getReputation _ | applyDecay _ | getReputationHistory .. => .reputation
  | createBounty .. | escrowBounty .. | distributeBounty .. | cancelBounty _ | getBounty _ | getTaskBounty _ => .bounty

def run (config : Config) : Call → Econ Unit
  | createAccount a n minter => CreditLedger.createAccount a n minter
  | getBalance a => forEffect (query (CreditLedger.getBalance a))
  | getAccount a => forEffect (query (CreditLedger.getAccount a))
  | getTotalSupply => forEffect CreditLedger.getTotalSupply
  | transfer f t n allow => forEffect (CreditLedger.transfer f t n allow)
  | escrow a n key => CreditLedger.escrow a n key
  | releaseEscrow key t => CreditLedger.releaseEscrow key t
  | cancelEscrow key => CreditLedger.cancelEscrow key
  | getAuditTrail a limit => attempt (CreditLedger.getAuditTrail a limit)
  | stake a n => StakeManager.stake a n
  | unstake a n => forEffect (StakeManager.unstake config.unbondingSeconds a n)
  | completeUnbonding a => forEffect (StakeManager.completeUnbonding a)
  | getStakedAmount a => forEffect (query (StakeManager.getStakedAmount a))
  | getUnbondingAmount a => forEffect (query (StakeManager.getUnbondingAmount a))
  | getUnbondingRecords a includeCompleted => forEffect (query (StakeManager.getUnbondingRecords a includeCompleted))
  | calculateSlashAmount a violation severity => forEffect (SlashingRules.calculateSlashAmount a violation severity)
  | executeSlash event => SlashingRules.executeSlash event
  | getSlashHistory a limit => attempt (SlashingRules.getSlashHistory a limit)
  | slashVerifiers verifiers evidence challenger honest t log =>
    forEffect (SlashingRules.slashVerifiers verifiers evidence challenger honest t log)
  | register v n capabilities metadata => VerifierPool.register v n capabilities metadata
  | deregister v => VerifierPool.deregister v
  | getPoolMembers activeOnly => forEffect (query (VerifierPool.getPoolMembers activeOnly))
  | getActiveVerifiers minStake => forEffect (query (VerifierPool.getActiveVerifiers minStake))
  | getVerifier v => forEffect (query (VerifierPool.getVerifier v))
  | updateCapabilities v capabilities => VerifierPool.updateCapabilities v capabilities
  | updateReputation v reputation => VerifierPool.updateReputation v reputation
  | recordAttestation did taskId verdict => ReputationTracker.recordAttestation did taskId verdict
  | recordChallenge did upheld => ReputationTracker.recordChallenge did upheld
  | getReputation did => forEffect (ReputationTracker.getReputation config.decayFactor did)
  | applyDecay did => forEffect (ReputationTracker.applyDecay config.decayFactor did)
  | getReputationHistory did limit => forEffect (query (ReputationTracker.getReputationHistory did limit))
  | createBounty taskId n taskClass creator => forEffect (BountyManager.createBounty taskId n taskClass creator)
  | escrowBounty bounty commit => forEffect (BountyManager.escrowBounty bounty commit)
  | distributeBounty bounty recipients => BountyManager.distributeBounty bounty recipients
  | cancelBounty bounty => BountyManager.cancelBounty bounty
  | getBounty bounty => forEffect (query (BountyManager.getBounty bounty))
  | getTaskBounty taskId => forEffect (query (BountyManager.getTaskBounty taskId))

end Call

/-- The sessions reached from an empty database by calls that `ok` allows. -/
abbrev Run (config : Config) (env : Env) (ok : Session Db → Call → Prop) : Session Db → Prop :=
  Reaches env (Call.run config) ok Session.empty

/-- For concrete runs: the clock counts and the names are numerals. -/
def countingEnv (reentrant : Bool) : Env := ⟨reentrant, fun n => n, fun n => toString n⟩

theorem countingEnv_injective (reentrant : Bool) : Function.Injective (countingEnv reentrant).uuid4 := by
  intro n m h
  have hdigits : Nat.toDigits 10 n = Nat.toDigits 10 m := by
    rw [← Nat.toList_repr, ← Nat.toList_repr]
    exact congrArg String.toList h
  rw [← Nat.ofDigitChars_toDigits (b := 10) (by omega) (by omega) (n := n), hdigits,
    Nat.ofDigitChars_toDigits (by omega) (by omega)]

/-- Seven days of unbonding and no decay. -/
def sampleConfig : Config := ⟨604800, fun _ => 1⟩

@[simp] theorem forEffect_returns {α : Type} {p : Econ α} {env : Env} {s s' : Session Db} {u : Unit} :
    forEffect p env s = (.returns u, s') ↔ ∃ a, p env s = (.returns a, s') := by
  simp [forEffect]

theorem readOnly_attempt {α : Type} (f : Db → Except LedgerError α) : ReadOnly (attempt f) := by
  refine ReadOnly.bind (ReadOnly.query f) ?_
  intro answer
  cases answer with
  | ok _ => exact ReadOnly.pure ()
  | error e => exact ReadOnly.raise e

theorem readOnly_forEffect {α : Type} {p : Econ α} (h : ReadOnly p) : ReadOnly (forEffect p) :=
  h.bind fun _ => ReadOnly.pure ()

theorem atomic_forEffect {α : Type} {p : Econ α} (h : Atomic p) : Atomic (forEffect p) := h.map fun _ => ()

end AgentNetwork
