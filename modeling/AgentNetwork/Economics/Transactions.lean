import AgentNetwork.Economics.Calls

namespace AgentNetwork

open Relational Transactional Transactional.Prog

theorem readOnly_validateAmount (n : Int) : ReadOnly (validateAmount n) := ReadOnly.raiseIf _ _

theorem readOnly_validateAccountId (a : String) : ReadOnly (validateAccountId a) := ReadOnly.raiseIf _ _

theorem noCommit_recordOperation (a opType : String) (n t : Int) (m : Metadata) :
    NoCommit (recordOperation a opType n t m) :=
  ReadOnly.uuid4.noCommit.bind fun _ => NoCommit.execute _

namespace CreditLedger

theorem noCommit_creditAccount (a : String) (n : Int) : NoCommit (creditAccount a n) := by
  refine (ReadOnly.query _).noCommit.bind ?_
  intro found
  split
  · exact NoCommit.execute _
  · exact NoCommit.execute _

theorem atomic_createAccount (a : String) (n : Int) (minter : Option String) : Atomic (createAccount a n minter) := by
  refine .bind_readOnly (readOnly_validateAccountId a) fun _ => ?_
  refine .bind_readOnly (ReadOnly.raiseIf _ _) fun _ => ?_
  refine .bind_readOnly (ReadOnly.raiseIf _ _) fun _ => ?_
  refine .withLock (.bind_readOnly (ReadOnly.query _) fun _ => ?_)
  refine .bind_readOnly (ReadOnly.raiseIf _ _) fun _ => ?_
  refine .bind_readOnly (ReadOnly.query _) fun _ => ?_
  refine .bind_readOnly (ReadOnly.raiseIf _ _) fun _ => .withConn ?_
  refine (NoCommit.execute _).bind fun _ => .runIf (ReadOnly.timeNs.noCommit.bind fun _ => ?_)
  exact (noCommit_recordOperation _ _ _ _ _).bind fun _ => NoCommit.execute _

theorem noCommit_transferBody (f t : String) (n : Int) : NoCommit (do
    execute (updateAccount f (-n) 0 0)
    creditAccount t n
    let opId ← uuid4
    let timestamp ← timeNs
    recordOperation f OpType.transfer.value (-n) timestamp (.transferTo t opId)
    recordOperation t OpType.transfer.value n timestamp (.transferFrom f opId)
    pure opId : Econ String) := by
  refine (NoCommit.execute _).bind fun _ => (noCommit_creditAccount t n).bind fun _ => ?_
  refine ReadOnly.uuid4.noCommit.bind fun _ => ReadOnly.timeNs.noCommit.bind fun _ => ?_
  refine (noCommit_recordOperation _ _ _ _ _).bind fun _ => (noCommit_recordOperation _ _ _ _ _).bind fun _ => ?_
  exact (ReadOnly.pure _).noCommit

theorem atomic_transfer (f t : String) (n : Int) (allow : Bool) : Atomic (transfer f t n allow) := by
  refine .bind_readOnly (readOnly_validateAccountId f) fun _ => ?_
  refine .bind_readOnly (readOnly_validateAccountId t) fun _ => ?_
  refine .bind_readOnly (readOnly_validateAmount n) fun _ => ?_
  refine .withLock (.bind_readOnly (ReadOnly.query _) fun _ => ?_)
  refine .bind_readOnly (ReadOnly.raiseIf _ _) fun _ => ?_
  refine .bind_readOnly (ReadOnly.query _) fun found => ?_
  refine .bind_readOnly (ReadOnly.raiseIf _ _) fun _ => ?_
  -- the recipient row is pending when the transaction starts
  unfold runIf
  split
  · exact .execute_withConn fun _ => noCommit_transferBody f t n
  · exact .bind_readOnly (ReadOnly.pure ()) fun _ => .withConn (noCommit_transferBody f t n)

theorem atomic_escrow (a : String) (n : Int) (key : String) : Atomic (escrow a n key) := by
  refine .bind_readOnly (readOnly_validateAccountId a) fun _ => ?_
  refine .bind_readOnly (readOnly_validateAmount n) fun _ => ?_
  refine .withLock (.bind_readOnly (ReadOnly.query _) fun _ => ?_)
  refine .bind_readOnly (ReadOnly.raiseIf _ _) fun _ => .withConn ?_
  refine (NoCommit.execute _).bind fun _ => ReadOnly.timeNs.noCommit.bind fun _ => ?_
  exact (NoCommit.execute _).bind fun _ => ReadOnly.timeNs.noCommit.bind fun _ => noCommit_recordOperation _ _ _ _ _

theorem readOnly_openEscrow (key : Option String) : ReadOnly (openEscrow key) := by
  refine ReadOnly.bind (ReadOnly.query _) ?_
  intro row
  rcases row with _ | ⟨k, e⟩
  · exact ReadOnly.raise _
  · simp only
    split
    · exact ReadOnly.raise _
    · exact ReadOnly.pure _

theorem atomic_releaseEscrow (key : Option String) (t : String) : Atomic (releaseEscrow key t) := by
  refine .bind_readOnly (readOnly_validateAccountId t) fun _ => .withLock (.withConn ?_)
  refine (readOnly_openEscrow key).noCommit.bind fun _ => (NoCommit.execute _).bind fun _ => ?_
  refine (noCommit_creditAccount _ _).bind fun _ => (NoCommit.execute _).bind fun _ => ?_
  exact ReadOnly.timeNs.noCommit.bind fun _ => noCommit_recordOperation _ _ _ _ _

theorem atomic_cancelEscrow (key : Option String) : Atomic (cancelEscrow key) := by
  refine .withLock (.bind_readOnly (readOnly_openEscrow key) fun _ => .withConn ?_)
  refine (NoCommit.execute _).bind fun _ => (NoCommit.execute _).bind fun _ => ?_
  exact ReadOnly.timeNs.noCommit.bind fun _ => noCommit_recordOperation _ _ _ _ _

end CreditLedger

namespace StakeManager

theorem atomic_stake (a : String) (n : Int) : Atomic (stake a n) := by
  refine .bind_readOnly (ReadOnly.raiseIf _ _) fun _ => .withLock ?_
  refine .bind_readOnly (ReadOnly.query _) fun _ => .bind_readOnly (ReadOnly.raiseIf _ _) fun _ => .withConn ?_
  exact (NoCommit.execute _).bind fun _ => ReadOnly.timeNs.noCommit.bind fun _ => noCommit_recordOperation _ _ _ _ _

theorem atomic_unstake (period : Int) (a : String) (n : Int) : Atomic (unstake period a n) := by
  refine .bind_readOnly (ReadOnly.raiseIf _ _) fun _ => .withLock ?_
  refine .bind_readOnly (ReadOnly.query _) fun _ => .bind_readOnly (ReadOnly.raiseIf _ _) fun _ => ?_
  refine .bind_readOnly ReadOnly.timeNs fun startedAt => .bind_readOnly ReadOnly.uuid4 fun unbondingId => ?_
  refine Atomic.map (.withConn ?_) fun _ => unbondingId
  exact (NoCommit.execute _).bind fun _ => (NoCommit.execute _).bind fun _ => noCommit_recordOperation _ _ _ _ _

theorem atomic_completeUnbonding (a : String) : Atomic (completeUnbonding a) := by
  refine .withLock (.bind_readOnly ReadOnly.timeNs fun _ => .bind_readOnly (ReadOnly.query _) fun records => ?_)
  refine .ite (ReadOnly.pure _).atomic (Atomic.map (.withConn ?_) fun _ => (records.map Prod.snd).sum)
  refine (NoCommit.execute _).bind fun _ => .forEach _ fun _ => ?_
  exact (NoCommit.execute _).bind fun _ => noCommit_recordOperation _ _ _ _ _

end StakeManager

namespace SlashingRules

theorem readOnly_calculateSlashAmount (a : String) (violation : ViolationType) (severity : Int) :
    ReadOnly (calculateSlashAmount a violation severity) :=
  (ReadOnly.raiseIf _ _).bind fun _ => (ReadOnly.query _).bind fun _ => ReadOnly.pure _

theorem atomic_executeSlash (event : SlashEvent) : Atomic (executeSlash event) := by
  refine .withLock (.bind_readOnly (ReadOnly.query _) fun _ => .withConn ?_)
  refine NoCommit.bind (.runIf ?_) fun _ => NoCommit.execute _
  exact (NoCommit.execute _).bind fun _ => noCommit_recordOperation _ _ _ _ _

end SlashingRules

/-- The calls that run as one transaction: those of the ledger and of the
stakes, and a single slash. -/
def Call.isTransaction (c : Call) : Prop :=
  c.component = .ledger ∨ c.component = .stake ∨ ∃ event, c = .executeSlash event

theorem Call.isTransaction_of_component {c : Call} (h : c.component = .ledger ∨ c.component = .stake) : c.isTransaction := by
  obtain h | h := h
  · exact Or.inl h
  · exact Or.inr (Or.inl h)

theorem Call.atomic_of_isTransaction (config : Config) {c : Call} (h : c.isTransaction) : Atomic (c.run config) := by
  cases c with
  | createAccount a n minter => exact CreditLedger.atomic_createAccount a n minter
  | getBalance a => exact (readOnly_forEffect (ReadOnly.query _)).atomic
  | getAccount a => exact (readOnly_forEffect (ReadOnly.query _)).atomic
  | getTotalSupply => exact atomic_forEffect (.withLock (ReadOnly.query _).atomic)
  | transfer f t n allow => exact atomic_forEffect (CreditLedger.atomic_transfer f t n allow)
  | escrow a n key => exact CreditLedger.atomic_escrow a n key
  | releaseEscrow key t => exact CreditLedger.atomic_releaseEscrow key t
  | cancelEscrow key => exact CreditLedger.atomic_cancelEscrow key
  | getAuditTrail a limit => exact (readOnly_attempt _).atomic
  | stake a n => exact StakeManager.atomic_stake a n
  | unstake a n => exact atomic_forEffect (StakeManager.atomic_unstake _ a n)
  | completeUnbonding a => exact atomic_forEffect (StakeManager.atomic_completeUnbonding a)
  | getStakedAmount a => exact (readOnly_forEffect (ReadOnly.query _)).atomic
  | getUnbondingAmount a => exact (readOnly_forEffect (ReadOnly.query _)).atomic
  | getUnbondingRecords a includeCompleted => exact (readOnly_forEffect (ReadOnly.query _)).atomic
  | executeSlash event => exact SlashingRules.atomic_executeSlash event
  | _ => simp [Call.isTransaction, Call.component] at h

end AgentNetwork
