import AgentNetwork.Economics.Calls

namespace AgentNetwork

open Relational Transactional Transactional.Prog

theorem quiet_recordOperation (a opType : String) (n t : Int) (m : Metadata) : Quiet (recordOperation a opType n t m) :=
  Quiet.uuid4.bind fun _ => Quiet.execute _

theorem quiet_timestampOr (timestampNs : Option Int) : Quiet (timestampOr timestampNs) := by
  cases timestampNs with
  | none => exact Quiet.timeNs
  | some t => exact Quiet.pure t

theorem quiet_forEffect {α : Type} {p : Econ α} (h : Quiet p) : Quiet (forEffect p) := h.bind fun _ => Quiet.pure ()

theorem lockSafe_forEffect {α : Type} {p : Econ α} (h : LockSafe p) : LockSafe (forEffect p) :=
  h.bind fun _ => (Quiet.pure ()).lockSafe

theorem quiet_attempt {α : Type} (f : Db → Except LedgerError α) : Quiet (attempt f) := by
  refine (Quiet.query f).bind ?_
  intro answer
  cases answer with
  | ok _ => exact Quiet.pure ()
  | error e => exact Quiet.raise e

/-- A check before the critical section. -/
theorem lockSafe_raiseIf_bind {α : Type} {c : Prop} [Decidable c] {e : LedgerError} {f : Unit → Econ α}
    (h : ∀ u, LockSafe (f u)) : LockSafe (raiseIf c e >>= f) := (Quiet.raiseIf c e).lockSafe.bind h

namespace CreditLedger

theorem lockSafe_createAccount (a : String) (n : Int) (minter : Option String) : LockSafe (createAccount a n minter) := by
  refine lockSafe_raiseIf_bind fun _ => lockSafe_raiseIf_bind fun _ => lockSafe_raiseIf_bind fun _ => .withLock ?_
  refine (Quiet.query _).bind fun _ => (Quiet.raiseIf _ _).bind fun _ => ?_
  refine (Quiet.query _).bind fun _ => (Quiet.raiseIf _ _).bind fun _ => .withConn ?_
  refine (Quiet.execute _).bind fun _ => .runIf (Quiet.timeNs.bind fun _ => ?_)
  exact (quiet_recordOperation _ _ _ _ _).bind fun _ => Quiet.execute _

theorem quiet_creditAccount (a : String) (n : Int) : Quiet (creditAccount a n) :=
  (Quiet.query _).bind fun _ => .ite (Quiet.execute _) (Quiet.execute _)

theorem lockSafe_transfer (f t : String) (n : Int) (allow : Bool) : LockSafe (transfer f t n allow) := by
  refine lockSafe_raiseIf_bind fun _ => lockSafe_raiseIf_bind fun _ => lockSafe_raiseIf_bind fun _ => .withLock ?_
  refine (Quiet.query _).bind fun _ => (Quiet.raiseIf _ _).bind fun _ => ?_
  refine (Quiet.query _).bind fun _ => (Quiet.raiseIf _ _).bind fun _ => ?_
  refine (Quiet.runIf (Quiet.execute _)).bind fun _ => .withConn ?_
  refine (Quiet.execute _).bind fun _ => (quiet_creditAccount t n).bind fun _ => ?_
  refine Quiet.uuid4.bind fun _ => Quiet.timeNs.bind fun _ => ?_
  exact (quiet_recordOperation _ _ _ _ _).bind fun _ => (quiet_recordOperation _ _ _ _ _).bind fun _ => Quiet.pure _

theorem lockSafe_escrow (a : String) (n : Int) (key : String) : LockSafe (escrow a n key) := by
  refine lockSafe_raiseIf_bind fun _ => lockSafe_raiseIf_bind fun _ => .withLock ?_
  refine (Quiet.query _).bind fun _ => (Quiet.raiseIf _ _).bind fun _ => .withConn ?_
  refine (Quiet.execute _).bind fun _ => Quiet.timeNs.bind fun _ => (Quiet.execute _).bind fun _ => ?_
  exact Quiet.timeNs.bind fun _ => quiet_recordOperation _ _ _ _ _

theorem quiet_openEscrow (key : Option String) : Quiet (openEscrow key) := by
  refine (Quiet.query _).bind ?_
  intro row
  rcases row with _ | ⟨k, e⟩
  · exact Quiet.raise _
  · exact .ite (Quiet.raise _) (Quiet.pure _)

theorem lockSafe_releaseEscrow (key : Option String) (t : String) : LockSafe (releaseEscrow key t) := by
  refine lockSafe_raiseIf_bind fun _ => .withLock (.withConn ?_)
  refine (quiet_openEscrow key).bind fun _ => (Quiet.execute _).bind fun _ => ?_
  refine (quiet_creditAccount _ _).bind fun _ => (Quiet.execute _).bind fun _ => ?_
  exact Quiet.timeNs.bind fun _ => quiet_recordOperation _ _ _ _ _

theorem lockSafe_cancelEscrow (key : Option String) : LockSafe (cancelEscrow key) := by
  refine .withLock ((quiet_openEscrow key).bind fun _ => .withConn ?_)
  refine (Quiet.execute _).bind fun _ => (Quiet.execute _).bind fun _ => ?_
  exact Quiet.timeNs.bind fun _ => quiet_recordOperation _ _ _ _ _

end CreditLedger

namespace StakeManager

theorem lockSafe_stake (a : String) (n : Int) : LockSafe (stake a n) := by
  refine lockSafe_raiseIf_bind fun _ => .withLock ?_
  refine (Quiet.query _).bind fun _ => (Quiet.raiseIf _ _).bind fun _ => .withConn ?_
  exact (Quiet.execute _).bind fun _ => Quiet.timeNs.bind fun _ => quiet_recordOperation _ _ _ _ _

theorem lockSafe_unstake (period : Int) (a : String) (n : Int) : LockSafe (unstake period a n) := by
  refine lockSafe_raiseIf_bind fun _ => .withLock ?_
  refine (Quiet.query _).bind fun _ => (Quiet.raiseIf _ _).bind fun _ => ?_
  refine Quiet.timeNs.bind fun _ => Quiet.uuid4.bind fun _ => Quiet.bind (.withConn ?_) fun _ => Quiet.pure _
  exact (Quiet.execute _).bind fun _ => (Quiet.execute _).bind fun _ => quiet_recordOperation _ _ _ _ _

theorem lockSafe_completeUnbonding (a : String) : LockSafe (completeUnbonding a) := by
  refine .withLock (Quiet.timeNs.bind fun _ => (Quiet.query _).bind fun _ => ?_)
  refine .ite (Quiet.pure _) (Quiet.bind (.withConn ?_) fun _ => Quiet.pure _)
  refine (Quiet.execute _).bind fun _ => .forEach _ fun _ => ?_
  exact (Quiet.execute _).bind fun _ => quiet_recordOperation _ _ _ _ _

end StakeManager

namespace SlashingRules

theorem quiet_calculateSlashAmount (a : String) (violation : ViolationType) (severity : Int) :
    Quiet (calculateSlashAmount a violation severity) :=
  (Quiet.raiseIf _ _).bind fun _ => (Quiet.query _).bind fun _ => Quiet.pure _

theorem lockSafe_executeSlash (event : SlashEvent) : LockSafe (executeSlash event) := by
  refine .withLock ((Quiet.query _).bind fun _ => .withConn ?_)
  refine Quiet.bind (.runIf ?_) fun _ => Quiet.execute _
  exact (Quiet.execute _).bind fun _ => quiet_recordOperation _ _ _ _ _

theorem lockSafe_slashEach (evidence : String) (timestamp : Int) (verifiers : List String) :
    LockSafe (slashEach evidence timestamp verifiers) := by
  induction verifiers with
  | nil => exact (Quiet.pure _).lockSafe
  | cons v rest ih =>
    refine (quiet_calculateSlashAmount v _ _).lockSafe.bind fun _ => Quiet.uuid4.lockSafe.bind fun _ => ?_
    exact (lockSafe_executeSlash _).bind fun _ => ih.bind fun _ => (Quiet.pure _).lockSafe

theorem quiet_payReward (reason evidence : String) (timestamp : Int) (payout : String × Int) :
    Quiet (payReward reason evidence timestamp payout) :=
  (Quiet.execute _).bind fun _ => quiet_recordOperation _ _ _ _ _

theorem lockSafe_slashVerifiers (verifiers : List String) (evidence challenger : String) (honest : Option (List String))
    (timestampNs : Option Int) (log : Option (List AttestRecord)) :
    LockSafe (slashVerifiers verifiers evidence challenger honest timestampNs log) := by
  refine (quiet_timestampOr timestampNs).lockSafe.bind fun timestamp => ?_
  refine .ite (Quiet.pure _).lockSafe ?_
  cases log with
  | none => exact (Quiet.raise _).lockSafe
  | some log =>
    refine lockSafe_raiseIf_bind fun _ => (lockSafe_slashEach evidence timestamp verifiers).bind fun _ => ?_
    refine LockSafe.bind (.withLock (.withConn ?_)) fun _ => (Quiet.pure _).lockSafe
    refine Quiet.bind (.runIf (quiet_payReward _ _ _ _)) fun _ => .runIf (.forEach _ fun _ => ?_)
    exact quiet_payReward _ _ _ _

end SlashingRules

namespace VerifierPool

theorem lockSafe_updateExisting (v : String) (f : VerifierRecord → VerifierRecord) : LockSafe (updateExisting v f) :=
  .withLock ((Quiet.query _).bind fun _ => (Quiet.raiseIf _ _).bind fun _ => .withConn (Quiet.execute _))

theorem lockSafe_register (v : String) (n : Int) (capabilities : List String) (metadata : VerifierMetadata) :
    LockSafe (register v n capabilities metadata) := by
  refine lockSafe_raiseIf_bind fun _ => (Quiet.query _).lockSafe.bind fun _ => lockSafe_raiseIf_bind fun _ => ?_
  exact .withLock (.withConn (Quiet.timeNs.bind fun _ => Quiet.execute _))

theorem lockSafe_updateReputation (v : String) (reputation : Rat) : LockSafe (updateReputation v reputation) :=
  lockSafe_raiseIf_bind fun _ => lockSafe_updateExisting v _

end VerifierPool

namespace ReputationTracker

theorem quiet_getReputation (decayFactor : Rat → Rat) (did : String) : Quiet (getReputation decayFactor did) := by
  refine (Quiet.query _).bind ?_
  intro verifier
  cases verifier with
  | none => exact Quiet.pure _
  | some verifier =>
    exact (Quiet.query _).bind fun _ => Quiet.timeNs.bind fun _ => .ite (Quiet.pure _) (Quiet.pure _)

theorem lockSafe_applyDecay (decayFactor : Rat → Rat) (did : String) : LockSafe (applyDecay decayFactor did) := by
  refine (quiet_getReputation decayFactor did).lockSafe.bind fun currentRep => (Quiet.query _).lockSafe.bind ?_
  intro verifier
  cases verifier with
  | none => exact (Quiet.pure _).lockSafe
  | some verifier =>
    refine LockSafe.bind ?_ fun _ => (Quiet.pure _).lockSafe
    exact .ite (VerifierPool.lockSafe_updateReputation did currentRep) (Quiet.pure ()).lockSafe

end ReputationTracker

theorem BountyManager.lockSafe_createBounty (taskId : String) (n : Int) (taskClass : TaskClass) (creator : String) :
    LockSafe (createBounty taskId n taskClass creator) := by
  refine lockSafe_raiseIf_bind fun _ => lockSafe_raiseIf_bind fun _ => Quiet.uuid4.lockSafe.bind fun _ => ?_
  exact LockSafe.bind (.withLock (.withConn (Quiet.timeNs.bind fun _ => Quiet.execute _))) fun _ => (Quiet.pure _).lockSafe

/-- The calls that take the lock a second time while they hold it. -/
def Call.Reenters (db : Db) : Call → Prop
  | .escrowBounty bountyId _ => ∃ bounty, db.bounties.get? bountyId = some bounty ∧ bounty.status = .created ∧
      isBlank bounty.creatorId = false ∧ 0 < bounty.amount
  | .distributeBounty bountyId recipients => ∃ bounty, db.bounties.get? bountyId = some bounty ∧
      bounty.status = .escrowed ∧ (recipients.entries.map Prod.snd).sum ≤ bounty.amount ∧
      ∀ first ∈ recipients.entries.head?, isBlank first.1 = false
  | .cancelBounty bountyId => ∃ bounty, db.bounties.get? bountyId = some bounty ∧ bounty.status = .escrowed ∧
      bounty.escrowId.getD "" ≠ ""
  | .recordAttestation did _ verdict => verdict = false ∧ db.verifiers.contains did = true
  | .recordChallenge did upheld => upheld = true ∧ db.verifiers.contains did = true
  | _ => False

section Nested

variable {env : Env} {s : Session Db}

theorem findBounty_of_some {bountyId : String} {bounty : Bounty} (h : s.db.bounties.get? bountyId = some bounty) :
    BountyManager.findBounty bountyId env s = (.returns bounty, s) := by
  rw [BountyManager.findBounty, bind_of_returns (query_apply _), h]
  rfl

theorem findBounty_of_none {bountyId : String} (h : s.db.bounties.get? bountyId = none) :
    BountyManager.findBounty bountyId env s = (.raises (.valueError s!"Bounty not found: {bountyId}"), s) := by
  rw [BountyManager.findBounty, bind_of_returns (query_apply _), h]
  rfl

/-- Only the validation of the arguments comes before the lock. -/
theorem escrow_blocks_iff (henv : env.reentrant = false) (hs : s.held = true) (a key : String) (n : Int) :
    (CreditLedger.escrow a n key env s).1 = .blocks ↔ isBlank a = false ∧ 0 < n := by
  rw [CreditLedger.escrow, validateAccountId, validateAmount]
  by_cases ha : isBlank a = true
  · rw [bind_of_raises (raiseIf_of ha)]
    simp [ha]
  rw [bind_of_returns (raiseIf_of_not ha)]
  by_cases hn : n ≤ 0
  · rw [bind_of_raises (raiseIf_of hn)]
    simp [not_lt.mpr hn]
  rw [bind_of_returns (raiseIf_of_not hn), withLock_held henv hs]
  simpa [ha] using hn

/-- Paying out starts with a ledger call, which takes the lock unless the
recipient's id is refused before. -/
theorem payRecipients_blocks_iff (henv : env.reentrant = false) (hs : s.held = true) (key : Option String) (n : Int)
    (recipients : Table String Int) :
    (BountyManager.payRecipients key n recipients env s).1 = .blocks ↔
      ∀ first ∈ recipients.entries.head?, isBlank first.1 = false := by
  unfold BountyManager.payRecipients
  cases hentries : recipients.entries with
  | nil =>
    have hcancel : CreditLedger.cancelEscrow key env s = (.blocks, s) := withLock_held henv hs
    simp [hcancel]
  | cons first rest =>
    obtain ⟨firstRecipient, share⟩ := first
    by_cases hblank : isBlank firstRecipient = true
    · have hrelease : CreditLedger.releaseEscrow key firstRecipient env s =
          (.raises (.valueError "Account ID cannot be empty"), s) := bind_of_raises (raiseIf_of hblank)
      simp only
      rw [bind_of_raises hrelease]
      simp [hblank]
    · have hrelease : CreditLedger.releaseEscrow key firstRecipient env s = (.blocks, s) :=
        (bind_of_returns (raiseIf_of_not hblank)).trans (withLock_held henv hs)
      simp only
      rw [bind_of_blocks hrelease]
      simpa using hblank

theorem escrowBounty_endsFree_iff (henv : env.reentrant = false) (hs : s.held = false) (bountyId commitId : String) :
    EndsFree (BountyManager.escrowBounty bountyId commitId) env s ↔ ¬Call.Reenters s.db (.escrowBounty bountyId commitId) := by
  rw [BountyManager.escrowBounty, withLock_endsFree_iff hs, not_iff_not]
  cases hg : s.db.bounties.get? bountyId with
  | none =>
    rw [bind_of_raises (findBounty_of_none (s := { s with held := true }) hg)]
    simp [Call.Reenters, hg]
  | some bounty =>
    rw [bind_of_returns (findBounty_of_some (s := { s with held := true }) hg)]
    by_cases hstatus : bounty.status = .created
    · rw [bind_of_returns (raiseIf_of_not (not_not.mpr hstatus))]
      rw [bind_quiet_blocks_iff (fun _ => Quiet.bind (.withConn (Quiet.timeNs.bind fun _ => Quiet.execute _)) fun _ => Quiet.pure _)]
      rw [escrow_blocks_iff henv rfl]
      simp [Call.Reenters, hg, hstatus]
    · rw [bind_of_raises (raiseIf_of hstatus)]
      simp [Call.Reenters, hg, hstatus]

theorem distributeBounty_endsFree_iff (henv : env.reentrant = false) (hs : s.held = false) (bountyId : String)
    (recipients : Table String Int) : EndsFree (BountyManager.distributeBounty bountyId recipients) env s ↔
      ¬Call.Reenters s.db (.distributeBounty bountyId recipients) := by
  rw [BountyManager.distributeBounty, withLock_endsFree_iff hs, not_iff_not]
  cases hg : s.db.bounties.get? bountyId with
  | none =>
    rw [bind_of_raises (findBounty_of_none (s := { s with held := true }) hg)]
    simp [Call.Reenters, hg]
  | some bounty =>
    rw [bind_of_returns (findBounty_of_some (s := { s with held := true }) hg)]
    by_cases hstatus : bounty.status = .escrowed
    · rw [bind_of_returns (raiseIf_of_not (not_not.mpr hstatus))]
      by_cases htotal : (recipients.entries.map Prod.snd).sum > bounty.amount
      · rw [bind_of_raises (raiseIf_of htotal)]
        simp [Call.Reenters, hg, not_le.mpr htotal]
      · rw [bind_of_returns (raiseIf_of_not htotal)]
        rw [bind_quiet_blocks_iff (fun _ => .withConn (Quiet.timeNs.bind fun _ => Quiet.execute _))]
        rw [payRecipients_blocks_iff henv rfl]
        simp [Call.Reenters, hg, hstatus, not_lt.mp htotal]
    · rw [bind_of_raises (raiseIf_of hstatus)]
      simp [Call.Reenters, hg, hstatus]

theorem cancelBounty_endsFree_iff (henv : env.reentrant = false) (hs : s.held = false) (bountyId : String) :
    EndsFree (BountyManager.cancelBounty bountyId) env s ↔ ¬Call.Reenters s.db (.cancelBounty bountyId) := by
  rw [BountyManager.cancelBounty, withLock_endsFree_iff hs, not_iff_not]
  cases hg : s.db.bounties.get? bountyId with
  | none =>
    rw [bind_of_raises (findBounty_of_none (s := { s with held := true }) hg)]
    simp [Call.Reenters, hg]
  | some bounty =>
    rw [bind_of_returns (findBounty_of_some (s := { s with held := true }) hg), bind_quiet_blocks_iff (fun _ => .withConn (Quiet.execute _)), runIf_apply]
    by_cases hescrow : bounty.status = .escrowed ∧ bounty.escrowId.getD "" ≠ ""
    · have hcancel : CreditLedger.cancelEscrow bounty.escrowId env { s with held := true } =
          (.blocks, { s with held := true }) := withLock_held henv rfl
      rw [if_pos hescrow, hcancel]
      simpa [Call.Reenters, hg] using hescrow
    · rw [if_neg hescrow]
      simpa [Call.Reenters, hg] using hescrow

/-- The reputation is updated through the pool, which takes the lock itself. -/
theorem applyDelta_endsFree_iff (henv : env.reentrant = false) (hs : s.held = false) (did eventType : String)
    (delta : Rat) :
    EndsFree (ReputationTracker.applyDelta did eventType delta) env s ↔ ¬s.db.verifiers.contains did = true := by
  rw [ReputationTracker.applyDelta, withLock_endsFree_iff hs, not_iff_not]
  rw [bind_of_returns (query_apply _)]
  cases hg : s.db.verifiers.get? did with
  | none => simp [VerifierPool.getVerifier, hg, Table.contains]
  | some verifier =>
    have hrange (v : Rat) : ¬(ReputationTracker.clamp v < 0 ∨ ReputationTracker.clamp v > 1) := by
      have hlow : 0 ≤ ReputationTracker.clamp v := le_max_left _ _
      have hhigh : ReputationTracker.clamp v ≤ 1 := max_le (by norm_num) (min_le_left _ _)
      rintro (h | h)
      · exact absurd hlow (not_le.mpr h)
      · exact absurd hhigh (not_le.mpr h)
    have hupdate (v : Rat) : VerifierPool.updateReputation did (ReputationTracker.clamp v) env { s with held := true } =
        (.blocks, { s with held := true }) :=
      (bind_of_returns (raiseIf_of_not (hrange v))).trans (withLock_held henv rfl)
    simp only [VerifierPool.getVerifier, hg]
    rw [withConn, bind_of_blocks (hupdate _)]
    simp [Table.contains, hg]

end Nested

/-- Of the calls of these four classes none takes the lock twice. -/
theorem Call.lockSafe_of_component (config : Config) {c : Call} (hr : c.component ≠ .reputation)
    (hb : c.component ≠ .bounty) : LockSafe (c.run config) := by
  cases c with
  | createAccount a n minter => exact CreditLedger.lockSafe_createAccount a n minter
  | getTotalSupply => exact lockSafe_forEffect (.withLock (Quiet.query _))
  | transfer f t n allow => exact lockSafe_forEffect (CreditLedger.lockSafe_transfer f t n allow)
  | escrow a n key => exact CreditLedger.lockSafe_escrow a n key
  | releaseEscrow key t => exact CreditLedger.lockSafe_releaseEscrow key t
  | cancelEscrow key => exact CreditLedger.lockSafe_cancelEscrow key
  | getAuditTrail a limit => exact (quiet_attempt _).lockSafe
  | stake a n => exact StakeManager.lockSafe_stake a n
  | unstake a n => exact lockSafe_forEffect (StakeManager.lockSafe_unstake _ a n)
  | completeUnbonding a => exact lockSafe_forEffect (StakeManager.lockSafe_completeUnbonding a)
  | calculateSlashAmount a violation severity =>
    exact (quiet_forEffect (SlashingRules.quiet_calculateSlashAmount a violation severity)).lockSafe
  | executeSlash event => exact SlashingRules.lockSafe_executeSlash event
  | getSlashHistory a limit => exact (quiet_attempt _).lockSafe
  | slashVerifiers verifiers evidence challenger honest t log =>
    exact lockSafe_forEffect (SlashingRules.lockSafe_slashVerifiers verifiers evidence challenger honest t log)
  | register v n capabilities metadata => exact VerifierPool.lockSafe_register v n capabilities metadata
  | deregister v => exact VerifierPool.lockSafe_updateExisting v _
  | updateCapabilities v capabilities => exact VerifierPool.lockSafe_updateExisting v _
  | updateReputation v reputation => exact VerifierPool.lockSafe_updateReputation v reputation
  | getBalance _ | getAccount _ | getStakedAmount _ | getUnbondingAmount _ | getUnbondingRecords _ _
  | getPoolMembers _ | getActiveVerifiers _ | getVerifier _ => exact (quiet_forEffect (Quiet.query _)).lockSafe
  | recordAttestation | recordChallenge | getReputation | applyDecay | getReputationHistory => exact absurd rfl hr
  | createBounty | escrowBounty | distributeBounty | cancelBounty | getBounty | getTaskBounty => exact absurd rfl hb

/-- With the lock free a call runs to its end and frees the lock, except where
it takes the lock that it holds. -/
theorem lock_not_reentered_iff (config : Config) {env : Env} (henv : env.reentrant = false) {s : Session Db}
    (hs : s.held = false) (c : Call) : EndsFree (c.run config) env s ↔ ¬c.Reenters s.db := by
  have hsafe (h : LockSafe (c.run config)) (hn : ¬c.Reenters s.db) :
      EndsFree (c.run config) env s ↔ ¬c.Reenters s.db := ⟨fun _ => hn, fun _ => h env s hs⟩
  cases c with
  | recordAttestation did taskId verdict =>
    cases verdict with
    | true => exact hsafe (Quiet.pure ()).lockSafe (by simp [Call.Reenters])
    | false => exact (applyDelta_endsFree_iff henv hs did _ _).trans (by simp [Call.Reenters])
  | recordChallenge did upheld =>
    cases upheld with
    | false => exact hsafe (Quiet.pure ()).lockSafe (by simp [Call.Reenters])
    | true => exact (applyDelta_endsFree_iff henv hs did _ _).trans (by simp [Call.Reenters])
  | getReputation did => exact hsafe (quiet_forEffect (ReputationTracker.quiet_getReputation _ did)).lockSafe nofun
  | applyDecay did => exact hsafe (lockSafe_forEffect (ReputationTracker.lockSafe_applyDecay _ did)) nofun
  | createBounty taskId n taskClass creator =>
    exact hsafe (lockSafe_forEffect (BountyManager.lockSafe_createBounty taskId n taskClass creator)) nofun
  | escrowBounty bountyId commitId =>
    exact bind_pure_endsFree_iff.trans (escrowBounty_endsFree_iff henv hs bountyId commitId)
  | distributeBounty bountyId recipients => exact distributeBounty_endsFree_iff henv hs bountyId recipients
  | cancelBounty bountyId => exact cancelBounty_endsFree_iff henv hs bountyId
  | getReputationHistory _ _ | getBounty _ | getTaskBounty _ =>
    exact hsafe (quiet_forEffect (Quiet.query _)).lockSafe nofun
  | _ => exact hsafe (Call.lockSafe_of_component config nofun nofun) nofun

/-- Reading the supply takes the lock once. -/
theorem lock_not_reentered_iff_getTotalSupply :
    EndsFree (Call.getTotalSupply.run sampleConfig) (countingEnv false) Session.empty :=
  (@lock_not_reentered_iff sampleConfig (countingEnv false) rfl Session.empty rfl .getTotalSupply).mpr nofun

/-- Escrowing a bounty that was just created waits for the lock it holds. -/
theorem escrowBounty_waits_for_itself :
    let env := countingEnv false
    let s := ((Call.createBounty "task" 10 .simple "alice").run sampleConfig env Session.empty).2
    s.held = false ∧ ((Call.escrowBounty "0" "commit").run sampleConfig env s).1 = .blocks ∧
      ¬EndsFree ((Call.escrowBounty "0" "commit").run sampleConfig) env s := by
  have hblocks : ((Call.escrowBounty "0" "commit").run sampleConfig (countingEnv false)
      ((Call.createBounty "task" 10 .simple "alice").run sampleConfig (countingEnv false) Session.empty).2).1 =
        .blocks := by decide
  exact ⟨by decide, hblocks, fun h => h.1 hblocks⟩

end AgentNetwork
