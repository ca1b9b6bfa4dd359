import AgentNetwork.Economics.AuditTrail
import AgentNetwork.Economics.Payout
import AgentNetwork.Handlers.Node

namespace AgentNetwork

open Relational Transactional Transactional.Prog

def PayoutDistributor.markInvalidated (taskId : String) (distributor : PayoutDistributor) : PayoutDistributor :=
  if taskId ∈ distributor.invalidatedTasks then distributor
  else { distributor with invalidatedTasks := distributor.invalidatedTasks ++ [taskId] }

namespace Handlers

structure InvalidatePayload where
  taskId : Option String
  challengeId : Option String
  slashedVerifiers : Option (List String)
  honestVerifiers : Option (List String)
  attestationLog : Option (List AttestRecord)
  challenger : Option String
  evidenceHash : Option String
  newKResult : Option Int

/-- `try: ... except Exception:` with nothing but a log line in the handler. -/
def caught {α : Type} (p : Econ α) : Econ Unit := fun env s =>
  match p env s with
  | (.returns _, s') => (.returns (), s')
  | (.raises _, s') => (.returns (), s')
  | (.blocks, s') => (.blocks, s')

/-- `handle_invalidate`. What it calls on the plan store are coroutines that nobody
awaits, so they do nothing. -/
def handleInvalidate (payload : InvalidatePayload) (distributor : PayoutDistributor) : Econ PayoutDistributor :=
  let slashed := payload.slashedVerifiers.getD []
  match given payload.taskId, given payload.challengeId, given payload.challenger, given payload.evidenceHash,
    payload.newKResult with
  | some taskId, some _, some challenger, some evidenceHash, some _ => do
    runIf (slashed ≠ []) do
      let timestamp ← timeNs
      caught (SlashingRules.slashVerifiers slashed evidenceHash challenger payload.honestVerifiers (some timestamp)
        payload.attestationLog)
    pure (distributor.markInvalidated taskId)
  | _, _, _, _, _ => pure distributor

/-- The envelope is complete and its slashing gets past its checks. -/
def InvalidatePayload.Slashes (payload : InvalidatePayload) : Prop :=
  given payload.taskId ≠ none ∧ given payload.challengeId ≠ none ∧ given payload.challenger ≠ none ∧
  given payload.evidenceHash ≠ none ∧ payload.newKResult ≠ none ∧
  SlashingRules.proceeds (payload.slashedVerifiers.getD []) (payload.honestVerifiers.getD []) payload.attestationLog = true

/-- What may come between two deliveries. -/
inductive Delivery
  | call (c : Call)
  | invalidate (payload : InvalidatePayload)

def Delivery.run (config : Config) (distributor : PayoutDistributor) : Delivery → Econ Unit
  | .call c => c.run config
  | .invalidate payload => forEffect (handleInvalidate payload distributor)

open SlashingRules

section Slash

variable {env : Env} {s s' : Session Db} {key : String}

/-- A row of `slash_events` is never taken out. -/
def HasEvent (key : String) (db : Db) : Prop := db.slashEvents.contains key = true

theorem updateAccount_slashEvents {a : String} {b l u : Int} {d d' : Db} (h : updateAccount a b l u d = .ok d') :
    d'.slashEvents = d.slashEvents := by
  obtain ⟨_, hsame⟩ | ⟨account, account', _, _, _, _, hnew⟩ := updateAccount_ok.mp h
  · rw [hsame]
  · rw [hnew]

theorem insertOperation_slashEvents {opId : String} {op : Operation} {d d' : Db} (h : insertOperation opId op d = .ok d') :
    d'.slashEvents = d.slashEvents := by
  obtain ⟨fresh, hnew⟩ := insertRow_ok.mp h
  rw [hnew]

theorem preserves_updateAccount (a : String) (b l u : Int) : Preserves (HasEvent key) (execute (updateAccount a b l u)) := by
  apply Preserves.execute
  intro d d' h hd
  rw [HasEvent, updateAccount_slashEvents hd]
  exact h

theorem preserves_recordOperation (a opType : String) (n t : Int) (m : Metadata) :
    Preserves (HasEvent key) (recordOperation a opType n t m) := by
  refine .bind (.readOnly ReadOnly.uuid4) fun opId => .execute ?_
  intro d d' h hd
  rw [HasEvent, insertOperation_slashEvents hd]
  exact h

theorem preserves_executeSlash (event : SlashEvent) : Preserves (HasEvent key) (executeSlash event) := by
  refine .withLock (.bind (.readOnly (ReadOnly.query _)) fun staked => .withConn ?_)
  refine .bind (.runIf (.bind (preserves_updateAccount _ _ _ _) fun _ => preserves_recordOperation _ _ _ _ _)) fun _ => ?_
  apply Preserves.execute
  intro d d' h hd
  obtain ⟨fresh, hnew⟩ := insertRow_ok.mp hd
  rw [hnew]
  show (d.slashEvents.insert event.eventId _ fresh).contains key = true
  rw [Table.contains_insert, h, Bool.or_true]

theorem preserves_payReward (reason evidence : String) (t : Int) (r : String × Int) :
    Preserves (HasEvent key) (payReward reason evidence t r) :=
  .bind (preserves_updateAccount _ _ _ _) fun _ => preserves_recordOperation _ _ _ _ _

theorem updateAccount_stake {a : String} {n : Int} {db : Db} (hpos : 0 < n)
    (hle : n ≤ StakeManager.getStakedAmount a db) : ∃ d, updateAccount a 0 (-n) 0 db = .ok d := by
  obtain ⟨account, ha⟩ := Table.contains_eq_true_iff.mp (contains_of_stake hpos hle)
  have hlocked : StakeManager.getStakedAmount a db = account.locked := by
    simp [StakeManager.getStakedAmount, CreditLedger.getAccount, ha]
  have hb := account.balance_nonneg
  have hu := account.unbonding_nonneg
  exact updateAccount_succeeds ha (by omega) (by omega) (by omega)

/-- Whatever stake is left, a slash writes its row. -/
theorem executeSlash_inserts {event : SlashEvent} (hfree : s.held = false)
    (hevent : s.db.slashEvents.get? event.eventId = none) (hop : s.db.operations.get? (env.uuid4 s.draws) = none) :
    ∃ s', executeSlash event env s = (.returns (), s') ∧ Settled (HasEvent event.eventId) s' ∧ s'.held = false := by
  let actualSlash := min (StakeManager.getStakedAmount event.accountId s.db) event.amount
  let row : SlashRow := ⟨event.accountId, event.reason.value, actualSlash, event.evidenceHash, event.severity, event.timestamp⟩
  have hinsert : ∀ t : Session Db, t.db.slashEvents = s.db.slashEvents → ∃ d : Db,
      (execute (insertSlashEvent event.eventId row) : Econ Unit) env t = (.returns (), { t with db := d }) ∧
        HasEvent event.eventId d := by
    intro t ht
    have fresh : t.db.slashEvents.get? event.eventId = none := ht ▸ hevent
    refine ⟨_, execute_returns.mpr ⟨_, insertRow_ok.mpr ⟨fresh, rfl⟩, rfl⟩, ?_⟩
    show (t.db.slashEvents.insert event.eventId row fresh).contains event.eventId = true
    rw [Table.contains_insert, decide_eq_true rfl, Bool.true_or]
  have hbody : ∃ t : Session Db, (runIf (actualSlash > 0) (do
      execute (updateAccount event.accountId 0 (-actualSlash) 0)
      recordOperation event.accountId "SLASH" actualSlash event.timestamp
        (.slash event.eventId event.reason.value event.severity event.evidenceHash)) : Econ Unit) env
        { s with held := true } = (.returns (), t) ∧ t.db.slashEvents = s.db.slashEvents := by
    by_cases hpos : actualSlash > 0
    · obtain ⟨d₁, hd₁⟩ := updateAccount_stake hpos (min_le_left _ _)
      obtain ⟨_, _, _, hoperations⟩ := updateAccount_frame hd₁
      obtain ⟨d₂, hd₂⟩ := insertOperation_succeeds ⟨event.accountId, "SLASH", actualSlash, event.timestamp,
        .slash event.eventId event.reason.value event.severity event.evidenceHash⟩ (hoperations ▸ hop)
      refine ⟨_, runIf_returns.mpr (Or.inl ⟨hpos, bind_returns.mpr ⟨(), _, execute_returns.mpr ⟨d₁, hd₁, rfl⟩,
        recordOperation_of_ok hd₂⟩⟩), ?_⟩
      exact (insertOperation_slashEvents hd₂).trans (updateAccount_slashEvents hd₁)
    · exact ⟨_, runIf_returns.mpr (Or.inr ⟨hpos, rfl⟩), rfl⟩
  obtain ⟨t, hrun, ht⟩ := hbody
  obtain ⟨d, hrow, hhas⟩ := hinsert t ht
  refine ⟨_, withLock_returns.mpr ⟨Or.inl hfree, _, bind_returns.mpr ⟨_, _, query_apply _,
    withConn_returns.mpr ⟨_, bind_returns.mpr ⟨(), t, hrun, hrow⟩, rfl⟩⟩, rfl⟩, ⟨rfl, hhas⟩, hfree⟩

/-- Once it gets past its checks `slash_verifiers` leaves the row of its first slash,
whatever comes after it. -/
theorem slashVerifiers_leaves_event {verifiers : List String} {evidence challenger : String}
    {honest : Option (List String)} {timestamp : Int} {log : Option (List AttestRecord)}
    {out : Outcome LedgerError SlashReport} (hproceeds : proceeds verifiers (honest.getD []) log = true)
    (hfree : s.held = false) (hevent : s.db.slashEvents.get? (env.uuid4 s.draws) = none)
    (hop : s.db.operations.get? (env.uuid4 (s.draws + 1)) = none)
    (h : slashVerifiers verifiers evidence challenger honest (some timestamp) log env s = (out, s')) :
    HasEvent (env.uuid4 s.draws) s'.db := by
  have hout : out ≠ .blocks := by
    have hends := (lockSafe_slashVerifiers verifiers evidence challenger honest (some timestamp) log env s hfree).1
    rw [h] at hends
    exact hends
  cases verifiers with
  | nil => cases hproceeds
  | cons v rest =>
    cases log with
    | none => cases hproceeds
    | some log =>
      have hverified : unverifiedHonest (honest.getD []) log = [] := List.isEmpty_iff.mp hproceeds
      have h : slashAttested (v :: rest) evidence challenger (honest.getD []) timestamp log env s = (out, s') := h
      rw [slashAttested, bind_of_returns (raiseIf_of_not (not_not_intro hverified))] at h
      let event : SlashEvent := ⟨env.uuid4 s.draws, v, .failedChallenge, penalty (s.db.lockedOf v), evidence, 10, timestamp⟩
      obtain ⟨s₁, hslash, hs₁, _⟩ := @executeSlash_inserts env { s with draws := s.draws + 1 } event hfree hevent hop
      have hsettled : Settled (HasEvent (env.uuid4 s.draws)) s' := by
        refine settled_bind ?_ ?_ h hout
        · intro out₁ s₂ hrun hout₁
          rw [slashEach, bind_of_returns (calculateSlashAmount_failed v), bind_of_returns uuid4_apply,
            bind_of_returns hslash] at hrun
          refine settled_bind ?_ ?_ hrun hout₁
          · intro out₂ s₃ hrest hout₂
            exact slashEach_settled (fun _ _ _ _ _ hI hrun => preserves_executeSlash _ _ _ _ _ hI hrun) hs₁ hrest hout₂
          · intro _ s₃ _ hs₃ hend
            rw [← (Prod.mk.inj hend).2]
            exact hs₃
        · intro result s₂ _ hs₂ hrest
          refine settled_bind ?_ ?_ hrest hout
          · intro out₂ s₃ hrun hout₂
            exact payments_settled (fun _ _ _ _ _ hI hrun => preserves_payReward _ _ _ _ _ _ _ _ hI hrun) hs₂ hrun hout₂
          · intro _ s₃ _ hs₃ hend
            rw [← (Prod.mk.inj hend).2]
            exact hs₃
      exact hsettled.2

theorem caught_session {α : Type} (p : Econ α) : (caught p env s).2 = (p env s).2 := by
  unfold caught
  split
  next h => rw [h]
  next h => rw [h]
  next h => rw [h]

theorem bind_pure_session {α β : Type} (p : Econ α) (b : β) : ((p >>= fun _ => pure b) env s).2 = (p env s).2 := by
  rw [bind_apply]
  split
  next h => rw [h]; rfl
  next h => rw [h]
  next h => rw [h]

theorem slashVerifiers_refused {verifiers : List String} {evidence challenger : String} {honest : Option (List String)}
    {timestamp : Int} {log : Option (List AttestRecord)} (h : proceeds verifiers (honest.getD []) log = false) :
    (slashVerifiers verifiers evidence challenger honest (some timestamp) log env s).2 = s := by
  cases verifiers with
  | nil => rfl
  | cons v rest =>
    cases log with
    | none => rfl
    | some log =>
      have hunverified : unverifiedHonest (honest.getD []) log ≠ [] := by
        intro hverified
        rw [proceeds, hverified] at h
        cases h
      show (slashAttested (v :: rest) evidence challenger (honest.getD []) timestamp log env s).2 = s
      rw [slashAttested, bind_of_raises (raiseIf_of hunverified)]

section Deliver

variable {payload : InvalidatePayload} {distributor : PayoutDistributor}

/-- The session after a complete envelope is the one its slashing leaves. -/
theorem handleInvalidate_session {taskId challengeId challenger evidenceHash : String} {newKResult : Int}
    (htask : given payload.taskId = some taskId) (hchallenge : given payload.challengeId = some challengeId)
    (hchallenger : given payload.challenger = some challenger) (hevidence : given payload.evidenceHash = some evidenceHash)
    (hk : payload.newKResult = some newKResult) :
    (handleInvalidate payload distributor env s).2 =
      if payload.slashedVerifiers.getD [] ≠ [] then
        (slashVerifiers (payload.slashedVerifiers.getD []) evidenceHash challenger payload.honestVerifiers
          (some (env.timeNs s.ticks)) payload.attestationLog env { s with ticks := s.ticks + 1 }).2
      else s := by
  rw [handleInvalidate, htask, hchallenge, hchallenger, hevidence, hk]
  dsimp only
  rw [bind_pure_session, runIf_apply]
  split
  next => rw [bind_of_returns timeNs_apply, caught_session]
  next => rfl

theorem handleInvalidate_slashes (h : payload.Slashes) (hfree : s.held = false)
    (hevent : s.db.slashEvents.get? (env.uuid4 s.draws) = none)
    (hop : s.db.operations.get? (env.uuid4 (s.draws + 1)) = none) :
    HasEvent (env.uuid4 s.draws) (handleInvalidate payload distributor env s).2.db := by
  obtain ⟨htask, hchallenge, hchallenger, hevidence, hk, hproceeds⟩ := h
  obtain ⟨taskId, htask⟩ := Option.ne_none_iff_exists'.mp htask
  obtain ⟨challengeId, hchallenge⟩ := Option.ne_none_iff_exists'.mp hchallenge
  obtain ⟨challenger, hchallenger⟩ := Option.ne_none_iff_exists'.mp hchallenger
  obtain ⟨evidenceHash, hevidence⟩ := Option.ne_none_iff_exists'.mp hevidence
  obtain ⟨newKResult, hk⟩ := Option.ne_none_iff_exists'.mp hk
  have hsome : payload.slashedVerifiers.getD [] ≠ [] := by
    intro hnil
    rw [hnil] at hproceeds
    cases hproceeds
  rw [handleInvalidate_session htask hchallenge hchallenger hevidence hk, if_pos hsome]
  have hleaves := @slashVerifiers_leaves_event env { s with ticks := s.ticks + 1 } _ _ evidenceHash challenger _
    (env.timeNs s.ticks) _ _ hproceeds hfree hevent hop rfl
  exact hleaves

theorem handleInvalidate_quiet (h : ¬payload.Slashes) : (handleInvalidate payload distributor env s).2.db = s.db := by
  cases htask : given payload.taskId with
  | none => rw [handleInvalidate, htask]; rfl
  | some taskId =>
  cases hchallenge : given payload.challengeId with
  | none => rw [handleInvalidate, htask, hchallenge]; rfl
  | some challengeId =>
  cases hchallenger : given payload.challenger with
  | none => rw [handleInvalidate, htask, hchallenge, hchallenger]; rfl
  | some challenger =>
  cases hevidence : given payload.evidenceHash with
  | none => rw [handleInvalidate, htask, hchallenge, hchallenger, hevidence]; rfl
  | some evidenceHash =>
  cases hk : payload.newKResult with
  | none => rw [handleInvalidate, htask, hchallenge, hchallenger, hevidence, hk]; rfl
  | some newKResult =>
  have hrefused : proceeds (payload.slashedVerifiers.getD []) (payload.honestVerifiers.getD []) payload.attestationLog =
      false := by
    apply Bool.eq_false_iff.mpr
    intro hproceeds
    rw [InvalidatePayload.Slashes, htask, hchallenge, hchallenger, hevidence, hk] at h
    exact h ⟨nofun, nofun, nofun, nofun, nofun, hproceeds⟩
  rw [handleInvalidate_session htask hchallenge hchallenger hevidence hk]
  split
  next => rw [slashVerifiers_refused hrefused]
  next => rfl

/-- At any later point of a run a second delivery changes nothing exactly when the
envelope slashes nobody: an INVALIDATE that slashes writes new rows each time. -/
theorem second_invalidate_unchanged_iff (config : Config) (s₁ : Session Db) :
    ∀ s₂, Reaches env (Delivery.run config distributor) (fun _ _ => True) (handleInvalidate payload distributor env s₁).2 s₂ →
      s₂.held = false → s₂.db.slashEvents.get? (env.uuid4 s₂.draws) = none →
      s₂.db.operations.get? (env.uuid4 (s₂.draws + 1)) = none →
      ((handleInvalidate payload distributor env s₂).2.db.accounts = s₂.db.accounts ∧
        (handleInvalidate payload distributor env s₂).2.db.slashEvents = s₂.db.slashEvents ↔ ¬payload.Slashes) := by
  intro s₂ _ hfree hevent hop
  constructor
  · intro hsame hslashes
    have hhas : s₂.db.slashEvents.contains (env.uuid4 s₂.draws) = true := by
      rw [← hsame.2]
      exact handleInvalidate_slashes hslashes hfree hevent hop
    rw [Table.contains, hevent] at hhas
    cases hhas
  · intro hquiet
    rw [handleInvalidate_quiet hquiet]
    exact ⟨rfl, rfl⟩

end Deliver

end Slash

def sampleDistributor : PayoutDistributor := ⟨.empty, []⟩

/-- Alice is slashed for Bob's challenge; `log` is the proof for Carol. -/
def invalidateAlice (log : Option (List AttestRecord)) : InvalidatePayload :=
  ⟨some "task", some "challenge", some ["alice"], some ["carol"], log, some "bob", some "evidence", some 3⟩

def delivered (log : Option (List AttestRecord)) (s : Session Db) : Session Db :=
  (handleInvalidate (invalidateAlice log) sampleDistributor (countingEnv false) s).2

/-- Without an attestation log nobody is slashed, however often it comes. -/
theorem second_invalidate_unchanged_iff_no_log :
    (delivered none (delivered none sampleStake)).db.accounts = (delivered none sampleStake).db.accounts ∧
    (delivered none (delivered none sampleStake)).db.slashEvents = (delivered none sampleStake).db.slashEvents := by
  have hquiet : ¬(invalidateAlice none).Slashes := by
    intro h
    cases h.2.2.2.2.2
  have hlater : Reaches (countingEnv false) (Delivery.run sampleConfig sampleDistributor) (fun _ _ => True)
      (delivered none sampleStake) (delivered none sampleStake) := .start
  exact (second_invalidate_unchanged_iff sampleConfig sampleStake (delivered none sampleStake) hlater (by decide +kernel)
    (by decide +kernel) (by decide +kernel)).mpr hquiet

/-- Delivered twice, one challenge takes half of Alice's stake and then half of the
rest, and pays Bob and Carol twice. -/
theorem invalidate_slashes_twice :
    let proof := some [AttestRecord.mk (some "carol")]
    let once := delivered proof sampleStake
    let twice := delivered proof once
    (invalidateAlice proof).Slashes ∧
    (once.db.lockedOf "alice", CreditLedger.getBalance "bob" once.db, CreditLedger.getBalance "carol" once.db,
      once.db.slashEvents.entries.length) = (50, 25, 20, 1) ∧
    (twice.db.lockedOf "alice", CreditLedger.getBalance "bob" twice.db, CreditLedger.getBalance "carol" twice.db,
      twice.db.slashEvents.entries.length) = (25, 37, 30, 2) ∧
    twice.db.accounts ≠ once.db.accounts ∧ twice.db.slashEvents ≠ once.db.slashEvents := by
  refine ⟨⟨by decide, by decide, by decide, by decide, by decide, by decide⟩, by decide +kernel, by decide +kernel,
    by decide +kernel, by decide +kernel⟩

end Handlers

end AgentNetwork
