import AgentNetwork.Economics.Effects
import AgentNetwork.Economics.Locks
import AgentNetwork.Economics.Transactions
import AgentNetwork.Identity.Did
import AgentNetwork.Library.Traces

namespace AgentNetwork.Identity

open Relational Transactional Transactional.Prog Python SlidingWindow

/-- Nobody holds the lock and nothing is pending. -/
structure Quiescent (s : Session Db) : Prop where
  free : s.held = false
  clean : s.db = s.committed

/-- A stake has gone from the balance of the account to its locked credits, and
stands in an escrow of its own. -/
structure Staked (account key : String) (db db' : Db) : Prop where
  moved : ∃ a a', db.accounts.get? account = some a ∧ db'.accounts.get? account = some a' ∧
    a'.balance = a.balance - minDidStake ∧ a'.locked = a.locked + minDidStake
  others : ∀ b, b ≠ account → db'.accounts.get? b = db.accounts.get? b
  fresh : db.escrows.get? key = none
  held : ∃ e, db'.escrows.get? key = some e ∧ e.accountId = account ∧ e.amount = minDidStake ∧ e.released = false
  kept : ∀ j, j ≠ key → db'.escrows.get? j = db.escrows.get? j

/-- No key is given, or one of 32 bytes. -/
def CreateCall.ProperKey (call : CreateCall) : Prop := ∀ key, call.ed25519Key = some key → key ≠ [] → key.length = 32

namespace DIDManager

section Stake

variable {env : Env} {s s' : Session Db} {account : String} {now : ℚ}

theorem escrow_stakes {key : String} {u : Unit} (h : CreditLedger.escrow account minDidStake key env s = (.returns u, s')) :
    Staked account key s.db s'.db := by
  simp [CreditLedger.escrow, validateAccountId, validateAmount, recordOperation_returns] at h
  obtain ⟨_, hpos, _, d₁, d₂, d₃, ⟨hbalance, hd₁, hd₂, hd₃⟩, rfl⟩ := h
  obtain ⟨hnone, _⟩ | ⟨a, a', ha, hb, hl, _, rfl⟩ := updateAccount_ok.mp hd₁
  · have hzero : CreditLedger.getBalance account s.db = 0 := by simp [CreditLedger.getBalance, hnone]
    omega
  · obtain ⟨fresh, rfl⟩ := insertRow_ok.mp hd₂
    obtain ⟨_, rfl⟩ := insertRow_ok.mp hd₃
    refine ⟨⟨a, a', ha, ?_, ?_, hl⟩, ?_, fresh, ?_, ?_⟩
    · simp [ha]
    · rw [hb]
      ring
    · intro b hne
      simp [hne]
    · exact ⟨_, (Table.get?_insert fresh key).trans (if_pos rfl), rfl, rfl, rfl⟩
    · intro j hne
      simp [hne]

theorem atomic_requireStake : Atomic (requireStake account now) :=
  .bind_readOnly (ReadOnly.query _) fun _ => .bind_readOnly (ReadOnly.raiseIf _ _) fun _ =>
    (CreditLedger.atomic_escrow _ _ _).mapError _

theorem lockSafe_requireStake : LockSafe (requireStake account now) :=
  (Quiet.query _).lockSafe.bind fun _ => (Quiet.raiseIf _ _).lockSafe.bind fun _ =>
    (CreditLedger.lockSafe_escrow _ _ _).mapError _

theorem requireStake_stakes {u : Unit} (h : requireStake account now env s = (.returns u, s')) :
    Staked account (stakeId account now) s.db s'.db := by
  unfold requireStake at h
  obtain ⟨_, s₁, hquery, hrest⟩ := bind_returns.mp h
  obtain ⟨_, hsame⟩ := Prod.mk.inj hquery
  obtain ⟨_, s₂, hcheck, hescrow⟩ := bind_returns.mp hrest
  obtain ⟨_, hunchanged⟩ := raiseIf_returns.mp hcheck
  rw [hsame, ← hunchanged]
  exact escrow_stakes (mapError_returns.mp hescrow)

end Stake

section Manager

variable {p : Primitives} {env : Env} {call : CreateCall} {m m' : DIDManager} {s s' : Session Db}

theorem timestampsOf_upsert {account : String} {times : List ℚ}
    (h : m'.creationTimestamps = m.creationTimestamps.upsert account times) (b : String) :
    m'.timestampsOf b = if b = account then times else m.timestampsOf b := by
  unfold timestampsOf
  rw [h, Table.get?_upsert]
  split <;> rfl

/-- Only the counts of creations may differ, and of those only what is too old for
any later check. -/
structure SameButOld (from_ : ℚ) (m m' : DIDManager) : Prop where
  didCache : m'.didCache = m.didCache
  signingKeys : m'.signingKeys = m.signingKeys
  hasLedger : m'.hasLedger = m.hasLedger
  rateLimitPerHour : m'.rateLimitPerHour = m.rateLimitPerHour
  counted : ∀ account now, from_ ≤ now → recent 3600 now (m'.timestampsOf account) = recent 3600 now (m.timestampsOf account)

theorem SameButOld.refl (t : ℚ) (m : DIDManager) : SameButOld t m m := ⟨rfl, rfl, rfl, rfl, fun _ _ _ => rfl⟩

/-- The check of the rate limit drops old creations only. -/
theorem checkRateLimit_same (account : String) (now : ℚ) (m : DIDManager) :
    SameButOld now m (m.checkRateLimit account now).2 := by
  have hsame : SameButOld now m
      { m with creationTimestamps := m.creationTimestamps.upsert account (recent 3600 now (m.timestampsOf account)) } := by
    refine ⟨rfl, rfl, rfl, rfl, ?_⟩
    intro b later hlater
    rw [@timestampsOf_upsert m _ account _ rfl]
    split
    next hb => rw [hb, recent_recent hlater]
    next => rfl
  unfold checkRateLimit
  dsimp only
  split
  · exact hsame
  · exact hsame

theorem limited_same (call : CreateCall) (m : DIDManager) : SameButOld call.readings.checked m (m.limited call).2 := by
  unfold limited
  split
  · exact SameButOld.refl _ _
  · split
    · exact checkRateLimit_same _ _ _
    · exact SameButOld.refl _ _

/-- What passes the check is within the limit. -/
theorem limited_below {account : String} (haccount : givenAccount call.accountId = some account)
    (hlimit : 0 < m.rateLimitPerHour) (h : (m.limited call).1 = .ok ()) :
    ((recent 3600 call.readings.checked (m.timestampsOf account)).length : Int) < m.rateLimitPerHour := by
  unfold limited checkRateLimit at h
  rw [haccount] at h
  dsimp only at h
  rw [if_pos hlimit] at h
  by_contra hmany
  rw [if_pos (not_lt.mp hmany)] at h
  cases h

/-- A registration counts one more creation. -/
theorem register_timestampsOf {account : String} (haccount : givenAccount call.accountId = some account) (seed : List UInt8)
    (b : String) : (m.register p call seed).2.timestampsOf b =
      if b = account then m.timestampsOf account ++ [call.readings.created] else m.timestampsOf b := by
  refine timestampsOf_upsert ?_ b
  unfold register
  rw [haccount]

/-- How a creation that returns came about. -/
theorem createDidKey_returns {did : String} (hledger : m.hasLedger = true)
    (h : createDidKey p env call m s = (.returns did, m', s')) :
    ∃ account seed m₁, givenAccount call.accountId = some account ∧ m.limited call = (.ok (), m₁) ∧
      requireStake account call.readings.staked env s = (.returns (), s') ∧ (did, m') = m₁.register p call seed := by
  unfold createDidKey at h
  cases hlimited : m.limited call with
  | mk checked m₁ =>
    rw [hlimited] at h
    cases checked with
    | error e => cases h
    | ok u =>
      have hledger₁ : m₁.hasLedger = true := by
        have hsame := (limited_same call m).hasLedger
        rw [hlimited] at hsame
        exact hsame.trans hledger
      dsimp only at h
      rw [resist, if_pos hledger₁] at h
      cases haccount : givenAccount call.accountId with
      | none =>
        rw [haccount] at h
        cases h
      | some account =>
        rw [haccount] at h
        dsimp only at h
        cases hstake : requireStake account call.readings.staked env s with
        | mk out s₁ =>
          rw [hstake] at h
          cases out with
          | raises e => cases h
          | blocks => cases h
          | returns u =>
            dsimp only at h
            cases hkey : chooseKey call with
            | error e =>
              rw [hkey] at h
              cases h
            | ok seed =>
              rw [hkey] at h
              cases h
              exact ⟨account, seed, m₁, rfl, rfl, hstake, rfl⟩

theorem chooseKey_ok (h : call.ProperKey) : ∃ seed, chooseKey call = .ok seed := by
  unfold chooseKey
  cases hkey : call.ed25519Key with
  | none => exact ⟨_, rfl⟩
  | some key =>
    by_cases hempty : key = []
    · rw [hempty]
      exact ⟨call.generated, rfl⟩
    · have hfilter : (some key).filter (· ≠ []) = some key := by simp [Option.filter, hempty]
      rw [hfilter]
      exact ⟨key, if_pos (h key hkey hempty)⟩

/-- How a creation that raises came about: before the stake or after it. -/
theorem createDidKey_raises {e : ValueError} (h : createDidKey p env call m s = (.raises e, m', s')) :
    m' = (m.limited call).2 ∧ (s' = s ∨ (∃ e', resist p call m' env s = (.raises e', s')) ∨
      ∃ u e', resist p call m' env s = (.returns u, s') ∧ chooseKey call = .error e') := by
  unfold createDidKey at h
  cases hlimited : m.limited call with
  | mk checked m₁ =>
    rw [hlimited] at h
    cases checked with
    | error e =>
      cases h
      exact ⟨rfl, .inl rfl⟩
    | ok u =>
      dsimp only at h
      cases hresist : resist p call m₁ env s with
      | mk out s₁ =>
        rw [hresist] at h
        cases out with
        | raises e =>
          cases h
          exact ⟨rfl, .inr (.inl ⟨_, hresist⟩)⟩
        | blocks => cases h
        | returns u =>
          dsimp only at h
          cases hkey : chooseKey call with
          | error e =>
            rw [hkey] at h
            cases h
            exact ⟨rfl, .inr (.inr ⟨u, e, hresist, rfl⟩)⟩
          | ok seed =>
            rw [hkey] at h
            cases h

theorem atomic_resist : Atomic (resist p call m) := by
  unfold resist
  split
  · split
    · exact (ReadOnly.raise _).atomic
    · exact atomic_requireStake
  · split
    · exact (ReadOnly.pure _).atomic
    · exact (ReadOnly.raise _).atomic

/-- A creation that raises leaves nothing pending, even where it has taken the stake. -/
theorem createDidKey_settles {I : Db → Prop} (hI : ∀ m, Preserves I (resist p call m)) {e : ValueError} (hs : Settled I s)
    (h : createDidKey p env call m s = (.raises e, m', s')) : Settled I s' := by
  have hresist := Secures.transaction (@atomic_resist p call m') (hI m')
  obtain ⟨_, hsame | ⟨_, hrun⟩ | ⟨_, _, hrun, _⟩⟩ := createDidKey_raises h
  · rw [hsame]
    exact hs
  · exact hresist env s _ s' hs hrun nofun
  · exact hresist env s _ s' hs hrun nofun

/-- A proper key fails no creation: what raises, raises before the stake. -/
theorem createDidKey_undone {e : ValueError} (hkey : call.ProperKey) (hs : Quiescent s)
    (h : createDidKey p env call m s = (.raises e, m', s')) : s'.db = s.db ∧ s'.committed = s.committed := by
  obtain ⟨_, hsame | ⟨_, hresist⟩ | ⟨_, _, _, hbad⟩⟩ := createDidKey_raises h
  · rw [hsame]
    exact ⟨rfl, rfl⟩
  · exact atomic_resist.raised hs.clean hresist
  · obtain ⟨seed, hseed⟩ := chooseKey_ok hkey
    cases hseed.symm.trans hbad

theorem lockSafe_resist : LockSafe (resist p call m) := by
  unfold resist
  split
  · split
    · exact (Quiet.raise _).lockSafe
    · exact lockSafe_requireStake
  · split
    · exact (Quiet.pure _).lockSafe
    · exact (Quiet.raise _).lockSafe

/-- A creation that finds the lock free comes to its end and leaves it free. -/
theorem createDidKey_ends (hs : s.held = false) :
    (createDidKey p env call m s).1 ≠ .blocks ∧ (createDidKey p env call m s).2.2.held = false := by
  unfold createDidKey
  split
  next => exact ⟨by simp, hs⟩
  next m₁ _ =>
    have hends := @lockSafe_resist p call m₁ env s hs
    rw [EndsFree] at hends
    cases hrun : resist p call m₁ env s with
    | mk out s₁ =>
      rw [hrun] at hends
      cases out with
      | raises e => exact ⟨by simp, hends.2⟩
      | blocks => exact absurd rfl hends.1
      | returns u =>
        dsimp only
        split
        · exact ⟨by simp, hends.2⟩
        · exact ⟨by simp, hends.2⟩

end Manager

end DIDManager

open DIDManager

/-- One stake is locked in an escrow of its own and one more creation is counted. -/
structure Created (call : CreateCall) (m m' : DIDManager) (s s' : Session Db) : Prop where
  staked : ∃ account, givenAccount call.accountId = some account ∧
    Staked account (stakeId account call.readings.staked) s.db s'.db ∧
    ∀ b, (recent 3600 call.readings.created (m'.timestampsOf b)).length =
      (recent 3600 call.readings.created (m.timestampsOf b)).length + if b = account then 1 else 0
  quiescent : Quiescent s'

/-- The ledger, the keys, the documents and the counts are as they were. -/
structure Refused (call : CreateCall) (m m' : DIDManager) (s s' : Session Db) : Prop where
  ledger : s'.db = s.db ∧ s'.committed = s.committed
  manager : SameButOld call.readings.checked m m'
  quiescent : Quiescent s'

/-- The readings of a clock that does not go back. -/
structure Readings.InOrder (r : Readings) (now : ℚ) : Prop where
  checked : now ≤ r.checked
  staked : r.checked ≤ r.staked
  created : r.staked ≤ r.created

section Outcome

variable {p : Primitives} {env : Env} {call : CreateCall} {m m' : DIDManager} {s s' : Session Db} {now : ℚ}

theorem recent_created (now : ℚ) : recent 3600 now [now] = [now] := by
  have hin : now - 3600 < now := sub_lt_self now (by norm_num)
  simp [recent, hin]

theorem created_of_returns {did : String} (hledger : m.hasLedger = true) (hs : Quiescent s)
    (hclock : call.readings.InOrder now) (h : createDidKey p env call m s = (.returns did, m', s')) :
    Created call m m' s s' := by
  obtain ⟨account, seed, m₁, haccount, hlimited, hstake, hregister⟩ := createDidKey_returns hledger h
  have hsame := limited_same call m
  rw [hlimited] at hsame
  have hlater := hclock.staked.trans hclock.created
  refine ⟨⟨account, haccount, requireStake_stakes hstake, ?_⟩, ?_, atomic_requireStake.clean hs.clean hstake⟩
  · intro b
    have hm' : m' = (m₁.register p call seed).2 := congrArg Prod.snd hregister
    rw [hm', register_timestampsOf haccount, ← hsame.counted b _ hlater]
    split
    next hb => rw [hb, recent_append, recent_created, List.length_append, List.length_singleton]
    next => rfl
  · have hends := (@createDidKey_ends p env call m s hs.free).2
    rw [h] at hends
    exact hends

theorem refused_of_raises {e : ValueError} (hkey : call.ProperKey) (hs : Quiescent s)
    (h : createDidKey p env call m s = (.raises e, m', s')) : Refused call m m' s s' := by
  obtain ⟨hdb, hcommitted⟩ := createDidKey_undone hkey hs h
  have hends := (@createDidKey_ends p env call m s hs.free).2
  rw [h] at hends
  refine ⟨⟨hdb, hcommitted⟩, ?_, hends, ?_⟩
  · rw [(createDidKey_raises h).1]
    exact limited_same call m
  · rw [hdb, hcommitted]
    exact hs.clean

end Outcome

end AgentNetwork.Identity
