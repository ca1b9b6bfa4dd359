import AgentNetwork.Economics.EscrowFrames
import AgentNetwork.Economics.Solvency
import AgentNetwork.Identity.Stakes

namespace AgentNetwork.Identity

open Relational Transactional Transactional.Prog Python SlidingWindow Transition DIDManager

/-- An escrow of one stake from this account, released or not. -/
def HoldsStake (key account : String) (db : Db) : Prop :=
  ∃ e, db.escrows.get? key = some e ∧ e.accountId = account ∧ e.amount = minDidStake

section Holds

variable {key account : String}

theorem onEscrows_holdsStake : OnEscrows (HoldsStake key account) := by
  intro db db' hsame hheld
  unfold HoldsStake
  rw [hsame]
  exact hheld

theorem insertEscrow_holdsStake (k : String) (row : Escrow) (db db' : Db) (h : insertEscrow k row db = .ok db')
    (hheld : HoldsStake key account db) : HoldsStake key account db' := by
  obtain ⟨fresh, rfl⟩ := insertRow_ok.mp h
  obtain ⟨e, hget, he⟩ := hheld
  have hne : key ≠ k := by
    rintro rfl
    cases hget.symm.trans fresh
  refine ⟨e, ?_, he⟩
  simp [hne, hget]

theorem markReleased_holdsStake (k t : String) (db db' : Db) (h : markReleased k t db = .ok db')
    (hheld : HoldsStake key account db) : HoldsStake key account db' := by
  cases Except.ok.inj h
  obtain ⟨e, hget, haccount, hamount⟩ := hheld
  by_cases hk : key = k
  · refine ⟨{ e with released := true, releasedTo := some t }, ?_, haccount, hamount⟩
    rw [Table.get?_modify, if_pos hk, ← hk, hget]
    rfl
  · exact ⟨e, by rw [Table.get?_modify, if_neg hk]; exact hget, haccount, hamount⟩

/-- No transaction on the ledger takes out the row of an escrow. -/
theorem preserves_holdsStake (config : Config) {c : Call} (h : c.isTransaction) :
    Preserves (HoldsStake key account) (c.run config) := by
  have hI : OnEscrows (HoldsStake key account) := onEscrows_holdsStake
  have hreading : ∀ {α : Type} {f : Db → α}, Preserves (HoldsStake key account) (forEffect (query f)) :=
    .readOnly (readOnly_forEffect (ReadOnly.query _))
  cases c with
  | createAccount a n minter => exact hI.createAccount a n minter
  | getBalance a => exact hreading
  | getAccount a => exact hreading
  | getTotalSupply => exact .bind (.withLock (.readOnly (ReadOnly.query _))) fun _ => .readOnly (ReadOnly.pure _)
  | transfer f t n allow => exact .bind (hI.transfer f t n allow) fun _ => .readOnly (ReadOnly.pure _)
  | escrow a n k => exact hI.escrow a n k (insertEscrow_holdsStake k)
  | releaseEscrow k t => exact hI.releaseEscrow k t fun k _ => markReleased_holdsStake k t
  | cancelEscrow k => exact hI.cancelEscrow k fun k _ => markReleased_holdsStake k
  | getAuditTrail a limit => exact .readOnly (readOnly_attempt _)
  | stake a n => exact hI.stake a n
  | unstake a n => exact .bind (hI.unstake _ a n) fun _ => .readOnly (ReadOnly.pure _)
  | completeUnbonding a => exact .bind (hI.completeUnbonding a) fun _ => .readOnly (ReadOnly.pure _)
  | getStakedAmount a => exact hreading
  | getUnbondingAmount a => exact hreading
  | getUnbondingRecords a includeCompleted => exact hreading
  | executeSlash event => exact hI.executeSlash event
  | _ => simp [Call.isTransaction, Call.component] at h

theorem Staked.holds {db db' : Db} (h : Staked account key db db') : HoldsStake key account db' := by
  obtain ⟨e, hget, haccount, hamount, _⟩ := h.held
  exact ⟨e, hget, haccount, hamount⟩

theorem Staked.keeps {db db' : Db} {account' key' : String} (h : Staked account' key' db db')
    (hheld : HoldsStake key account db) : HoldsStake key account db' := by
  obtain ⟨e, hget, he⟩ := hheld
  have hne : key ≠ key' := by
    rintro rfl
    cases hget.symm.trans h.fresh
  exact ⟨e, (h.kept key hne).trans hget, he⟩

theorem preserves_resist (p : Primitives) (call : CreateCall) (m : DIDManager) :
    Preserves (HoldsStake key account) (resist p call m) := by
  unfold resist
  split
  · split
    · exact .readOnly (ReadOnly.raise _)
    · exact fun _ _ _ _ hheld h => (requireStake_stakes h).keeps hheld
  · split
    · exact .readOnly (ReadOnly.pure _)
    · exact .readOnly (ReadOnly.raise _)

end Holds

/-- A call that returned a DID. -/
structure Creation where
  call : CreateCall
  did : String

/-- The id of the escrow that holds the stake. -/
def Creation.escrowId (c : Creation) : String := stakeId (c.call.accountId.getD "") c.call.readings.staked

/-- When this account created DIDs. -/
def timesOf (account : String) (creations : List Creation) : List ℚ :=
  (creations.filter fun c => c.call.accountId = some account).map fun c => c.call.readings.created

/-- A manager and its ledger, the last reading of the clock, and the creations so far. -/
structure DidHistory where
  manager : DIDManager
  ledger : Session Db
  now : ℚ
  creations : List Creation

/-- What may happen: a creation, or another call on the ledger. -/
inductive DidAction
  | create (call : CreateCall)
  | ledger (c : Call)

def DidHistory.create (p : Primitives) (env : Env) (call : CreateCall) (h : DidHistory) : DidHistory :=
  match createDidKey p env call h.manager h.ledger with
  | (.returns did, m, s) => ⟨m, s, call.readings.created, h.creations ++ [⟨call, did⟩]⟩
  | (_, m, s) => ⟨m, s, call.readings.created, h.creations⟩

inductive DidStep (p : Primitives) (env : Env) (config : Config) : DidHistory → DidAction → DidHistory → Prop
  | create {h : DidHistory} {call : CreateCall} : DidStep p env config h (.create call) (h.create p env call)
  | ledger {h : DidHistory} {c : Call} {out : Outcome LedgerError Unit} {s : Session Db} :
      c.run config env h.ledger = (out, s) → out ≠ .blocks → DidStep p env config h (.ledger c) { h with ledger := s }

/-- The clock does not go back; on the ledger there are transactions. -/
def DidHistory.Allows (h : DidHistory) : DidAction → Prop
  | .create call => call.readings.InOrder h.now
  | .ledger c => c.isTransaction

/-- Before the first creation that counts. -/
structure DidHistory.Fresh (h : DidHistory) : Prop where
  hasLedger : h.manager.hasLedger = true
  quiescent : Quiescent h.ledger
  creations : h.creations = []

/-- The creations are within the limit, no more than the manager has counted, and each
has its own stake. -/
structure DidHistory.Accounted (h : DidHistory) : Prop where
  hasLedger : h.manager.hasLedger = true
  quiescent : Quiescent h.ledger
  separate : (h.creations.map Creation.escrowId).Nodup
  held : ∀ c ∈ h.creations, ∃ account, c.call.accountId = some account ∧ HoldsStake c.escrowId account h.ledger.db
  admitted : 0 < h.manager.rateLimitPerHour → ∀ account,
    Admitted 3600 h.manager.rateLimitPerHour.toNat (timesOf account h.creations)
  counted : ∀ account now, h.now ≤ now →
    (recent 3600 now (timesOf account h.creations)).length ≤ (recent 3600 now (h.manager.timestampsOf account)).length

section Steps

variable {p : Primitives} {env : Env} {config : Config} {h : DidHistory} {call : CreateCall}

theorem DidHistory.Fresh.accounted (fresh : h.Fresh) : h.Accounted := by
  refine ⟨fresh.hasLedger, fresh.quiescent, ?_, ?_, ?_, ?_⟩
  · rw [fresh.creations]
    exact List.nodup_nil
  · rw [fresh.creations]
    exact List.forall_mem_nil _
  · rw [fresh.creations]
    exact fun _ _ => .nil
  · rw [fresh.creations]
    exact fun _ _ _ => Nat.zero_le _

theorem timesOf_snoc (account did : String) (creations : List Creation) (call : CreateCall) :
    timesOf account (creations ++ [⟨call, did⟩]) =
      if call.accountId = some account then timesOf account creations ++ [call.readings.created]
      else timesOf account creations := by
  unfold timesOf
  rw [List.filter_append, List.map_append]
  by_cases hsame : call.accountId = some account
  · simp [hsame]
  · simp [hsame]

theorem givenAccount_some {accountId : Option String} {account : String} (h : givenAccount accountId = some account) :
    accountId = some account := (Option.filter_eq_some_iff.mp h).1

/-- A creation that returns adds its stake and its time. -/
theorem DidHistory.Accounted.created (hinv : h.Accounted) (hclock : call.readings.InOrder h.now) {did : String}
    {m : DIDManager} {s : Session Db} (hrun : createDidKey p env call h.manager h.ledger = (.returns did, m, s)) :
    DidHistory.Accounted ⟨m, s, call.readings.created, h.creations ++ [⟨call, did⟩]⟩ := by
  obtain ⟨account, seed, m₁, hgiven, hlimited, hstake, hregister⟩ := createDidKey_returns hinv.hasLedger hrun
  have hsame := limited_same call h.manager
  rw [hlimited] at hsame
  have hm : m = (m₁.register p call seed).2 := congrArg Prod.snd hregister
  have hlimit : m.rateLimitPerHour = h.manager.rateLimitPerHour := by rw [hm]; exact hsame.rateLimitPerHour
  have hid : call.accountId = some account := givenAccount_some hgiven
  have hstaked := requireStake_stakes hstake
  have hkey : Creation.escrowId ⟨call, did⟩ = stakeId account call.readings.staked := by rw [Creation.escrowId, hid]; rfl
  have htimes : ∀ b, timesOf b (h.creations ++ [⟨call, did⟩]) =
      if b = account then timesOf b h.creations ++ [call.readings.created] else timesOf b h.creations := by
    intro b
    rw [timesOf_snoc, hid]
    simp only [Option.some.injEq, eq_comm]
  have hlater := hclock.staked.trans hclock.created
  refine ⟨?_, ?_, ?_, ?_, ?_, ?_⟩
  · rw [hm]
    exact hsame.hasLedger.trans hinv.hasLedger
  · exact (created_of_returns hinv.hasLedger hinv.quiescent hclock hrun).quiescent
  · rw [List.map_append, List.map_singleton]
    refine List.nodup_append'.mpr ⟨hinv.separate, List.nodup_singleton _, ?_⟩
    intro key hold hnew
    obtain ⟨c, hc, hckey⟩ := List.mem_map.mp hold
    obtain ⟨_, _, e, hget, _⟩ := hinv.held c hc
    rw [hckey, List.mem_singleton.mp hnew, hkey, hstaked.fresh] at hget
    cases hget
  · intro c hc
    obtain hold | hnew := List.mem_append.mp hc
    · obtain ⟨owner, howner, hheld⟩ := hinv.held c hold
      exact ⟨owner, howner, hstaked.keeps hheld⟩
    · rw [List.mem_singleton.mp hnew]
      refine ⟨account, hid, ?_⟩
      rw [hkey]
      exact hstaked.holds
  · intro hpos b
    rw [hlimit] at hpos ⊢
    rw [htimes]
    split
    next hb =>
      refine (hinv.admitted hpos b).snoc hlater ?_
      have hfew := limited_below hgiven hpos (by rw [hlimited])
      have hcounted := hinv.counted b call.readings.checked hclock.checked
      rw [hb] at hcounted ⊢
      omega
    next => exact hinv.admitted hpos b
  · intro b now hnow
    have hafter := hinv.counted b now (hclock.checked.trans (hlater.trans hnow))
    rw [htimes, hm, register_timestampsOf hgiven]
    rw [← hsame.counted b now (hlater.trans hnow)] at hafter
    split
    next hb =>
      rw [hb] at hafter ⊢
      rw [recent_append, recent_append, List.length_append, List.length_append]
      exact Nat.add_le_add_right hafter _
    next => exact hafter

/-- A creation that raises, for whatever reason, adds nothing and takes nothing out. -/
theorem DidHistory.Accounted.raised (hinv : h.Accounted) (hclock : call.readings.InOrder h.now) {e : ValueError}
    {m : DIDManager} {s : Session Db} (hrun : createDidKey p env call h.manager h.ledger = (.raises e, m, s)) :
    DidHistory.Accounted ⟨m, s, call.readings.created, h.creations⟩ := by
  obtain ⟨hm, hledger⟩ := createDidKey_raises hrun
  have hsame := limited_same call h.manager
  rw [← hm] at hsame
  have hlater := hclock.staked.trans hclock.created
  have hclean := createDidKey_settles (I := fun _ => True) (fun _ _ _ _ _ _ _ => trivial) ⟨hinv.quiescent.clean, trivial⟩ hrun
  have hends := (@createDidKey_ends p env call h.manager h.ledger hinv.quiescent.free).2
  rw [hrun] at hends
  refine ⟨hsame.hasLedger.trans hinv.hasLedger, ⟨hends, hclean.1⟩, hinv.separate, ?_, ?_, ?_⟩
  · intro c hc
    obtain ⟨account, hid, hheld⟩ := hinv.held c hc
    exact ⟨account, hid, (createDidKey_settles (preserves_resist p call) ⟨hinv.quiescent.clean, hheld⟩ hrun).2⟩
  · intro hpos b
    rw [hsame.rateLimitPerHour] at hpos ⊢
    exact hinv.admitted hpos b
  · intro b now hnow
    rw [hsame.counted b now (hlater.trans hnow)]
    exact hinv.counted b now (hclock.checked.trans (hlater.trans hnow))

/-- Other calls on the ledger keep the stakes. -/
theorem DidHistory.Accounted.ledger (hinv : h.Accounted) {c : Call} (hc : c.isTransaction) {out : Outcome LedgerError Unit}
    {s : Session Db} (hrun : c.run config env h.ledger = (out, s)) (hout : out ≠ .blocks) :
    DidHistory.Accounted { h with ledger := s } := by
  have hatomic := Call.atomic_of_isTransaction config hc
  have hkept : ∀ {I : Db → Prop}, Preserves I (c.run config) → I h.ledger.db → Settled I s := fun hI hdb =>
    Secures.transaction hatomic hI env h.ledger out s ⟨hinv.quiescent.clean, hdb⟩ hrun hout
  have hclean := hkept (I := fun _ => True) (fun _ _ _ _ _ _ => trivial) trivial
  have hends := (lockSafe_of_isTransaction config hc env h.ledger hinv.quiescent.free).2
  rw [hrun] at hends
  refine ⟨hinv.hasLedger, ⟨hends, hclean.1⟩, hinv.separate, ?_, hinv.admitted, hinv.counted⟩
  intro creation hcreation
  obtain ⟨account, hid, hheld⟩ := hinv.held creation hcreation
  exact ⟨account, hid, (hkept (preserves_holdsStake config hc) hheld).2⟩

theorem DidHistory.Accounted.step (hinv : h.Accounted) {a : DidAction} (hok : h.Allows a) {h' : DidHistory}
    (hstep : DidStep p env config h a h') : h'.Accounted := by
  cases hstep with
  | @create call =>
    have hends := (@createDidKey_ends p env call h.manager h.ledger hinv.quiescent.free).1
    unfold DidHistory.create
    split
    next did m s hrun => exact hinv.created hok hrun
    next out m s hreturns hrun =>
      cases out with
      | returns did => exact absurd rfl (hreturns did)
      | blocks =>
        rw [hrun] at hends
        exact absurd rfl hends
      | raises e => exact hinv.raised hok hrun
  | ledger hrun hout => exact hinv.ledger hok hrun hout

/-- Whatever the history, a creation with a proper key takes exactly one stake or
changes nothing. -/
theorem creation_exact (hledger : h.manager.hasLedger = true) (hquiescent : Quiescent h.ledger) (hkey : call.ProperKey)
    (hclock : call.readings.InOrder h.now) :
    (∃ did m s, createDidKey p env call h.manager h.ledger = (.returns did, m, s) ∧ Created call h.manager m h.ledger s) ∨
      ∃ e m s, createDidKey p env call h.manager h.ledger = (.raises e, m, s) ∧ Refused call h.manager m h.ledger s := by
  have hends := (@createDidKey_ends p env call h.manager h.ledger hquiescent.free).1
  rcases hrun : createDidKey p env call h.manager h.ledger with ⟨out, m, s⟩
  cases out with
  | returns did => exact .inl ⟨did, m, s, rfl, created_of_returns hledger hquiescent hclock hrun⟩
  | raises e => exact .inr ⟨e, m, s, rfl, refused_of_raises hkey hquiescent hrun⟩
  | blocks =>
    rw [hrun] at hends
    exact absurd rfl hends

end Steps

/-- In every history of creations and other transactions on the ledger: a creation with a
proper key takes one stake and counts or changes nothing; an account has no more creations
than the limit in an hour; each creation has a stake of its own. -/
theorem createDidKey_costs_one_stake (p : Primitives) (env : Env) (config : Config) {start h : DidHistory}
    (fresh : start.Fresh) (hrun : Visits (DidStep p env config) DidHistory.Allows start h) :
    (∀ call : CreateCall, call.ProperKey → call.readings.InOrder h.now →
      (∃ did m s, createDidKey p env call h.manager h.ledger = (.returns did, m, s) ∧ Created call h.manager m h.ledger s) ∨
        ∃ e m s, createDidKey p env call h.manager h.ledger = (.raises e, m, s) ∧ Refused call h.manager m h.ledger s) ∧
    (0 < h.manager.rateLimitPerHour → ∀ account from_,
      (((timesOf account h.creations).filter fun t => from_ ≤ t ∧ t < from_ + 3600).length : Int) ≤ h.manager.rateLimitPerHour ∧
        (((timesOf account h.creations).filter fun t => from_ < t ∧ t ≤ from_ + 3600).length : Int) ≤ h.manager.rateLimitPerHour) ∧
    (h.creations.map Creation.escrowId).Nodup ∧
    ∀ c ∈ h.creations, ∃ account, c.call.accountId = some account ∧ HoldsStake c.escrowId account h.ledger.db := by
  have hinv := hrun.invariant fresh.accounted fun hinv hok hstep => hinv.step hok hstep
  refine ⟨?_, ?_, hinv.separate, hinv.held⟩
  · intro call hkey hclock
    exact creation_exact hinv.hasLedger hinv.quiescent hkey hclock
  · intro hpos account from_
    have hadmitted := hinv.admitted hpos account
    exact ⟨Int.le_toNat hpos.le |>.mp (hadmitted.length_Ico_le from_), Int.le_toNat hpos.le |>.mp (hadmitted.length_Ioc_le from_)⟩

/-- Keys, hashes and clock readings for concrete runs. -/
def samplePrimitives : Primitives := ⟨id, fun bytes => String.ofList (List.replicate bytes.length 'k'), fun _ => [], fun _ => ""⟩

/-- Alice has 5000 credits. -/
def sampleLedger : Session Db :=
  runAll (countingEnv false) (Call.run sampleConfig) [.createAccount "alice" 5000 none] Session.empty

def sampleManager (rateLimitPerHour : Int) : DIDManager := ⟨.empty, .empty, true, 20, rateLimitPerHour, .empty⟩

def sampleHistory (rateLimitPerHour : Int) : DidHistory := ⟨sampleManager rateLimitPerHour, sampleLedger, 0, []⟩

/-- Alice asks for a DID at a time; a new key is generated unless she gives one. -/
def sampleCall (key : Option (List UInt8)) (t : ℚ) : CreateCall := ⟨key, some "alice", List.replicate 32 7, ⟨t, t, t⟩⟩

/-- Alice asks at these times, with this limit. -/
def sampleRun (rateLimitPerHour : Int) (times : List ℚ) : DidHistory :=
  times.foldl (fun h t => h.create samplePrimitives (countingEnv false) (sampleCall none t)) (sampleHistory rateLimitPerHour)

theorem sampleHistory_fresh (rateLimitPerHour : Int) : (sampleHistory rateLimitPerHour).Fresh :=
  ⟨rfl, ⟨rfl, rfl⟩, rfl⟩

theorem createDidKey_costs_one_stake_sample :
    (sampleRun 1 [10]).creations.length = 1 ∧
      HoldsStake "did_stake_alice_10000" "alice" (sampleRun 1 [10]).ledger.db ∧
      (((timesOf "alice" (sampleRun 1 [10]).creations).filter fun t => 10 ≤ t ∧ t < 10 + 3600).length : Int) ≤ 1 := by
  have hclock : (sampleCall none 10).readings.InOrder 0 := ⟨by decide +kernel, le_rfl, le_rfl⟩
  have hvisits : Visits (DidStep samplePrimitives (countingEnv false) sampleConfig) DidHistory.Allows (sampleHistory 1)
      (sampleRun 1 [10]) := .next .start (a := .create (sampleCall none 10)) hclock .create
  obtain ⟨_, hlimit, _, hheld⟩ := createDidKey_costs_one_stake _ _ _ (sampleHistory_fresh 1) hvisits
  have hone : (sampleRun 1 [10]).creations.length = 1 := by decide +kernel
  have hrate : (sampleRun 1 [10]).manager.rateLimitPerHour = 1 := by decide +kernel
  have hids : (sampleRun 1 [10]).creations.map (fun c => (c.escrowId, c.call.accountId)) =
      [("did_stake_alice_10000", some "alice")] := by decide +kernel
  have hcreated : ∃ c ∈ (sampleRun 1 [10]).creations, (c.escrowId, c.call.accountId) = ("did_stake_alice_10000", some "alice") := by
    rw [← List.mem_map, hids]
    exact List.mem_singleton_self _
  obtain ⟨c, hc, hcreated⟩ := hcreated
  obtain ⟨hkey, halice⟩ := Prod.mk.inj hcreated
  obtain ⟨account, haccount, hstake⟩ := hheld c hc
  cases haccount.symm.trans halice
  rw [hkey] at hstake
  rw [hrate] at hlimit
  exact ⟨hone, hstake, (hlimit Int.one_pos "alice" 10).1⟩

/-- A key of 16 bytes costs Alice a stake without a DID; a limit of zero is no limit; two
creations lie one hour apart with a limit of one; and three lie within two minutes with a
limit of two once the clock is set back. -/
theorem createDidKey_loses_stake :
    ((createDidKey samplePrimitives (countingEnv false) (sampleCall (some (List.replicate 16 7)) 10) (sampleManager 10)
        sampleLedger).1 = .raises ⟨"The seed must be exactly 32 bytes long"⟩ ∧
      CreditLedger.getBalance "alice" sampleLedger.db = 5000 ∧
      CreditLedger.getBalance "alice" (createDidKey samplePrimitives (countingEnv false)
        (sampleCall (some (List.replicate 16 7)) 10) (sampleManager 10) sampleLedger).2.2.db = 4000) ∧
    timesOf "alice" (sampleRun 0 [10]).creations = [10] ∧
    timesOf "alice" (sampleRun 1 [10, 3610]).creations = [10, 3610] ∧
    timesOf "alice" (sampleRun 2 [0, 1, 4000, 100]).creations = [0, 1, 4000, 100] := by
  decide +kernel

end AgentNetwork.Identity
