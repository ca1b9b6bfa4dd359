import AgentNetwork.Economics.Legible
import AgentNetwork.Economics.SlashReport

namespace AgentNetwork

open Relational Transactional Transactional.Prog

/-- The audit trail tells what every account holds. -/
structure Told (db : Db) : Prop where
  linked : Linked db
  holdings : ∀ a, replay db.trail a = db.holdings a

theorem told_empty : Told Db.empty := ⟨linked_empty, fun _ => rfl⟩

/-- Books keep telling what they hold when an entry records what it changes. -/
theorem Told.of_books {db db' : Db} {entry : Books} (h : Told db) (hl : Linked db') (hb : db'.books = db.books + entry)
    (hentry : ∀ a, Books.recordedAt a entry = Books.heldAt a entry) : Told db' := by
  refine ⟨hl, ?_⟩
  intro a
  rw [← recordedAt_books, hb, map_add, hentry, recordedAt_books, h.holdings, ← heldAt_books, ← map_add, ← hb, heldAt_books]

theorem recordedAt_booked (a b : String) (h : Holdings) :
    Books.recordedAt a (booked b h) = Books.heldAt a (booked b h) := by
  simp [booked]

/-- What a transaction posts is recorded as it is. -/
theorem Posts.recorded {db : Db} {c : Call} {ms : List Movement} (h : Posts db c ms) (a : String) :
    Books.recordedAt a (ms.map Movement.entry).sum = Books.heldAt a (ms.map Movement.entry).sum := by
  cases h <;> simp [Movement.entry, recordedAt_booked]

namespace SlashingRules

/-- Whether `slash_verifiers` gets past its checks. -/
def proceeds (verifiers honest : List String) (attestationLog : Option (List AttestRecord)) : Bool :=
  !verifiers.isEmpty && match attestationLog with
    | none => false
    | some log => (unverifiedHonest honest log).isEmpty

section Loop

variable {env : Env} {s s' : Session Db} {I : Db → Prop} {evidence challenger : String} {timestamp : Int}

theorem calculateSlashAmount_failed (a : String) :
    calculateSlashAmount a .failedChallenge 10 env s = (.returns (penalty (s.db.lockedOf a)), s) := by
  rw [← getStakedAmount_eq]
  exact bind_of_returns (raiseIf_of_not (by decide))

/-- The loop of slashes ends settled wherever it stops. -/
theorem slashEach_settled {verifiers : List String} {out : Outcome LedgerError (List SlashEvent × Int)}
    (slash : ∀ n v s₁ s₂, v ∈ verifiers → I s₁.db →
      executeSlash ⟨env.uuid4 n, v, .failedChallenge, penalty (s₁.db.lockedOf v), evidence, 10, timestamp⟩ env s₁ =
        (.returns (), s₂) → I s₂.db)
    (hs : Settled I s) (h : slashEach evidence timestamp verifiers env s = (out, s')) (hout : out ≠ .blocks) :
    Settled I s' := by
  induction verifiers generalizing s s' out with
  | nil =>
    obtain ⟨_, rfl⟩ := Prod.mk.inj h
    exact hs
  | cons v rest ih =>
    rw [slashEach, bind_of_returns (calculateSlashAmount_failed v), bind_of_returns uuid4_apply] at h
    refine settled_bind ?_ ?_ h hout
    · intro out₁ s₁ hrun hout₁
      refine (atomic_executeSlash _).settles (s := { s with draws := s.draws + 1 }) hs hrun hout₁ ?_
      intro _ hreturn
      exact slash s.draws v { s with draws := s.draws + 1 } s₁ List.mem_cons_self hs.2 hreturn
    · intro _ s₁ _ hs₁ hrest
      refine settled_bind ?_ ?_ hrest hout
      · intro out₂ s₂ hrun hout₂
        exact ih (fun n x t₁ t₂ hx => slash n x t₁ t₂ (List.mem_cons_of_mem v hx)) hs₁ hrun hout₂
      · intro _ s₂ _ hs₂ hend
        obtain ⟨_, rfl⟩ := Prod.mk.inj hend
        exact hs₂

theorem payRewards_keep {payouts : List (String × Int)} {reason : String} {u : Unit}
    (pay : ∀ r s₁ s₂, r ∈ payouts → I s₁.db → payReward reason evidence timestamp r env s₁ = (.returns (), s₂) → I s₂.db)
    (hs : I s.db) (h : forEach payouts (payReward reason evidence timestamp) env s = (.returns u, s')) : I s'.db := by
  induction payouts generalizing s with
  | nil =>
    obtain ⟨_, rfl⟩ := Prod.mk.inj h
    exact hs
  | cons r rest ih =>
    rw [forEach_cons] at h
    obtain ⟨_, s₁, hfirst, hrest⟩ := bind_returns.mp h
    exact ih (fun x t₁ t₂ hx => pay x t₁ t₂ (List.mem_cons_of_mem r hx)) (pay r s s₁ List.mem_cons_self hs hfirst) hrest

theorem noCommit_payReward (reason : String) (r : String × Int) : NoCommit (payReward reason evidence timestamp r) :=
  (NoCommit.execute _).bind fun _ => noCommit_recordOperation _ _ _ _ _

/-- The transaction of the payments. -/
theorem payments_settled {total : Int} {honest : List String} {out : Outcome LedgerError Unit}
    (pay : ∀ reason r s₁ s₂, r ∈ rewards total challenger honest → I s₁.db →
      payReward reason evidence timestamp r env s₁ = (.returns (), s₂) → I s₂.db)
    (hs : Settled I s)
    (h : withLock (withConn (do
      runIf (total * 50 / 100 > 0) (payReward "challenge_upheld" evidence timestamp (challenger, total * 50 / 100))
      runIf (total * 40 / 100 > 0 ∧ honest ≠ [])
        (forEach (honestPayouts (total * 40 / 100) honest) (payReward "honest_verifier" evidence timestamp)))) env s =
      (out, s')) (hout : out ≠ .blocks) : Settled I s' := by
  have hatomic : Atomic (withLock (withConn (do
      runIf (total * 50 / 100 > 0) (payReward "challenge_upheld" evidence timestamp (challenger, total * 50 / 100))
      runIf (total * 40 / 100 > 0 ∧ honest ≠ [])
        (forEach (honestPayouts (total * 40 / 100) honest) (payReward "honest_verifier" evidence timestamp))))
        : Econ Unit) := by
    refine .withLock (.withConn ((NoCommit.runIf (noCommit_payReward _ _)).bind fun _ => .runIf ?_))
    exact .forEach _ fun r => noCommit_payReward _ r
  refine hatomic.settles hs h hout ?_
  intro _ hreturn
  obtain ⟨_, s₃, hbody, hs₂⟩ := withLock_returns.mp hreturn
  obtain ⟨s₄, hconn, hs₃⟩ := withConn_returns.mp hbody
  obtain ⟨_, s₅, hchallenger, hhonest⟩ := bind_returns.mp hconn
  rw [hs₂, hs₃]
  show I s₄.db
  have hfirst : I s₅.db := by
    obtain ⟨hpos, hpay⟩ | ⟨_, hs₅⟩ := runIf_returns.mp hchallenger
    · refine pay _ (challenger, total * 50 / 100) { s with held := true } s₅ ?_ hs.2 hpay
      rw [rewards, if_pos hpos]
      exact List.mem_append_left _ List.mem_cons_self
    · rw [hs₅]
      exact hs.2
  obtain ⟨hpos, hpay⟩ | ⟨_, hs₄⟩ := runIf_returns.mp hhonest
  · refine payRewards_keep (fun r t₁ t₂ hr => pay _ r t₁ t₂ ?_) hfirst hpay
    rw [rewards, if_pos hpos]
    exact List.mem_append_right _ hr
  · rw [hs₄]
    exact hfirst

theorem slashAttested_settled {verifiers honest : List String} {log : List AttestRecord} {out : Outcome LedgerError SlashReport}
    (slash : ∀ n v s₁ s₂, v ∈ verifiers → I s₁.db →
      executeSlash ⟨env.uuid4 n, v, .failedChallenge, penalty (s₁.db.lockedOf v), evidence, 10, timestamp⟩ env s₁ =
        (.returns (), s₂) → I s₂.db)
    (pay : ∀ reason r s₁ s₂, r ∈ rewards (atRisk verifiers s.db) challenger honest → I s₁.db →
      payReward reason evidence timestamp r env s₁ = (.returns (), s₂) → I s₂.db)
    (hverified : unverifiedHonest honest log = []) (hs : Settled I s)
    (h : slashAttested verifiers evidence challenger honest timestamp log env s = (out, s')) (hout : out ≠ .blocks) :
    Settled I s' := by
  rw [slashAttested, bind_of_returns (raiseIf_of_not (not_not_intro hverified))] at h
  refine settled_bind (fun hrun hout₁ => slashEach_settled slash hs hrun hout₁) ?_ h hout
  rintro ⟨events, total⟩ s₁ hslash hs₁ h
  have htotal : total = atRisk verifiers s.db := (slashEach_slashed hslash).total_eq
  rw [← htotal] at pay
  refine settled_bind (fun hrun hout₂ => payments_settled pay hs₁ hrun hout₂) ?_ h hout
  intro _ s₂ _ hs₂ hend
  obtain ⟨_, rfl⟩ := Prod.mk.inj hend
  exact hs₂

/-- `slash_verifiers` ends settled when each of its slashes and payments keeps
the property, if it comes to them. -/
theorem slashVerifiers_settled {verifiers : List String} {honestVerifiers : Option (List String)} {timestampNs : Option Int}
    {attestationLog : Option (List AttestRecord)} {out : Outcome LedgerError SlashReport}
    (slash : proceeds verifiers (honestVerifiers.getD []) attestationLog = true → ∀ timestamp n v s₁ s₂, v ∈ verifiers →
      I s₁.db →
      executeSlash ⟨env.uuid4 n, v, .failedChallenge, penalty (s₁.db.lockedOf v), evidence, 10, timestamp⟩ env s₁ =
        (.returns (), s₂) → I s₂.db)
    (pay : proceeds verifiers (honestVerifiers.getD []) attestationLog = true → ∀ timestamp reason r s₁ s₂,
      r ∈ rewards (atRisk verifiers s.db) challenger (honestVerifiers.getD []) → I s₁.db →
      payReward reason evidence timestamp r env s₁ = (.returns (), s₂) → I s₂.db)
    (hs : Settled I s)
    (h : slashVerifiers verifiers evidence challenger honestVerifiers timestampNs attestationLog env s = (out, s'))
    (hout : out ≠ .blocks) : Settled I s' := by
  obtain ⟨timestamp, s₁, hclock, hdb, hcommitted⟩ := timestampOr_returns timestampNs env s
  have hs₁ : Settled I s₁ := by
    obtain ⟨hclean, hI⟩ := hs
    exact ⟨by rw [hdb, hcommitted, hclean], hdb ▸ hI⟩
  rw [slashVerifiers, bind_of_returns hclock] at h
  split at h
  next =>
    obtain ⟨_, rfl⟩ := Prod.mk.inj h
    exact hs₁
  next hsome =>
    cases attestationLog with
    | none =>
      obtain ⟨_, rfl⟩ := Prod.mk.inj h
      exact hs₁
    | some log =>
      have h : slashAttested verifiers evidence challenger (honestVerifiers.getD []) timestamp log env s₁ = (out, s') := h
      by_cases hverified : unverifiedHonest (honestVerifiers.getD []) log = []
      · have hproceeds : proceeds verifiers (honestVerifiers.getD []) (some log) = true := by
          simp only [proceeds, hverified]
          simpa using hsome
        refine slashAttested_settled (slash hproceeds timestamp) ?_ hverified hs₁ h hout
        rw [hdb]
        exact pay hproceeds timestamp
      · rw [slashAttested, bind_of_raises (raiseIf_of hverified)] at h
        obtain ⟨_, rfl⟩ := Prod.mk.inj h
        exact hs₁

end Loop

theorem rewards_of_le_one {total : Int} (h0 : 0 ≤ total) (h : total ≤ 1) (challenger : String) (honest : List String) :
    rewards total challenger honest = [] := by
  have hchallenger : ¬total * 50 / 100 > 0 := by omega
  have hhonest : ¬(total * 40 / 100 > 0 ∧ honest ≠ []) := by omega
  rw [rewards, if_neg hchallenger, if_neg hhonest]
  rfl

/-- With nothing to lose no verifier is slashed. -/
theorem penalty_of_atRisk_zero {verifiers : List String} {db : Db} (h : atRisk verifiers db = 0) {v : String}
    (hv : v ∈ verifiers) : penalty (db.lockedOf v) = 0 := by
  have hterm := (Finset.sum_eq_zero_iff_of_nonneg fun a _ =>
    sub_nonneg.mpr (leftAfter_iterate_le (lockedOf_nonneg a db) (verifiers.count a)).2).mp h v (List.mem_toFinset.mpr hv)
  have hstake := lockedOf_nonneg v db
  have hge := penalty_nonneg hstake
  have hle := penalty_le hstake
  obtain ⟨n, hn⟩ := Nat.exists_eq_succ_of_ne_zero (List.count_pos_iff.mpr hv).ne'
  rw [hn, Function.iterate_succ_apply] at hterm
  have hnext : 0 ≤ leftAfter (db.lockedOf v) := by
    unfold leftAfter
    omega
  have hlast := (leftAfter_iterate_le hnext n).2
  unfold leftAfter at hlast hterm
  omega

section Rewards

variable {env : Env} {s s' : Session Db} {reason evidence : String} {timestamp : Int}

/-- A reward that is nothing or reaches its account is recorded as it is. -/
theorem payReward_told {r : String × Int} (h : Told s.db) (hreach : r.2 ≠ 0 → s.db.accounts.contains r.1 = true)
    (hpay : payReward reason evidence timestamp r env s = (.returns (), s')) : Told s'.db := by
  obtain ⟨a, n⟩ := r
  obtain ⟨hbooks, hlinked, _⟩ := payReward_effect hpay
  refine h.of_books (hlinked h.linked) hbooks ?_
  intro b
  cases hc : s.db.accounts.contains a with
  | true => simp [Movement.entry, recordedAt_booked]
  | false =>
    have hn : n = 0 := by
      by_contra hne
      exact absurd (hreach hne) (by simp [hc])
    subst hn
    simp [Movement.entry]

theorem executeSlash_told {event : SlashEvent} (h : Told s.db) (hslash : executeSlash event env s = (.returns (), s')) :
    Told s'.db := by
  obtain ⟨hbooks, hlinked, _⟩ := executeSlash_effect hslash
  exact h.of_books (hlinked h.linked) hbooks fun a => recordedAt_booked a event.accountId _

end Rewards

end SlashingRules

open SlashingRules

namespace Call

/-- The operations of the ledger, the stakes and the slashing rules. -/
def Audited (c : Call) : Prop := c.component = .ledger ∨ c.component = .stake ∨ c.component = .slashing

/-- Every reward goes to an account that exists. -/
def RewardsReach (db : Db) : Call → Prop
  | slashVerifiers verifiers _ challenger honest _ log => proceeds verifiers (honest.getD []) log = true →
    ∀ r ∈ rewards (atRisk verifiers db) challenger (honest.getD []), r.2 ≠ 0 → db.accounts.contains r.1 = true
  | _ => True

/-- The call writes no row that cannot be read back: no stake changes hands, a
slash that takes something has a text that parses, and no reward is paid. -/
def StaysReadable (env : Env) (db : Db) : Call → Prop
  | stake a n => n ≤ 0 ∨ CreditLedger.getBalance a db < n
  | unstake a n => n ≤ 0 ∨ StakeManager.getStakedAmount a db < n
  | executeSlash event => 0 < taken event db → event.row.Readable
  | slashVerifiers verifiers evidence _ honest _ log => proceeds verifiers (honest.getD []) log = true →
    atRisk verifiers db ≤ 1 ∧ (0 < atRisk verifiers db →
      ∀ n, (Metadata.slash (env.uuid4 n) ViolationType.failedChallenge.value 10 evidence).Readable)
  | _ => True

theorem StaysReadable.rewardsReach {env : Env} {db : Db} {c : Call} (h : c.StaysReadable env db) : c.RewardsReach db := by
  cases c with
  | slashVerifiers verifiers evidence challenger honest t log =>
    intro hproceeds r hr
    obtain ⟨hle, _⟩ := h hproceeds
    rw [rewards_of_le_one (atRisk_nonneg verifiers db) hle] at hr
    exact absurd hr List.not_mem_nil
  | _ => trivial

/-- The slashing rules have one call that is more than a transaction. -/
theorem Audited.cases {c : Call} (h : c.Audited) (config : Config) :
    c.isTransaction ∨ ReadOnly (c.run config) ∨ ∃ verifiers evidence challenger honest t log,
      c = .slashVerifiers verifiers evidence challenger honest t log := by
  obtain h | h | h := h
  · exact Or.inl (Or.inl h)
  · exact Or.inl (Or.inr (Or.inl h))
  · cases c with
    | calculateSlashAmount a violation severity =>
      exact Or.inr (Or.inl (readOnly_forEffect (readOnly_calculateSlashAmount a violation severity)))
    | executeSlash event => exact Or.inl (Or.inr (Or.inr ⟨event, rfl⟩))
    | getSlashHistory a limit => exact Or.inr (Or.inl (readOnly_attempt _))
    | slashVerifiers verifiers evidence challenger honest t log => exact Or.inr (Or.inr ⟨_, _, _, _, _, _, rfl⟩)
    | _ => simp [component] at h

end Call

section Steps

variable {config : Config} {env : Env} {s s' : Session Db} {out : Outcome LedgerError Unit} {c : Call}

theorem ReadOnly.settled {p : Econ Unit} {I : Db → Prop} (h : ReadOnly p) (hs : Settled I s) (hp : p env s = (out, s')) :
    Settled I s' := by
  obtain ⟨hclean, hI⟩ := hs
  obtain ⟨hdb, hcommitted⟩ := h.eq hp
  exact ⟨by rw [hdb, hcommitted, hclean], hdb ▸ hI⟩

theorem forEffect_settled {α : Type} {p : Econ α} {I : Db → Prop}
    (hp : ∀ result s₁, p env s = (result, s₁) → result ≠ .blocks → Settled I s₁)
    (h : forEffect p env s = (out, s')) (hout : out ≠ .blocks) : Settled I s' := by
  refine settled_bind (fun hrun => hp _ _ hrun) ?_ h hout
  intro _ s₁ _ hs₁ hend
  obtain ⟨_, rfl⟩ := Prod.mk.inj hend
  exact hs₁

theorem Call.told_step (hc : c.Audited) (hreach : c.RewardsReach s.db) (hs : Settled Told s)
    (h : c.run config env s = (out, s')) (hout : out ≠ .blocks) : Settled Told s' := by
  obtain htransaction | hreading | ⟨verifiers, evidence, challenger, honest, t, log, rfl⟩ := hc.cases config
  · refine (Call.atomic_of_isTransaction config htransaction).settles hs h hout ?_
    intro u hu
    obtain ⟨hl, ms, hposts, hbooks⟩ := Call.posts htransaction hs.2.linked hu
    exact hs.2.of_books hl hbooks hposts.recorded
  · exact ReadOnly.settled hreading hs h
  · -- the accounts of the loop are those it started with
    refine forEffect_settled (fun result s₁ hrun hout₁ => ?_) h hout
    have hkeep : Settled (fun db => Told db ∧ ∀ j, db.accounts.contains j = s.db.accounts.contains j) s₁ := by
      refine slashVerifiers_settled ?_ ?_ ⟨hs.1, hs.2, fun _ => rfl⟩ hrun hout₁
      · rintro _ timestamp n v s₁ s₂ _ ⟨htold, hsame⟩ hslash
        obtain ⟨_, _, hcontains⟩ := executeSlash_effect hslash
        exact ⟨executeSlash_told htold hslash, fun j => (hcontains j).trans (hsame j)⟩
      · rintro hproceeds timestamp reason r s₁ s₂ hr ⟨htold, hsame⟩ hpay
        obtain ⟨_, _, hcontains⟩ := payReward_effect hpay
        refine ⟨payReward_told htold ?_ hpay, fun j => (hcontains j).trans (hsame j)⟩
        intro hne
        rw [hsame]
        exact hreach hproceeds r hr hne
    exact ⟨hkeep.1, hkeep.2.1⟩

theorem Call.legible_returns {u : Unit} (hc : c.isTransaction) (hread : c.StaysReadable env s.db) (hl : Linked s.db)
    (hI : Legible s.db) (h : c.run config env s = (.returns u, s')) : Legible s'.db := by
  have hreading {p : Econ Unit} (hp : ReadOnly p) (h : p env s = (.returns u, s')) : Legible s'.db :=
    Preserves.readOnly hp env s u s' hI h
  cases c with
  | createAccount a n minter => exact CreditLedger.createAccount_legible a n minter env s u s' hI h
  | getBalance a => exact hreading (readOnly_forEffect (ReadOnly.query _)) h
  | getAccount a => exact hreading (readOnly_forEffect (ReadOnly.query _)) h
  | getTotalSupply =>
    obtain ⟨n, hn⟩ := forEffect_returns.mp h
    exact Preserves.withLock (.readOnly (ReadOnly.query _)) env s n s' hI hn
  | transfer f t n allow =>
    obtain ⟨r, hr⟩ := forEffect_returns.mp h
    exact CreditLedger.transfer_legible f t n allow env s r s' hI hr
  | escrow a n key => exact CreditLedger.escrow_legible a n key env s u s' hI h
  | releaseEscrow key t => exact CreditLedger.releaseEscrow_legible key t env s u s' hI h
  | cancelEscrow key => exact CreditLedger.cancelEscrow_legible key env s u s' hI h
  | getAuditTrail a limit => exact hreading (readOnly_attempt _) h
  | stake a n =>
    -- a stake that is not refused writes a row of its own type
    obtain ⟨hn, hbalance, _⟩ := StakeManager.stake_effect hl h
    have hrefused : n ≤ 0 ∨ CreditLedger.getBalance a s.db < n := hread
    omega
  | unstake a n =>
    obtain ⟨r, hr⟩ := forEffect_returns.mp h
    obtain ⟨hn, hstaked, _⟩ := StakeManager.unstake_effect hl hr
    have hrefused : n ≤ 0 ∨ StakeManager.getStakedAmount a s.db < n := hread
    omega
  | completeUnbonding a =>
    obtain ⟨n, hn⟩ := forEffect_returns.mp h
    exact completeUnbonding_legible a env s n s' hI hn
  | getStakedAmount a => exact hreading (readOnly_forEffect (ReadOnly.query _)) h
  | getUnbondingAmount a => exact hreading (readOnly_forEffect (ReadOnly.query _)) h
  | getUnbondingRecords a includeCompleted => exact hreading (readOnly_forEffect (ReadOnly.query _)) h
  | executeSlash event => exact executeSlash_legible hI hread h
  | _ => simp [Call.isTransaction, Call.component] at hc

theorem Call.legible_step (hc : c.Audited) (hread : c.StaysReadable env s.db) (hl : Linked s.db) (hs : Settled Legible s)
    (h : c.run config env s = (out, s')) (hout : out ≠ .blocks) : Settled Legible s' := by
  obtain htransaction | hreading | ⟨verifiers, evidence, challenger, honest, t, log, rfl⟩ := hc.cases config
  · refine (Call.atomic_of_isTransaction config htransaction).settles hs h hout ?_
    intro u hu
    exact Call.legible_returns htransaction hread hl hs.2 hu
  · exact ReadOnly.settled hreading hs h
  · refine forEffect_settled (fun result s₁ hrun hout₁ => ?_) h hout
    have hnothing : atRisk verifiers s.db = 0 → ∀ v ∈ verifiers, penalty (s.db.lockedOf v) = 0 :=
      fun hzero v hv => penalty_of_atRisk_zero hzero hv
    have hkeep : Settled (fun db => Legible db ∧
        (atRisk verifiers s.db = 0 → ∀ v ∈ verifiers, penalty (db.lockedOf v) = 0)) s₁ := by
      refine slashVerifiers_settled ?_ ?_ ⟨hs.1, hs.2, hnothing⟩ hrun hout₁
      · rintro hproceeds timestamp n v s₁ s₂ hv ⟨hI, hnone⟩ hslash
        obtain ⟨_, htext⟩ := hread hproceeds
        refine ⟨executeSlash_legible hI ?_ hslash, ?_⟩
        · intro htaken
          refine htext ?_ n
          have hge := atRisk_nonneg verifiers s.db
          by_contra hpos
          have hzero := hnone (by omega) v hv
          simp only [taken, hzero] at htaken
          omega
        · intro hzero w hw
          obtain ⟨_, hholdings, _⟩ := slash_step rfl hslash
          rw [Db.lockedOf, hholdings, hnone hzero v hv]
          split
          · simpa [Db.lockedOf] using hnone hzero w hw
          · simpa [Db.lockedOf] using hnone hzero w hw
      · intro hproceeds timestamp reason r s₁ s₂ hr
        obtain ⟨hle, _⟩ := hread hproceeds
        rw [rewards_of_le_one (atRisk_nonneg verifiers s.db) hle] at hr
        exact absurd hr List.not_mem_nil
    exact ⟨hkeep.1, hkeep.2.1⟩

end Steps

end AgentNetwork
