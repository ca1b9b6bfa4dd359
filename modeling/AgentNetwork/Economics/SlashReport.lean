import AgentNetwork.Economics.Rewards

namespace AgentNetwork

open Relational Transactional Transactional.Prog

namespace SlashingRules

section Payments

variable {payouts : List (String × Int)} {a : String}

theorem share_nonneg (h : ∀ r ∈ payouts, 0 ≤ r.2) : 0 ≤ share a payouts := by
  refine List.sum_nonneg ?_
  intro n hn
  obtain ⟨r, hr, rfl⟩ := List.mem_map.mp hn
  exact h r (List.mem_filter.mp hr).1

theorem share_eq_zero (h : ∀ r ∈ payouts, r.1 = a → r.2 = 0) : share a payouts = 0 := by
  refine List.sum_eq_zero ?_
  intro n hn
  obtain ⟨r, hr, rfl⟩ := List.mem_map.mp hn
  have hm := List.mem_filter.mp hr
  exact h r hm.1 (by simpa using hm.2)

theorem share_append (payouts' : List (String × Int)) : share a (payouts ++ payouts') = share a payouts + share a payouts' := by
  simp only [share, List.filter_append, List.map_append, List.sum_append]

/-- The shares of all accounts make up the whole. -/
theorem sum_share {accounts : Finset String} (h : ∀ r ∈ payouts, r.1 ∈ accounts) :
    ∑ a ∈ accounts, share a payouts = (payouts.map Prod.snd).sum := by
  induction payouts with
  | nil => simp [share]
  | cons r rest ih =>
    have hcons (a : String) : share a (r :: rest) = (if a = r.1 then r.2 else 0) + share a rest := by
      by_cases ha : r.1 = a
      · simp [share, ha]
      · simp [share, ha, Ne.symm ha]
    simp only [hcons, Finset.sum_add_distrib, List.map_cons, List.sum_cons]
    rw [ih fun x hx => h x (List.mem_cons_of_mem r hx), Finset.sum_ite_eq' accounts r.1, if_pos (h r List.mem_cons_self)]

theorem arriving_le (db : Db) (h : ∀ r ∈ payouts, 0 ≤ r.2) :
    ((arriving db payouts).map Prod.snd).sum ≤ (payouts.map Prod.snd).sum ∧
      (((arriving db payouts).map Prod.snd).sum = (payouts.map Prod.snd).sum ↔
        ∀ r ∈ payouts, 0 < r.2 → db.accounts.contains r.1 = true) := by
  induction payouts with
  | nil => simp [arriving]
  | cons r rest ih =>
    obtain ⟨hle, hiff⟩ := ih fun x hx => h x (List.mem_cons_of_mem r hx)
    have hr := h r List.mem_cons_self
    rw [List.forall_mem_cons, ← hiff]
    cases hc : db.accounts.contains r.1 with
    | true =>
      have hkeep : arriving db (r :: rest) = r :: arriving db rest := List.filter_cons_of_pos hc
      rw [hkeep, List.map_cons, List.sum_cons, List.map_cons, List.sum_cons]
      constructor
      · omega
      · constructor
        · intro heq
          exact ⟨fun _ => rfl, by omega⟩
        · rintro ⟨_, heq⟩
          omega
    | false =>
      have hdrop : arriving db (r :: rest) = arriving db rest := List.filter_cons_of_neg (by simp [hc])
      rw [hdrop, List.map_cons, List.sum_cons]
      constructor
      · omega
      · constructor
        · intro heq
          exact ⟨fun hpos => by omega, by omega⟩
        · rintro ⟨hpos, heq⟩
          have hzero : ¬0 < r.2 := fun hlt => absurd (hpos hlt) (by decide)
          omega

end Payments

section Honest

variable {total : Int} {honest : List String}

theorem honestPayouts_nonneg (h : 0 ≤ total) : ∀ r ∈ honestPayouts total honest, 0 ≤ r.2 := by
  intro r hr
  have hshare : 0 ≤ total / honest.length := Int.ediv_nonneg h (by omega)
  cases honest with
  | nil => simp [honestPayouts] at hr
  | cons first rest =>
    simp only [honestPayouts, List.mem_cons, List.mem_map] at hr
    obtain rfl | ⟨_, _, rfl⟩ := hr
    · have hrest := Int.emod_nonneg total (b := (first :: rest).length) (by simp; omega)
      show 0 ≤ total / _ + total % _
      omega
    · exact hshare

theorem honestPayouts_sum (h : honest ≠ []) : ((honestPayouts total honest).map Prod.snd).sum = total := by
  cases honest with
  | nil => exact absurd rfl h
  | cons first rest =>
    simp only [honestPayouts, List.map_cons, List.map_map, List.sum_cons, Function.comp_def, List.map_const',
      List.sum_replicate, nsmul_eq_mul, List.length_cons]
    have hdiv := Int.mul_ediv_add_emod total (rest.length + 1)
    push_cast
    linarith

theorem honestPayouts_mem : ∀ r ∈ honestPayouts total honest, r.1 ∈ honest := by
  intro r hr
  cases honest with
  | nil => simp [honestPayouts] at hr
  | cons first rest =>
    simp only [honestPayouts, List.mem_cons, List.mem_map] at hr
    obtain rfl | ⟨v, hv, rfl⟩ := hr
    · exact List.mem_cons_self
    · exact List.mem_cons_of_mem first hv

theorem honestPayouts_zero : ∀ r ∈ honestPayouts 0 honest, r.2 = 0 := by
  intro r hr
  cases honest with
  | nil => simp [honestPayouts] at hr
  | cons first rest =>
    simp only [honestPayouts, List.mem_cons, List.mem_map] at hr
    obtain rfl | ⟨_, _, rfl⟩ := hr <;> simp

end Honest

end SlashingRules

open SlashingRules

/-- The report tells the money: what left the accounts is `burned`, what the
verifiers lost `total_slashed`, and the balances grew by payments to the honest
verifiers of `honest_payout` in all and by one of `challenger_payout`. -/
structure ReportsMoney (verifiers honest : List String) (challenger : String) (report : SlashReport)
    (before after : Db) : Prop where
  burned : before.credits - after.credits = report.burned
  slashed : ∑ a ∈ verifiers.toFinset, (before.lockedOf a - after.lockedOf a) = report.totalSlashed
  paid : ∃ credit : String → ℤ, (∀ a, 0 ≤ credit a) ∧ (∀ a, a ∉ honest → credit a = 0) ∧
    ∑ a ∈ honest.toFinset, credit a = report.honestPayout ∧
    ∀ a, CreditLedger.getBalance a after =
      CreditLedger.getBalance a before + credit a + if a = challenger then report.challengerPayout else 0

/-- What the verifiers have to lose, each once for every time it is listed. -/
def atRisk (verifiers : List String) (db : Db) : ℤ :=
  ∑ a ∈ verifiers.toFinset, (db.lockedOf a - leftAfter^[verifiers.count a] (db.lockedOf a))

/-- Whoever is due a reward is there to receive it. -/
structure RewardsArrive (verifiers honest : List String) (challenger : String) (db : Db) : Prop where
  toChallenger : 0 < atRisk verifiers db * 50 / 100 → db.accounts.contains challenger = true
  someHonest : 0 < atRisk verifiers db * 40 / 100 → honest ≠ []
  toHonest : ∀ r ∈ honestPayouts (atRisk verifiers db * 40 / 100) honest, 0 < r.2 → db.accounts.contains r.1 = true

theorem leftAfter_iterate_le {staked : ℤ} (h : 0 ≤ staked) (n : ℕ) :
    0 ≤ leftAfter^[n] staked ∧ leftAfter^[n] staked ≤ staked := by
  induction n generalizing staked with
  | zero => exact ⟨h, le_refl staked⟩
  | succ n ih =>
    have hle := penalty_le h
    have hge := penalty_nonneg h
    have hnext : 0 ≤ leftAfter staked := by
      unfold leftAfter
      omega
    obtain ⟨h0, h1⟩ := ih hnext
    rw [Function.iterate_succ_apply]
    refine ⟨h0, h1.trans ?_⟩
    unfold leftAfter
    omega

theorem atRisk_nonneg (verifiers : List String) (db : Db) : 0 ≤ atRisk verifiers db := by
  refine Finset.sum_nonneg ?_
  intro a _
  have hle := (leftAfter_iterate_le (lockedOf_nonneg a db) (verifiers.count a)).2
  omega

theorem SlashingRules.Slashed.total_eq {verifiers : List String} {total : Int} {db db' : Db} (h : Slashed verifiers total db db') :
    total = atRisk verifiers db := by
  rw [← h.removed verifiers.toFinset fun v hv => List.mem_toFinset.mpr hv]
  unfold atRisk
  simp only [h.locked]

/-- The payments of one report: they are what it says exactly when they all arrive. -/
theorem rewards_arrive_iff {total : ℤ} (h0 : 0 ≤ total) (challenger : String) (honest : List String) (db : Db) :
    ((arriving db (rewards total challenger honest)).map Prod.snd).sum = total * 50 / 100 + total * 40 / 100 ↔
      (0 < total * 50 / 100 → db.accounts.contains challenger = true) ∧ (0 < total * 40 / 100 → honest ≠ []) ∧
        ∀ r ∈ honestPayouts (total * 40 / 100) honest, 0 < r.2 → db.accounts.contains r.1 = true := by
  have hC : 0 ≤ total * 50 / 100 := by omega
  have hH : 0 ≤ total * 40 / 100 := by omega
  generalize hc : total * 50 / 100 = c at *
  generalize hh : total * 40 / 100 = g at *
  have hnonneg : ∀ r ∈ rewards total challenger honest, 0 ≤ r.2 := by
    intro r hr
    rw [rewards, hc, hh, List.mem_append] at hr
    obtain hr | hr := hr
    · split at hr
      · rw [List.mem_singleton.mp hr]
        exact hC
      · simp at hr
    · split at hr
      · exact honestPayouts_nonneg hH r hr
      · simp at hr
  have hfirst : ((if c > 0 then [(challenger, c)] else []).map Prod.snd).sum = c := by
    split
    · simp
    · simp
      omega
  obtain ⟨hle, hall⟩ := arriving_le db hnonneg
  have hsum : ((rewards total challenger honest).map Prod.snd).sum = c + if g > 0 ∧ honest ≠ [] then g else 0 := by
    rw [rewards, hc, hh, List.map_append, List.sum_append, hfirst]
    congr 1
    split
    next hpos => exact honestPayouts_sum hpos.2
    next => rfl
  have hmembers : (∀ r ∈ rewards total challenger honest, 0 < r.2 → db.accounts.contains r.1 = true) ↔
      (0 < c → db.accounts.contains challenger = true) ∧
        ∀ r ∈ honestPayouts g honest, 0 < r.2 → db.accounts.contains r.1 = true := by
    rw [rewards, hc, hh, List.forall_mem_append]
    apply and_congr
    · split
      next hpos => simp [hpos]
      next hpos => simp [hpos]
    · split
      next => exact Iff.rfl
      next hnot =>
        -- without a payment the honest list is empty or all its shares are zero
        simp only [List.not_mem_nil, false_implies, implies_true, true_iff]
        intro r hr hpos
        by_cases hg : g = 0
        · subst hg
          rw [honestPayouts_zero r hr] at hpos
          omega
        · have hnil : honest = [] := by
            by_contra hne
            exact hnot ⟨by omega, hne⟩
          rw [hnil] at hr
          simp [honestPayouts] at hr
  rw [hsum] at hle hall
  constructor
  · intro heq
    have hsome : 0 < g → honest ≠ [] := by
      intro hpos hnil
      rw [if_neg (fun hand => hand.2 hnil)] at hle
      omega
    have hfull : (c + if g > 0 ∧ honest ≠ [] then g else 0) = c + g := by
      split
      next => rfl
      next hnot =>
        have hg : ¬0 < g := fun hpos => hnot ⟨hpos, hsome hpos⟩
        omega
    obtain ⟨hchallenger, heach⟩ := hmembers.mp (hall.mp (heq.trans hfull.symm))
    exact ⟨hchallenger, hsome, heach⟩
  · rintro ⟨hchallenger, hsome, heach⟩
    rw [hall.mpr (hmembers.mpr ⟨hchallenger, heach⟩)]
    split
    next => rfl
    next hnot =>
      have hg : ¬0 < g := fun hpos => hnot ⟨hpos, hsome hpos⟩
      omega

/-- What the rewards give one account: its honest share and, for the challenger,
the challenger's payout. -/
theorem share_rewards {total : ℤ} (h0 : 0 ≤ total) (a challenger : String) {honest : List String}
    (hsome : 0 < total * 40 / 100 → honest ≠ []) :
    share a (rewards total challenger honest) =
      share a (honestPayouts (total * 40 / 100) honest) + if a = challenger then total * 50 / 100 else 0 := by
  rw [rewards, share_append, add_comm]
  congr 1
  · split
    next => rfl
    next hnot =>
      have hg : total * 40 / 100 = 0 := by
        by_contra hne
        have hpos : 0 < total * 40 / 100 := by omega
        exact hnot ⟨hpos, hsome hpos⟩
      rw [hg, share_eq_zero fun r hr _ => honestPayouts_zero r hr]
      rfl
  · split
    next hpos => by_cases ha : a = challenger <;> simp [share, ha, Ne.symm]
    next hpos =>
      have hc : total * 50 / 100 = 0 := by omega
      simp [share, hc]

section Report

variable {verifiers honest : List String} {challenger : String} {report : SlashReport} {before between after : Db}

/-- Slashes and payments are reported as they were exactly when all rewards arrive. -/
theorem reportsMoney_iff (hslashed : Slashed verifiers report.totalSlashed before between)
    (hrewarded : Rewarded (rewards report.totalSlashed challenger honest) between after)
    (hchallenger : report.challengerPayout = report.totalSlashed * 50 / 100)
    (hhonest : report.honestPayout = report.totalSlashed * 40 / 100)
    (hburned : report.burned = report.totalSlashed - report.challengerPayout - report.honestPayout) :
    ReportsMoney verifiers honest challenger report before after ↔ RewardsArrive verifiers honest challenger before := by
  have htotal := hslashed.total_eq
  have h0 : 0 ≤ report.totalSlashed := htotal ▸ atRisk_nonneg verifiers before
  have harriving : arriving between (rewards report.totalSlashed challenger honest) =
      arriving before (rewards report.totalSlashed challenger honest) := by
    unfold arriving
    simp only [hslashed.contains]
  have hcredits : before.credits - after.credits = report.totalSlashed -
      ((arriving before (rewards report.totalSlashed challenger honest)).map Prod.snd).sum := by
    rw [hrewarded.credits, hslashed.credits, harriving]
    omega
  have hiff := rewards_arrive_iff h0 challenger honest before
  constructor
  · intro h
    have hsum := h.burned
    obtain ⟨h₁, h₂, h₃⟩ := hiff.mp (by omega)
    rw [htotal] at h₁ h₂ h₃
    exact ⟨h₁, h₂, h₃⟩
  · rintro ⟨h₁, h₂, h₃⟩
    rw [← htotal] at h₁ h₂ h₃
    have hsum := hiff.mpr ⟨h₁, h₂, h₃⟩
    have hpart : ∀ r ∈ honestPayouts (report.totalSlashed * 40 / 100) honest, 0 ≤ r.2 := honestPayouts_nonneg (by omega)
    refine ⟨by omega, ?_, fun a => share a (honestPayouts (report.totalSlashed * 40 / 100) honest), ?_, ?_, ?_, ?_⟩
    · have hlocked (a : String) : after.lockedOf a = between.lockedOf a := by
        rw [Db.lockedOf, hrewarded.holdings]
        split <;> simp [Db.lockedOf]
      simp only [hlocked]
      exact hslashed.removed verifiers.toFinset fun v hv => List.mem_toFinset.mpr hv
    · exact fun a => share_nonneg hpart
    · intro a ha
      refine share_eq_zero fun r hr he => ?_
      exact absurd (he ▸ honestPayouts_mem r hr) ha
    · rw [sum_share fun r hr => List.mem_toFinset.mpr (honestPayouts_mem r hr), hhonest]
      by_cases hnil : honest = []
      · have hzero : ¬0 < report.totalSlashed * 40 / 100 := fun hpos => h₂ hpos hnil
        rw [hnil]
        simp only [honestPayouts, List.map_nil, List.sum_nil]
        omega
      · exact honestPayouts_sum hnil
    · intro a
      rw [getBalance_eq, getBalance_eq, hrewarded.holdings, hslashed.contains, Prod.fst_add, hslashed.balance, hchallenger,
        add_assoc, ← share_rewards h0 a challenger h₂]
      congr 1
      split
      next => rfl
      next hmissing =>
        -- nothing is due to an account that is not there
        have hshare := share_rewards h0 a challenger h₂
        have hnone : share a (honestPayouts (report.totalSlashed * 40 / 100) honest) = 0 := by
          refine share_eq_zero fun r hr he => ?_
          have hge := hpart r hr
          by_contra hne
          exact hmissing (he ▸ h₃ r hr (by omega))
        rw [hshare, hnone]
        split
        next ha =>
          have hzero : ¬0 < report.totalSlashed * 50 / 100 := fun hpos => hmissing (ha ▸ h₁ hpos)
          show (0 : ℤ) = 0 + _
          omega
        next => rfl

end Report

/-- The report of `slash_verifiers` is right exactly when everyone who is due a
reward has an account, and someone honest is listed when there is a part for them. -/
theorem slashVerifiers_reports_iff {env : Env} {s s' : Session Db} {verifiers : List String} {evidence challenger : String}
    {honestVerifiers : Option (List String)} {timestampNs : Option Int} {attestationLog : Option (List AttestRecord)}
    {report : SlashReport}
    (h : slashVerifiers verifiers evidence challenger honestVerifiers timestampNs attestationLog env s = (.returns report, s')) :
    ReportsMoney verifiers (honestVerifiers.getD []) challenger report s.db s'.db ↔
      RewardsArrive verifiers (honestVerifiers.getD []) challenger s.db := by
  obtain ⟨timestamp, s₁, hclock, hdb, _⟩ := timestampOr_returns timestampNs env s
  rw [slashVerifiers, bind_of_returns hclock] at h
  rw [← hdb]
  split at h
  next hempty =>
    obtain ⟨hreport, rfl⟩ := Prod.mk.inj h
    cases Outcome.returns.inj hreport
    rw [List.isEmpty_iff.mp hempty]
    have hslashed : Slashed [] 0 s₁.db s₁.db := ⟨by simp, fun _ => rfl, fun _ => rfl, fun _ => rfl, by simp⟩
    exact reportsMoney_iff hslashed (by simpa [rewards] using rewarded_nil s₁.db) rfl rfl rfl
  next =>
    cases attestationLog with
    | none => cases h
    | some log =>
      obtain ⟨d, hslashed, hrewarded, hchallenger, hhonest, hburned⟩ := slashAttested_effect h
      exact reportsMoney_iff hslashed hrewarded hchallenger hhonest hburned

/-- Alice has a hundred credits at stake, Bob and Carol have accounts. -/
def sampleStake : Session Db :=
  runAll (countingEnv false) (Call.run sampleConfig)
    [.createAccount "alice" 100 none, .createAccount "bob" 0 none, .createAccount "carol" 0 none, .stake "alice" 100]
    Session.empty

def sampleSlash : SlashEvent := ⟨"2", "alice", .failedChallenge, 50, "evidence", 10, 7⟩

theorem slashVerifiers_reports_iff_one_honest :
    ∃ s', slashVerifiers ["alice"] "evidence" "bob" (some ["carol"]) (some 7) (some [⟨some "carol"⟩]) (countingEnv false)
        sampleStake = (.returns ⟨50, 25, 20, 5, [sampleSlash], none⟩, s') ∧
      ReportsMoney ["alice"] ["carol"] "bob" ⟨50, 25, 20, 5, [sampleSlash], none⟩ sampleStake.db s'.db := by
  have hrun : (slashVerifiers ["alice"] "evidence" "bob" (some ["carol"]) (some 7) (some [⟨some "carol"⟩]) (countingEnv false)
      sampleStake).1 = .returns ⟨50, 25, 20, 5, [sampleSlash], none⟩ := by decide +kernel
  generalize hresult : slashVerifiers ["alice"] "evidence" "bob" (some ["carol"]) (some 7) (some [⟨some "carol"⟩])
    (countingEnv false) sampleStake = result at hrun
  obtain ⟨out, s'⟩ := result
  cases hrun
  refine ⟨s', rfl, (slashVerifiers_reports_iff hresult).mpr ⟨fun _ => by decide, fun _ => by decide, ?_⟩⟩
  intro r hr _
  rw [List.mem_singleton.mp (honestPayouts_mem r hr)]
  decide

/-- With nobody honest listed, twenty of the twenty-five credits that vanish are
reported as paid to them. -/
theorem slashVerifiers_hides_burn :
    (slashVerifiers ["alice"] "evidence" "bob" none (some 7) (some []) (countingEnv false) sampleStake).1 =
        .returns ⟨50, 25, 20, 5, [sampleSlash], none⟩ ∧
      sampleStake.db.credits - (slashVerifiers ["alice"] "evidence" "bob" none (some 7) (some []) (countingEnv false)
        sampleStake).2.db.credits = 25 ∧
      ¬ReportsMoney ["alice"] [] "bob" ⟨50, 25, 20, 5, [sampleSlash], none⟩ sampleStake.db
        (slashVerifiers ["alice"] "evidence" "bob" none (some 7) (some []) (countingEnv false) sampleStake).2.db := by
  refine ⟨by decide +kernel, by decide +kernel, ?_⟩
  intro h
  have hburned := h.burned
  revert hburned
  decide +kernel

end AgentNetwork
