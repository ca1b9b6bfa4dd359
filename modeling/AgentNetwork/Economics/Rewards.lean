import AgentNetwork.Economics.Solvency
import Mathlib.Algebra.BigOperators.Group.Finset.Piecewise
import Mathlib.Algebra.BigOperators.Ring.Finset

namespace AgentNetwork

open Relational Transactional Transactional.Prog

theorem getBalance_eq (a : String) (db : Db) : CreditLedger.getBalance a db = (db.holdings a).1 := by
  unfold CreditLedger.getBalance Db.holdings
  cases db.accounts.get? a <;> rfl

theorem lockedOf_nonneg (a : String) (db : Db) : 0 ≤ db.lockedOf a := by
  unfold Db.lockedOf Db.holdings
  cases db.accounts.get? a with
  | none => exact le_refl 0
  | some account => exact account.locked_nonneg

theorem holdings_of_books {db db' : Db} {entry : Books} (h : db'.books = db.books + entry) (a : String) :
    db'.holdings a = db.holdings a + Books.heldAt a entry := by
  rw [← heldAt_books, h, map_add, heldAt_books]

theorem credits_of_books {db db' : Db} {entry : Books} (h : db'.books = db.books + entry) :
    db'.credits = db.credits + Books.credits entry := by
  rw [← credits_books, h, map_add, credits_books]

namespace SlashingRules

variable {env : Env} {s s' : Session Db}

/-- What a failed challenge costs. -/
def penalty (staked : Int) : Int := slashOf .failedChallenge 10 staked

theorem penalty_nonneg {staked : Int} (h : 0 ≤ staked) : 0 ≤ penalty staked :=
  Double.trunc_nonneg (Double.scale_nonneg h (by norm_num))

/-- Rounding never makes half a stake more than the stake. -/
theorem penalty_le {staked : Int} (h : 0 ≤ staked) : penalty staked ≤ staked := by
  have hn : (0 : ℚ) ≤ staked := by exact_mod_cast h
  have hp : (0 : ℚ) ≤ 1 / 2 := by norm_num
  have htrunc := Double.trunc_le (Double.scale_nonneg h hp)
  have hscale := Double.scale_le h hp
  have hhalf : (staked : ℚ) * (1 / 2) * (1 + 2 ^ (-53 : ℤ)) ^ 2 ≤ staked := by
    have hfactor : (1 / 2 : ℚ) * (1 + 2 ^ (-53 : ℤ)) ^ 2 ≤ 1 := by norm_num
    rw [mul_assoc]
    exact (mul_le_mul_of_nonneg_left hfactor hn).trans_eq (mul_one _)
  have hle : ((penalty staked : ℤ) : ℚ) ≤ staked := (htrunc.trans hscale).trans hhalf
  exact_mod_cast hle

/-- What a failed challenge leaves. -/
def leftAfter (staked : Int) : Int := staked - penalty staked

/-- A loop of slashes took `total` in all, from each verifier once for every
time it is listed. -/
structure Slashed (verifiers : List String) (total : Int) (db db' : Db) : Prop where
  credits : db'.credits = db.credits - total
  locked : ∀ a, db'.lockedOf a = leftAfter^[verifiers.count a] (db.lockedOf a)
  balance : ∀ a, (db'.holdings a).1 = (db.holdings a).1
  contains : ∀ a, db'.accounts.contains a = db.accounts.contains a
  removed : ∀ accounts : Finset String, (∀ v ∈ verifiers, v ∈ accounts) →
    ∑ a ∈ accounts, (db.lockedOf a - db'.lockedOf a) = total

/-- One slash of the loop. -/
theorem slash_step {verifierId eventId evidence : String} {timestamp amount : Int} {u : Unit}
    (hamount : amount = penalty (s.db.lockedOf verifierId))
    (h : executeSlash ⟨eventId, verifierId, .failedChallenge, amount, evidence, 10, timestamp⟩ env s = (.returns u, s')) :
    s'.db.credits = s.db.credits - amount ∧
      (∀ a, s'.db.holdings a = s.db.holdings a + if a = verifierId then (0, -amount, 0) else 0) ∧
      ∀ a, s'.db.accounts.contains a = s.db.accounts.contains a := by
  obtain ⟨hbooks, _, hcontains⟩ := executeSlash_effect h
  have hstake := lockedOf_nonneg verifierId s.db
  have hle := penalty_le hstake
  have hge := penalty_nonneg hstake
  have htaken : taken ⟨eventId, verifierId, .failedChallenge, amount, evidence, 10, timestamp⟩ s.db = amount := by
    simp only [taken, getStakedAmount_eq]
    omega
  rw [htaken] at hbooks
  refine ⟨?_, ?_, hcontains⟩
  · rw [credits_of_books hbooks]
    simp [Movement.entry, booked]
    omega
  · intro a
    rw [holdings_of_books hbooks]
    simp [Movement.entry, booked, eq_comm]

theorem calculateSlashAmount_returns {a : String} {amount : Int}
    (h : calculateSlashAmount a .failedChallenge 10 env s = (.returns amount, s')) :
    amount = penalty (s.db.lockedOf a) ∧ s' = s := by
  obtain ⟨_, s₁, hcheck, h⟩ := bind_returns.mp h
  obtain ⟨_, hs₁⟩ := raiseIf_returns.mp hcheck
  obtain ⟨hamount, hs'⟩ := Prod.mk.inj h
  refine ⟨?_, hs'.symm.trans hs₁⟩
  rw [← hs₁, ← getStakedAmount_eq]
  exact (Outcome.returns.inj hamount).symm

theorem slashEach_slashed {evidence : String} {timestamp total : Int} {verifiers : List String} {events : List SlashEvent}
    (h : slashEach evidence timestamp verifiers env s = (.returns (events, total), s')) :
    Slashed verifiers total s.db s'.db := by
  induction verifiers generalizing s s' events total with
  | nil =>
    obtain ⟨hresult, rfl⟩ := Prod.mk.inj h
    cases Outcome.returns.inj hresult
    exact ⟨by simp, fun _ => rfl, fun _ => rfl, fun _ => rfl, by simp⟩
  | cons v rest ih =>
    rw [slashEach] at h
    obtain ⟨amount, s₁, hcalculate, h⟩ := bind_returns.mp h
    obtain ⟨hamount, hs₁⟩ := calculateSlashAmount_returns hcalculate
    obtain ⟨eventId, s₁', hdraw, h⟩ := bind_returns.mp h
    obtain ⟨_, s₂, hslash, h⟩ := bind_returns.mp h
    obtain ⟨⟨events', total'⟩, s₃, hrest, h⟩ := bind_returns.mp h
    obtain ⟨hresult, hs'⟩ := Prod.mk.inj h
    obtain ⟨_, htotal⟩ := Prod.mk.inj (Outcome.returns.inj hresult)
    have hdb : s₁'.db = s.db := by
      rw [← (Prod.mk.inj hdraw).2, hs₁]
    rw [← htotal, ← hs']
    obtain ⟨hcredits, hholdings, hcontains⟩ := slash_step (hdb ▸ hamount) hslash
    rw [hdb] at hcredits hholdings hcontains
    have hlocked (a : String) : s₂.db.lockedOf a = s.db.lockedOf a - if a = v then amount else 0 := by
      rw [Db.lockedOf, hholdings]
      split
      · exact (sub_eq_add_neg _ _).symm
      · simp [Db.lockedOf]
    have ih' := ih hrest
    refine ⟨?_, ?_, ?_, ?_, ?_⟩
    · rw [ih'.credits, hcredits]
      omega
    · intro a
      rw [ih'.locked, hlocked, List.count_cons]
      by_cases ha : v = a
      · subst ha
        simp only [if_true, beq_self_eq_true, Function.iterate_add_apply, Function.iterate_one]
        rw [hamount]
        rfl
      · have hbeq : (v == a) = false := by simpa using ha
        rw [if_neg (Ne.symm ha), hbeq]
        simp
    · intro a
      rw [ih'.balance, hholdings]
      split <;> simp
    · intro a
      rw [ih'.contains, hcontains]
    · intro accounts hmem
      have hrestRemoved := ih'.removed accounts fun x hx => hmem x (List.mem_cons_of_mem v hx)
      have hfirst : ∑ a ∈ accounts, (if a = v then amount else 0) = amount := by
        rw [Finset.sum_ite_eq' accounts v, if_pos (hmem v List.mem_cons_self)]
      rw [← hrestRemoved, ← hfirst, ← Finset.sum_add_distrib]
      apply Finset.sum_congr rfl
      intro a _
      rw [hlocked]
      omega

/-- What a list of payments has for one account. -/
def share (a : String) (payouts : List (String × Int)) : Int := ((payouts.filter fun r => r.1 = a).map Prod.snd).sum

/-- The payments to accounts that exist. -/
def arriving (db : Db) (payouts : List (String × Int)) : List (String × Int) :=
  payouts.filter fun r => db.accounts.contains r.1

/-- The payments were made, which moves nothing for an account that is not there. -/
structure Rewarded (payouts : List (String × Int)) (db db' : Db) : Prop where
  credits : db'.credits = db.credits + ((arriving db payouts).map Prod.snd).sum
  holdings : ∀ a, db'.holdings a = db.holdings a + if db.accounts.contains a then (share a payouts, 0, 0) else 0
  contains : ∀ a, db'.accounts.contains a = db.accounts.contains a

theorem rewarded_nil (db : Db) : Rewarded [] db db := ⟨by simp [arriving], by simp [share], fun _ => rfl⟩

theorem Rewarded.append {payouts payouts' : List (String × Int)} {db db' db'' : Db} (h : Rewarded payouts db db')
    (h' : Rewarded payouts' db' db'') : Rewarded (payouts ++ payouts') db db'' := by
  have harriving : arriving db' payouts' = arriving db payouts' := by
    unfold arriving
    simp only [h.contains]
  refine ⟨?_, ?_, ?_⟩
  · rw [h'.credits, h.credits, harriving]
    simp only [arriving, List.filter_append, List.map_append, List.sum_append]
    omega
  · intro a
    rw [h'.holdings, h.holdings, h.contains, add_assoc]
    congr 1
    split
    · simp only [share, List.filter_append, List.map_append, List.sum_append, Prod.mk_add_mk, add_zero]
    · simp
  · intro a
    rw [h'.contains, h.contains]

theorem payReward_rewarded {u : Unit} {reason evidence : String} {timestamp : Int} {r : String × Int}
    (h : payReward reason evidence timestamp r env s = (.returns u, s')) : Rewarded [r] s.db s'.db := by
  obtain ⟨b, n⟩ := r
  obtain ⟨hbooks, _, hcontains⟩ := payReward_effect h
  refine ⟨?_, ?_, hcontains⟩
  · rw [credits_of_books hbooks]
    cases hc : s.db.accounts.contains b <;> simp [arriving, hc, Movement.entry, booked]
  · intro a
    rw [holdings_of_books hbooks]
    by_cases ha : b = a
    · subst ha
      cases hc : s.db.accounts.contains b <;> simp [share, Movement.entry, booked]
    · cases hc : s.db.accounts.contains b <;> simp [share, Movement.entry, booked, ha]

theorem payRewards_rewarded {u : Unit} {reason evidence : String} {timestamp : Int} {payouts : List (String × Int)}
    (h : forEach payouts (payReward reason evidence timestamp) env s = (.returns u, s')) : Rewarded payouts s.db s'.db := by
  induction payouts generalizing s with
  | nil =>
    obtain ⟨_, rfl⟩ := Prod.mk.inj h
    exact rewarded_nil s.db
  | cons r rest ih =>
    rw [forEach_cons] at h
    obtain ⟨_, s₁, hfirst, hrest⟩ := bind_returns.mp h
    exact (payReward_rewarded hfirst).append (ih hrest)

/-- The payments after a total of `total` was slashed. -/
def rewards (total : Int) (challenger : String) (honest : List String) : List (String × Int) :=
  (if total * 50 / 100 > 0 then [(challenger, total * 50 / 100)] else []) ++
    if total * 40 / 100 > 0 ∧ honest ≠ [] then honestPayouts (total * 40 / 100) honest else []

/-- A successful call slashes each verifier and then makes the payments. -/
theorem slashAttested_effect {verifiers honest : List String} {evidence challenger : String} {timestamp : Int}
    {log : List AttestRecord} {report : SlashReport}
    (h : slashAttested verifiers evidence challenger honest timestamp log env s = (.returns report, s')) :
    ∃ d, Slashed verifiers report.totalSlashed s.db d ∧ Rewarded (rewards report.totalSlashed challenger honest) d s'.db ∧
      report.challengerPayout = report.totalSlashed * 50 / 100 ∧ report.honestPayout = report.totalSlashed * 40 / 100 ∧
      report.burned = report.totalSlashed - report.challengerPayout - report.honestPayout := by
  obtain ⟨_, s₁, hcheck, h⟩ := bind_returns.mp h
  obtain ⟨_, hs₁⟩ := raiseIf_returns.mp hcheck
  obtain ⟨⟨events, total⟩, s₂, hslash, h⟩ := bind_returns.mp h
  obtain ⟨_, s₃, hpay, h⟩ := bind_returns.mp h
  obtain ⟨hreport, hs'⟩ := Prod.mk.inj h
  obtain ⟨_, s₄, hbody, hs₃⟩ := withLock_returns.mp hpay
  obtain ⟨s₅, hbody, hs₄⟩ := withConn_returns.mp hbody
  obtain ⟨_, s₆, hchallenger, hhonest⟩ := bind_returns.mp hbody
  have hdb : s'.db = s₅.db := by rw [← hs', hs₃, hs₄]
  cases Outcome.returns.inj hreport
  refine ⟨s₂.db, hs₁ ▸ slashEach_slashed hslash, ?_, rfl, rfl, rfl⟩
  rw [hdb]
  have hfirst : Rewarded (if total * 50 / 100 > 0 then [(challenger, total * 50 / 100)] else []) s₂.db s₆.db := by
    obtain ⟨hpos, hrun⟩ | ⟨hzero, hs₆⟩ := runIf_returns.mp hchallenger
    · rw [if_pos hpos]
      exact payReward_rewarded (s := { s₂ with held := true }) hrun
    · rw [if_neg hzero, hs₆]
      exact rewarded_nil s₂.db
  refine hfirst.append ?_
  obtain ⟨hpos, hrun⟩ | ⟨hnone, hs₅⟩ := runIf_returns.mp hhonest
  · rw [if_pos hpos]
    exact payRewards_rewarded hrun
  · rw [if_neg hnone, hs₅]
    exact rewarded_nil s₆.db

end SlashingRules

end AgentNetwork
