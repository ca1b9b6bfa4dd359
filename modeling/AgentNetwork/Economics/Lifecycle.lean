import AgentNetwork.Economics.Payments
import AgentNetwork.Economics.Payout
import AgentNetwork.Economics.Calls

namespace AgentNetwork

open Relational Transactional Transactional.Prog

namespace BountyManager

variable {env : Env} {s s' : Session Db} {bountyId : String}

theorem findBounty_returns {bounty : Bounty} :
    findBounty bountyId env s = (.returns bounty, s') ↔ s.db.bounties.get? bountyId = some bounty ∧ s' = s := by
  simp only [findBounty, bind_returns, query_apply, Prod.mk.injEq, Outcome.returns.injEq]
  constructor
  · rintro ⟨row, _, ⟨rfl, rfl⟩, h⟩
    cases hg : s.db.bounties.get? bountyId with
    | none => simp [hg] at h
    | some b =>
      rw [hg] at h
      obtain ⟨hb, rfl⟩ := Prod.mk.inj h
      exact ⟨congrArg some (Outcome.returns.inj hb), rfl⟩
  · rintro ⟨hg, rfl⟩
    exact ⟨_, _, ⟨rfl, rfl⟩, by rw [hg]; rfl⟩

/-- Whenever the escrow of a bounty goes through, its row names no escrow. -/
theorem escrowBounty_returns {commitId : String} {escrowId : Option String}
    (h : escrowBounty bountyId commitId env s = (.returns escrowId, s')) :
    escrowId = none ∧ ∀ bounty, s'.db.bounties.get? bountyId = some bounty → bounty.escrowId = none := by
  obtain ⟨_, s₁, hbody, rfl⟩ := withLock_returns.mp h
  obtain ⟨_, _, _, hbody⟩ := bind_returns.mp hbody
  obtain ⟨_, _, _, hbody⟩ := bind_returns.mp hbody
  obtain ⟨_, s₂, _, hbody⟩ := bind_returns.mp hbody
  obtain ⟨_, _, hupdate, hbody⟩ := bind_returns.mp hbody
  obtain ⟨hnone, rfl⟩ := Prod.mk.inj hbody
  obtain ⟨s₃, hwrite, rfl⟩ := withConn_returns.mp hupdate
  obtain ⟨_, _, htick, hwrite⟩ := bind_returns.mp hwrite
  obtain ⟨d, hd, rfl⟩ := execute_returns.mp hwrite
  obtain rfl := Except.ok.inj hd
  refine ⟨(Outcome.returns.inj hnone).symm, ?_⟩
  intro bounty hg
  simp only [Table.get?_modify, if_pos, Option.map_eq_some_iff] at hg
  obtain ⟨_, _, rfl⟩ := hg
  rfl

/-- Nothing is paid out of an escrow without a name. -/
theorem payRecipients_none {amount : Int} {recipients : Table String Int} {u : Unit} :
    payRecipients none amount recipients env s ≠ (.returns u, s') := by
  intro h
  cases hentries : recipients.entries with
  | nil =>
    simp only [payRecipients, hentries] at h
    obtain ⟨_, s₁, hbody, rfl⟩ := withLock_returns.mp h
    obtain ⟨_, _, hopen, _⟩ := bind_returns.mp hbody
    cases (CreditLedger.openEscrow_returns.mp hopen).1
  | cons first rest =>
    simp only [payRecipients, hentries] at h
    obtain ⟨_, _, hrelease, _⟩ := bind_returns.mp h
    obtain ⟨_, _, _, hrelease⟩ := bind_returns.mp hrelease
    obtain ⟨_, _, hbody, rfl⟩ := withLock_returns.mp hrelease
    obtain ⟨_, hconn, _⟩ := withConn_returns.mp hbody
    obtain ⟨_, _, hopen, _⟩ := bind_returns.mp hconn
    cases (CreditLedger.openEscrow_returns.mp hopen).1

theorem distributeBounty_none {recipients : Table String Int} {u : Unit}
    (hrow : ∀ bounty, s.db.bounties.get? bountyId = some bounty → bounty.escrowId = none) :
    distributeBounty bountyId recipients env s ≠ (.returns u, s') := by
  intro h
  obtain ⟨_, s₁, hbody, rfl⟩ := withLock_returns.mp h
  obtain ⟨bounty, _, hfind, hbody⟩ := bind_returns.mp hbody
  obtain ⟨hg, rfl⟩ := findBounty_returns.mp hfind
  obtain ⟨_, _, hcheck, hbody⟩ := bind_returns.mp hbody
  obtain ⟨_, rfl⟩ := raiseIf_returns.mp hcheck
  obtain ⟨_, _, hcheck, hbody⟩ := bind_returns.mp hbody
  obtain ⟨_, rfl⟩ := raiseIf_returns.mp hcheck
  obtain ⟨_, _, hpay, _⟩ := bind_returns.mp hbody
  rw [hrow bounty hg] at hpay
  exact payRecipients_none hpay

end BountyManager

open BountyManager

/-- The row of the bounty names an unreleased escrow of the amount. -/
def StoresEscrow (bountyId : String) (amount : Int) (db : Db) : Prop :=
  ∃ bounty key e, db.bounties.get? bountyId = some bounty ∧ bounty.escrowId = some key ∧ db.escrows.get? key = some e ∧
    e.released = false ∧ e.amount = amount

/-- Existing accounts with positive shares of at most the amount in total. -/
def Payable (amount : Int) (recipients : Table String Int) (db : Db) : Prop :=
  (∀ r ∈ recipients.entries, db.accounts.contains r.1 = true ∧ 0 < r.2) ∧
    (recipients.entries.map Prod.snd).sum ≤ amount

/-- The distribution goes through: every recipient gains its share, "burn" the
rest, and the creator loses the locked amount. -/
def PaysOut (env : Env) (bountyId : String) (bounty : Bounty) (recipients : Table String Int) (s : Session Db) : Prop :=
  ∃ s', distributeBounty bountyId recipients env s = (.returns (), s') ∧
    (∃ b, s'.db.bounties.get? bountyId = some b ∧ b.status = .distributed) ∧
    (∀ a, CreditLedger.getBalance a s'.db = CreditLedger.getBalance a s.db + (recipients.get? a).getD 0 +
      if a = "burn" then bounty.amount - (recipients.entries.map Prod.snd).sum else 0) ∧
    StakeManager.getStakedAmount bounty.creatorId s'.db = StakeManager.getStakedAmount bounty.creatorId s.db - bounty.amount

/-- The escrow of the bounty goes through and then so does every distribution of it. -/
def LifecyclePaysOut (env : Env) (bountyId commitId : String) (bounty : Bounty) (s : Session Db) : Prop :=
  ∃ escrowId s', escrowBounty bountyId commitId env s = (.returns escrowId, s') ∧
    StoresEscrow bountyId bounty.amount s'.db ∧
    ∀ recipients, Payable bounty.amount recipients s'.db → PaysOut env bountyId bounty recipients s'

theorem not_lifecyclePaysOut (env : Env) (bountyId commitId : String) (bounty : Bounty) (s : Session Db) :
    ¬LifecyclePaysOut env bountyId commitId bounty s := by
  rintro ⟨escrowId, s', hescrow, ⟨row, key, _, hg, hkey, _⟩, _⟩
  have hnone := (escrowBounty_returns hescrow).2 row hg
  cases hkey.symm.trans hnone

/-- No bounty is ever paid out of its escrow: `escrow_bounty` stores no id, and
after it no distribution goes through, to whomever it is. -/
theorem bounty_never_pays_out (env : Env) (bountyId commitId : String) (bounty : Bounty) (s : Session Db) :
    ¬LifecyclePaysOut env bountyId commitId bounty s ∧
      ¬∃ escrowId s' recipients, escrowBounty bountyId commitId env s = (.returns escrowId, s') ∧
        PaysOut env bountyId bounty recipients s' := by
  refine ⟨not_lifecyclePaysOut env bountyId commitId bounty s, ?_⟩
  rintro ⟨escrowId, s', recipients, hescrow, s'', hdistribute, _⟩
  exact distributeBounty_none (escrowBounty_returns hescrow).2 hdistribute

/-- Alice escrows ten of her hundred credits for Bob and nobody gets them. -/
theorem bounty_stuck_in_escrow :
    let env := countingEnv true
    let s := runAll env (Call.run sampleConfig)
      [.createAccount "alice" 100 none, .createAccount "bob" 0 none, .createBounty "task" 10 .simple "alice"] Session.empty
    let bounty : Bounty := ⟨"task", 10, .simple, "alice", none, 1, none, none, .created⟩
    let bob : Table String Int := .upsert .empty "bob" 10
    let s' := (escrowBounty "1" "commit" env s).2
    s.db.bounties.get? "1" = some bounty ∧ bounty.amount ≤ CreditLedger.getBalance bounty.creatorId s.db ∧
      (escrowBounty "1" "commit" env s).1 = .returns none ∧ Payable bounty.amount bob s'.db ∧
      (distributeBounty "1" bob env s').1 = .raises (.escrowNotFound "Escrow not found: None") ∧
      ¬LifecyclePaysOut env "1" "commit" bounty s := by
  refine ⟨by decide, by decide, by decide, ?_, by decide, not_lifecyclePaysOut _ _ _ _ _⟩
  unfold Payable
  decide

end AgentNetwork
