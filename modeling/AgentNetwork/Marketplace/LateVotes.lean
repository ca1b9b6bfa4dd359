import AgentNetwork.Marketplace.Voting

namespace AgentNetwork.Marketplace

open Relational Python Transition GovernanceSystem

/-- One call of `vote`. -/
structure VoteCall where
  now : Int
  proposalId : String
  voterId : String
  choice : VoteChoice
  weight : ℚ

namespace GovernanceSystem

def cast (config : GovernanceConfig) (g : GovernanceSystem) (c : VoteCall) : Except GovernanceError Unit × GovernanceSystem :=
  g.vote config c.now c.proposalId c.voterId c.choice c.weight

/-- The system after votes that come one after the other, accepted or not. -/
def castAll (config : GovernanceConfig) : List VoteCall → GovernanceSystem → GovernanceSystem
  | [], g => g
  | c :: rest, g => castAll config rest (g.cast config c).2

/-- The vote names a proposal that is still ACTIVE after its voting has ended. -/
def TooLate (g : GovernanceSystem) (c : VoteCall) : Prop :=
  ∃ proposal votingEnd, g.proposals.get? c.proposalId = some proposal ∧ proposal.status = .active ∧
    proposal.votingEnd = some votingEnd ∧ votingEnd < c.now

def statusOf (g : GovernanceSystem) (proposalId : String) : Option ProposalStatus :=
  (g.proposals.get? proposalId).map Proposal.status

section Votes

variable {config : GovernanceConfig} {g g' : GovernanceSystem} {c : VoteCall} {proposalId : String} {proposal : Proposal}

theorem cast_tooLate {votingEnd : Int} (found : g.proposals.get? c.proposalId = some proposal) (status : proposal.status = .active)
    (ending : proposal.votingEnd = some votingEnd) (past : votingEnd < c.now) :
    g.cast config c = (.error (.valueError "Voting period has expired"),
      g.setProposal c.proposalId { proposal with status := .expired }) := by
  simp [cast, vote, found, status, ending, past]

/-- Of the votes that raise only one that is too late leaves a trace. -/
theorem cast_raises {e : GovernanceError} (h : g.cast config c = (.error e, g')) : g' = g ↔ ¬g.TooLate c := by
  constructor
  · rintro rfl ⟨proposal, votingEnd, found, status, ending, past⟩
    rw [cast_tooLate found status ending past] at h
    have hproposal : (g'.setProposal c.proposalId { proposal with status := .expired }).proposals.get? c.proposalId = some proposal := by
      rw [(Prod.mk.inj h).2, found]
    rw [get?_setProposal found, if_pos rfl] at hproposal
    have hstatus := congrArg Proposal.status (Option.some.inj hproposal)
    rw [status] at hstatus
    cases hstatus
  · intro hnot
    have he := call_effect config g c.now (.vote c.proposalId c.voterId c.choice c.weight)
    have hcall : g.call config c.now (.vote c.proposalId c.voterId c.choice c.weight) = (.error e, g') := h
    rw [hcall] at he
    cases he with
    | refused => rfl
    | late found status ending past => exact absurd ⟨_, _, found, status, ending, past⟩ hnot

/-- A vote on another proposal leaves a proposal and its votes as they were. -/
theorem cast_other (config : GovernanceConfig) (g : GovernanceSystem) (hne : c.proposalId ≠ proposalId) :
    (g.cast config c).2.proposals.get? proposalId = g.proposals.get? proposalId ∧
      (g.cast config c).2.votes.get? proposalId = g.votes.get? proposalId ∧
      (g.cast config c).2.totalVotingWeight = g.totalVotingWeight := by
  have he := call_effect config g c.now (.vote c.proposalId c.voterId c.choice c.weight)
  have hcall : g.call config c.now (.vote c.proposalId c.voterId c.choice c.weight) = g.cast config c := rfl
  rw [hcall] at he
  generalize (g.cast config c).1 = result at he
  generalize (g.cast config c).2 = g' at he
  cases he with
  | refused => exact ⟨rfl, rfl, rfl⟩
  | late found status ending past => exact ⟨by rw [get?_setProposal found, if_neg hne.symm], rfl, rfl⟩
  | voted cast voter atMost => exact ⟨rfl, by simp [hne.symm], rfl⟩

theorem tally_congr (hproposals : g'.proposals.get? proposalId = g.proposals.get? proposalId)
    (hvotes : g'.votes.get? proposalId = g.votes.get? proposalId) (htotal : g'.totalVotingWeight = g.totalVotingWeight) :
    g'.tallyVotes config proposalId = g.tallyVotes config proposalId := by
  have hcontains : g'.proposals.contains proposalId = g.proposals.contains proposalId := congrArg Option.isSome hproposals
  unfold tallyVotes
  rw [hcontains, hvotes, htotal]

/-- An EXPIRED proposal takes no vote, late or not. -/
theorem castAll_expired (config : GovernanceConfig) (calls : List VoteCall) (h : g.statusOf proposalId = some .expired) :
    (castAll config calls g).statusOf proposalId = some .expired := by
  induction calls generalizing g with
  | nil => exact h
  | cons c rest ih =>
    refine ih ?_
    by_cases hid : c.proposalId = proposalId
    · obtain ⟨proposal, found, status⟩ := Option.map_eq_some_iff.mp h
      have hrefused : (g.cast config c).2 = g := by
        simp [cast, vote, hid, found, status]
      rw [hrefused]
      exact h
    · unfold statusOf
      rw [(cast_other config g hid).1]
      exact h

theorem finalize_expired (config : GovernanceConfig) (h : g.statusOf proposalId = some .expired) :
    (g.finalizeProposal config proposalId).2.statusOf proposalId = some .expired := by
  obtain ⟨proposal, found, status⟩ := Option.map_eq_some_iff.mp h
  have hrefused : (g.finalizeProposal config proposalId).2 = g := by
    simp [finalizeProposal, found, status]
  rw [hrefused]
  exact h

/-- A proposal that the votes are in favour of passes unless a vote on it comes too late. -/
theorem finalize_after_late {calls : List VoteCall} {votingEnd : Int} {result : Tally}
    (found : g.proposals.get? proposalId = some proposal) (status : proposal.status = .active)
    (ending : proposal.votingEnd = some votingEnd) (tally : g.tallyVotes config proposalId = .ok result)
    (inFavour : result.passed = true) (late : ∀ c ∈ calls, votingEnd < c.now) :
    ((castAll config calls g).finalizeProposal config proposalId).2.statusOf proposalId = some .passed ↔
      ∀ c ∈ calls, c.proposalId ≠ proposalId := by
  induction calls generalizing g with
  | nil =>
    have hpassed : (g.finalizeProposal config proposalId).2 = g.setProposal proposalId { proposal with status := .passed } := by
      simp [finalizeProposal, found, status, tally, inFavour]
    simp [castAll, hpassed, statusOf, get?_setProposal found]
  | cons c rest ih =>
    obtain ⟨hlate, hrest⟩ := List.forall_mem_cons.mp late
    by_cases hid : c.proposalId = proposalId
    · -- from the first vote that names it the proposal is EXPIRED
      subst hid
      have hexpired : (g.cast config c).2.statusOf c.proposalId = some .expired := by
        rw [cast_tooLate found status ending hlate]
        simp [statusOf, get?_setProposal found]
      have hfinal := finalize_expired config (castAll_expired config rest hexpired)
      simp only [castAll, hfinal]
      constructor
      · intro hpassed
        cases hpassed
      · exact fun hne => absurd rfl (hne c List.mem_cons_self)
    · obtain ⟨hproposals, hvotes, htotal⟩ := cast_other config g hid
      have hafter := ih (hproposals.trans found) ((tally_congr hproposals hvotes htotal).trans tally) hrest
      rw [castAll, hafter, List.forall_mem_cons]
      simp [hid]

end Votes

end GovernanceSystem

/-- A vote that raises leaves the system as it was unless it names a proposal that is ACTIVE
after its voting has ended, and a proposal with a majority at the end of its voting passes
unless one of the votes that come later names it. -/
theorem rejected_votes_change_nothing (config : GovernanceConfig) (g : GovernanceSystem) :
    (∀ c e g', g.cast config c = (.error e, g') → (g' = g ↔ ¬g.TooLate c)) ∧
    ∀ proposalId proposal votingEnd result calls, g.proposals.get? proposalId = some proposal → proposal.status = .active →
      proposal.votingEnd = some votingEnd → g.tallyVotes config proposalId = .ok result → result.passed = true →
      (∀ c ∈ calls, votingEnd < c.now) →
      (((castAll config calls g).finalizeProposal config proposalId).2.statusOf proposalId = some .passed ↔
        ∀ c ∈ calls, c.proposalId ≠ proposalId) :=
  ⟨fun _ _ _ h => cast_raises h, fun _ _ _ _ _ => finalize_after_late⟩

section Ballot

def ballot : GovernanceSystem := (ballotCalls.foldl (GovernanceHistory.call weekly) (.new 0)).system

/-- A stranger votes a second after the voting. -/
def strangerVote : VoteCall := ⟨604800000001, "p1", "mallory", .no, 1⟩

/-- The vote is rejected, and the proposal with all the votes in favour does not pass. -/
theorem rejected_vote_expires :
    (∃ steps clock executed, Trace (GovernanceHistory.Step weekly) (.new 0) steps ⟨ballot, clock, executed⟩) ∧
      (∃ e, (ballot.cast weekly strangerVote).1 = .error e) ∧ (ballot.cast weekly strangerVote).2 ≠ ballot ∧
      (ballot.finalizeProposal weekly "p1").2.statusOf "p1" = some .passed ∧
      (((ballot.cast weekly strangerVote).2.finalizeProposal weekly "p1").2.statusOf "p1" = some .expired) :=
  ⟨⟨_, 1, [], ballot_reached⟩, ⟨.valueError "Voting period has expired", by decide +kernel⟩, by decide +kernel, by decide +kernel,
    by decide +kernel⟩

/-- A late vote on some other proposal does no harm. -/
theorem rejected_votes_change_nothing_elsewhere :
    ((castAll weekly [{ strangerVote with proposalId := "p2" }] ballot).finalizeProposal weekly "p1").2.statusOf "p1" = some .passed := by
  have htally : ∃ result, ballot.tallyVotes weekly "p1" = .ok result ∧ result.passed = true :=
    ⟨⟨100, 0, 0, 100, true, some true, true⟩, by decide +kernel, rfl⟩
  obtain ⟨result, tally, inFavour⟩ := htally
  refine ((rejected_votes_change_nothing weekly ballot).2 "p1" { ballotProposal with status := .active } 604800000000 result _
    (by decide +kernel) rfl rfl tally inFavour ?_).mpr ?_
  · intro c hm
    rw [List.mem_singleton.mp hm]
    decide
  · intro c hm
    rw [List.mem_singleton.mp hm]
    decide

end Ballot

end AgentNetwork.Marketplace
