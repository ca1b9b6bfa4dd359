import AgentNetwork.Library.Traces
import AgentNetwork.Marketplace.Governance
import Mathlib.Algebra.Order.Field.Basic
import Mathlib.Tactic.Linarith

namespace AgentNetwork.Marketplace

open Relational Python Transition GovernanceSystem

/-- A system, the time of its last call and the proposals executed so far. -/
structure GovernanceHistory where
  system : GovernanceSystem
  clock : Int
  executed : List String
  deriving DecidableEq

/-- A call and the time at which it is made. -/
structure TimedCall where
  now : Int
  call : GovernanceCall

/-- The proposal that a call has executed. -/
def executedBy : GovernanceCall → Except GovernanceError Unit → List String
  | .executeProposal proposalId, .ok _ => [proposalId]
  | .executeProposal _, .error _ => []
  | .registerVoter _ _, _ | .submitProposal _ _ _ _ _ _, _ | .startVoting _, _ | .vote _ _ _ _, _ | .finalizeProposal _, _ => []

namespace GovernanceHistory

def new (start : Int) : GovernanceHistory := ⟨.new, start, []⟩

def call (config : GovernanceConfig) (h : GovernanceHistory) (c : TimedCall) : GovernanceHistory where
  system := (h.system.call config c.now c.call).2
  clock := c.now
  executed := h.executed ++ executedBy c.call (h.system.call config c.now c.call).1

def statusOf (h : GovernanceHistory) (proposalId : String) : Option ProposalStatus :=
  (h.system.proposals.get? proposalId).map Proposal.status

/-- `uuid4` does not draw the identifier of a proposal again. -/
def Fresh (h : GovernanceHistory) : GovernanceCall → Prop
  | .submitProposal proposalId _ _ _ _ _ => h.system.proposals.get? proposalId = none
  | .registerVoter _ _ | .startVoting _ | .vote _ _ _ _ | .finalizeProposal _ | .executeProposal _ => True

/-- The clock never goes back. -/
structure Step (config : GovernanceConfig) (h : GovernanceHistory) (c : TimedCall) (h' : GovernanceHistory) : Prop where
  monotone : h.clock ≤ c.now
  fresh : h.Fresh c.call
  result : h' = h.call config c

end GovernanceHistory

/-- A proposal has a majority: the voters, each with one vote and at most the weight
registered for it, reach the quorum of all registered weight, and enough of those who do
not abstain say yes. -/
structure Mandate (config : GovernanceConfig) (g : GovernanceSystem) (votes : Table String Vote) : Prop where
  registered : ∀ voterId vote, votes.get? voterId = some vote →
    ∃ weight, g.registeredVoters.get? voterId = some weight ∧ vote.weight ≤ weight
  weighted : 0 < g.totalVotingWeight
  quorum : config.quorumPercentage * g.totalVotingWeight ≤ votes.total fun _ vote => vote.weight
  decided : 0 < votesFor votes .yes + votesFor votes .no
  approval : config.approvalThreshold * (votesFor votes .yes + votesFor votes .no) ≤ votesFor votes .yes

/-- What a call may do to proposals and parameters. -/
structure Legitimate (config : GovernanceConfig) (h : GovernanceHistory) (c : TimedCall) (h' : GovernanceHistory) : Prop where
  passes : ∀ proposalId proposal, h'.system.proposals.get? proposalId = some proposal → proposal.status = .passed →
    h.statusOf proposalId ≠ some .passed →
    ∃ votingEnd votes, proposal.votingEnd = some votingEnd ∧ votingEnd ≤ c.now ∧
      h'.system.votes.get? proposalId = some votes ∧ Mandate config h'.system votes
  weights : h'.system.totalVotingWeight = h'.system.registeredVoters.total fun _ weight => weight
  executes : ∀ proposalId ∈ h'.executed, proposalId ∈ h.executed ∨ h.statusOf proposalId = some .passed
  once : h'.executed.Nodup
  otherwise : h'.executed = h.executed → h'.system.parameters = h.system.parameters
  valid : validateParameterChanges h'.system.parameters = .ok ()

/-- A proposal is finalized in favour only once its voting has ended, and when no vote on it
is heavier than what its voter is registered with by then. -/
def Timely (config : GovernanceConfig) (h : GovernanceHistory) (c : TimedCall) : Prop :=
  match c.call with
  | .finalizeProposal proposalId => ∀ proposal votes result, h.system.proposals.get? proposalId = some proposal →
    proposal.status = .active → h.system.votes.get? proposalId = some votes →
    h.system.tallyVotes config proposalId = .ok result → result.passed = true →
    (∀ votingEnd, proposal.votingEnd = some votingEnd → votingEnd ≤ c.now) ∧
      ∀ voterId vote weight, votes.get? voterId = some vote → h.system.registeredVoters.get? voterId = some weight →
        vote.weight ≤ weight
  | .registerVoter _ _ | .submitProposal _ _ _ _ _ _ | .startVoting _ | .vote _ _ _ _ | .executeProposal _ => True

section Validation

variable {t changes : Table String ParameterValue} {param : String} {value : ParameterValue}

theorem forM_ok {α ε : Type} {xs : List α} {f : α → Except ε Unit} : xs.forM f = .ok () ↔ ∀ x ∈ xs, f x = .ok () := by
  induction xs with
  | nil => simp [pure, Except.pure]
  | cons x xs ih =>
    cases hx : f x with
    | error e => simp [hx, bind, Except.bind]
    | ok u => simpa [hx, bind, Except.bind] using ih

theorem validate_iff : validateParameterChanges t = .ok () ↔
    ∀ param value, t.get? param = some value → validateParameter param value = .ok () := by
  unfold validateParameterChanges
  rw [forM_ok]
  constructor
  · exact fun h param value hget => h (param, value) (Table.get?_eq_some_iff.mp hget)
  · exact fun h entry hm => h entry.1 entry.2 (Table.get?_eq_some_iff.mpr hm)

theorem validate_upsert (ht : validateParameterChanges t = .ok ()) (hvalue : validateParameter param value = .ok ()) :
    validateParameterChanges (t.upsert param value) = .ok () := by
  rw [validate_iff] at ht ⊢
  intro param' value' hget
  rw [Table.get?_upsert] at hget
  split at hget
  next heq =>
    cases hget
    exact heq ▸ hvalue
  next => exact ht param' value' hget

/-- Valid changes keep valid parameters valid. -/
theorem validate_applyChanges (ht : validateParameterChanges t = .ok ()) (hchanges : validateParameterChanges changes = .ok ()) :
    validateParameterChanges (applyChanges t changes) = .ok () := by
  have hentries : ∀ entry ∈ changes.entries, validateParameter entry.1 entry.2 = .ok () :=
    fun entry hm => validate_iff.mp hchanges _ _ (Table.get?_eq_some_iff.mpr hm)
  unfold applyChanges
  generalize changes.entries = entries at hentries
  induction entries generalizing t with
  | nil => exact ht
  | cons entry entries ih =>
    have hfirst := validate_upsert ht (hentries entry List.mem_cons_self)
    exact ih hfirst fun e hm => hentries e (List.mem_cons_of_mem _ hm)

/-- Every default passes its own check. -/
theorem validate_defaultParams : validateParameterChanges defaultParams = .ok () := by
  decide +kernel

end Validation

/-- What every call keeps. -/
structure Governed (g : GovernanceSystem) (executed : List String) : Prop where
  weights : g.totalVotingWeight = g.registeredVoters.total fun _ weight => weight
  started : ∀ {proposalId votes}, g.votes.get? proposalId = some votes →
    ∃ proposal votingEnd, g.proposals.get? proposalId = some proposal ∧ proposal.votingEnd = some votingEnd
  voters : ∀ {proposalId votes voterId vote}, g.votes.get? proposalId = some votes → votes.get? voterId = some vote →
    ∃ weight, g.registeredVoters.get? voterId = some weight
  ran : ∀ proposalId ∈ executed, (g.proposals.get? proposalId).map Proposal.status = some .executed
  once : executed.Nodup
  changes : ∀ {proposalId proposal}, g.proposals.get? proposalId = some proposal →
    validateParameterChanges proposal.parameterChanges = .ok ()
  parameters : validateParameterChanges g.parameters = .ok ()

section Invariant

variable {config : GovernanceConfig} {g : GovernanceSystem} {executed : List String} {proposalId : String}
  {proposal : Proposal}

theorem governed_new : Governed .new [] where
  weights := rfl
  started hget := by cases hget
  voters hget := by cases hget
  ran _ hm := by cases hm
  once := List.nodup_nil
  changes hget := by cases hget
  parameters := validate_defaultParams

theorem get?_setProposal (found : g.proposals.get? proposalId = some proposal) (proposal' : Proposal) (id : String) :
    (g.setProposal proposalId proposal').proposals.get? id =
      if id = proposalId then some proposal' else g.proposals.get? id := by
  simp [setProposal, found]

theorem Governed.not_executed (hg : Governed g executed) (found : g.proposals.get? proposalId = some proposal)
    (hstatus : proposal.status ≠ .executed) : proposalId ∉ executed := by
  intro hm
  have h := hg.ran proposalId hm
  rw [found, Option.map_some, Option.some.injEq] at h
  exact hstatus h

/-- A proposal that goes on with its life. -/
theorem Governed.setProposal (hg : Governed g executed) (proposal' : Proposal) (found : g.proposals.get? proposalId = some proposal)
    (hstatus : proposal.status ≠ .executed) (hchanges : proposal'.parameterChanges = proposal.parameterChanges)
    (hend : ∀ votingEnd, proposal.votingEnd = some votingEnd → ∃ votingEnd', proposal'.votingEnd = some votingEnd') :
    Governed (g.setProposal proposalId proposal') executed where
  weights := hg.weights
  started := by
    intro id votes hget
    obtain ⟨p, votingEnd, hp, hpend⟩ := hg.started hget
    by_cases hid : id = proposalId
    · subst hid
      cases found.symm.trans hp
      obtain ⟨votingEnd', hend'⟩ := hend votingEnd hpend
      exact ⟨proposal', votingEnd', by rw [get?_setProposal found, if_pos rfl], hend'⟩
    · exact ⟨p, votingEnd, by rw [get?_setProposal found, if_neg hid, hp], hpend⟩
  voters := hg.voters
  ran id hm := by
    have hne : id ≠ proposalId := by
      rintro rfl
      exact hg.not_executed found hstatus hm
    rw [get?_setProposal found, if_neg hne]
    exact hg.ran id hm
  once := hg.once
  changes := by
    intro id p hget
    rw [get?_setProposal found] at hget
    split at hget
    next =>
      cases hget
      rw [hchanges]
      exact hg.changes found
    next => exact hg.changes hget
  parameters := hg.parameters

/-- The votes on a proposal whose voting has an end. -/
theorem Governed.setVotes (hg : Governed g executed) (votes : Table String Vote) (t : Table String (Table String Vote))
    {votingEnd : Int} (found : g.proposals.get? proposalId = some proposal) (hend : proposal.votingEnd = some votingEnd)
    (hvoters : ∀ voterId vote, votes.get? voterId = some vote → ∃ weight, g.registeredVoters.get? voterId = some weight)
    (ht : ∀ id, t.get? id = if id = proposalId then some votes else g.votes.get? id) :
    Governed { g with votes := t } executed where
  weights := hg.weights
  started := by
    intro id votes' hget
    rw [ht] at hget
    split at hget
    next hid => exact ⟨proposal, votingEnd, hid ▸ found, hend⟩
    next => exact hg.started hget
  voters := by
    intro id votes' voterId vote hget hvote
    rw [ht] at hget
    split at hget
    next =>
      cases hget
      exact hvoters voterId vote hvote
    next => exact hg.voters hget hvote
  ran := hg.ran
  once := hg.once
  changes := hg.changes
  parameters := hg.parameters

theorem Governed.starts (hg : Governed g executed) (proposal' : Proposal) (found : g.proposals.get? proposalId = some proposal)
    (hstatus : proposal.status ≠ .executed) (hchanges : proposal'.parameterChanges = proposal.parameterChanges)
    {votingEnd : Int} (hend : proposal'.votingEnd = some votingEnd) :
    Governed { g.setProposal proposalId proposal' with votes := g.votes.upsert proposalId .empty } executed := by
  have hset := hg.setProposal proposal' found hstatus hchanges fun _ _ => ⟨votingEnd, hend⟩
  have hfound : (g.setProposal proposalId proposal').proposals.get? proposalId = some proposal' := by
    rw [get?_setProposal found, if_pos rfl]
  exact hset.setVotes .empty _ hfound hend nofun fun id => Table.get?_upsert ..

theorem Governed.votes (hg : Governed g executed) {votes : Table String Vote} {voterId : String} {registered : ℚ}
    (cast : g.votes.get? proposalId = some votes) (voter : g.registeredVoters.get? voterId = some registered)
    (choice : VoteChoice) (weight : ℚ) :
    Governed { g with votes := g.votes.set proposalId (votes.upsert voterId ⟨voterId, choice, weight⟩) } executed := by
  obtain ⟨proposal, votingEnd, found, hend⟩ := hg.started cast
  refine hg.setVotes (votes.upsert voterId ⟨voterId, choice, weight⟩) _ found hend ?_ fun id => by simp [cast]
  intro voter' vote' hget
  rw [Table.get?_upsert] at hget
  split at hget
  next heq => exact ⟨registered, heq ▸ voter⟩
  next => exact hg.voters cast hget

theorem Governed.registers (hg : Governed g executed) (voterId : String) (weight : ℚ) :
    Governed { g with
      registeredVoters := g.registeredVoters.upsert voterId weight
      totalVotingWeight := g.totalVotingWeight - (g.registeredVoters.get? voterId).getD 0 + weight } executed where
  weights := by
    have htotal := Table.total_upsert g.registeredVoters voterId weight fun _ weight => weight
    have hold : ((g.registeredVoters.get? voterId).map fun weight => weight).getD 0 =
        (g.registeredVoters.get? voterId).getD 0 := by simp
    have hweights := hg.weights
    rw [hold] at htotal
    dsimp only
    linarith
  started := hg.started
  voters := by
    intro id votes voter vote hget hvote
    obtain ⟨old, hold⟩ := hg.voters hget hvote
    by_cases hv : voter = voterId
    · exact ⟨weight, by simp [hv]⟩
    · exact ⟨old, by simpa [hv] using hold⟩
  ran := hg.ran
  once := hg.once
  changes := hg.changes
  parameters := hg.parameters

theorem Governed.submits (hg : Governed g executed) (hfresh : g.proposals.get? proposalId = none)
    (hvalid : validateParameterChanges proposal.parameterChanges = .ok ()) :
    Governed { g with proposals := g.proposals.upsert proposalId proposal } executed where
  weights := hg.weights
  started := by
    intro id votes hget
    obtain ⟨p, votingEnd, hp, hpend⟩ := hg.started hget
    have hne : id ≠ proposalId := by
      rintro rfl
      exact absurd (hfresh.symm.trans hp) nofun
    exact ⟨p, votingEnd, by simpa [hne] using hp, hpend⟩
  voters := hg.voters
  ran id hm := by
    have hexecuted := hg.ran id hm
    have hne : id ≠ proposalId := by
      rintro rfl
      simp [hfresh] at hexecuted
    simpa [hne] using hexecuted
  once := hg.once
  changes := by
    intro id p hget
    rw [Table.get?_upsert] at hget
    split at hget
    next =>
      cases hget
      exact hvalid
    next => exact hg.changes hget
  parameters := hg.parameters

theorem Governed.executes (hg : Governed g executed) (found : g.proposals.get? proposalId = some proposal)
    (hstatus : proposal.status = .passed) :
    Governed { g.setProposal proposalId { proposal with status := .executed } with
      parameters := applyChanges g.parameters proposal.parameterChanges } (executed ++ [proposalId]) := by
  have hne : proposal.status ≠ .executed := by simp [hstatus]
  have hset : Governed (g.setProposal proposalId { proposal with status := .executed }) executed :=
    hg.setProposal _ found hne rfl fun votingEnd h => ⟨votingEnd, h⟩
  refine ⟨hset.weights, hset.started, hset.voters, ?_, ?_, hset.changes, ?_⟩
  · intro id hm
    rcases List.mem_append.mp hm with hm | hm
    · exact hset.ran id hm
    · rw [List.mem_singleton.mp hm]
      simp only [get?_setProposal found, if_true, Option.map_some]
  · refine List.nodup_append.mpr ⟨hg.once, List.nodup_singleton _, ?_⟩
    rintro id hm _ hm' rfl
    rw [List.mem_singleton.mp hm'] at hm
    exact hg.not_executed found hne hm
  · exact validate_applyChanges hg.parameters (hg.changes found)

theorem Governed.effect (hg : Governed g executed) {now : Int} {c : GovernanceCall} {result : Except GovernanceError Unit}
    {g' : GovernanceSystem} (he : Effect config g now c result g')
    (hfresh : ∀ clock, (⟨g, clock, executed⟩ : GovernanceHistory).Fresh c) : Governed g' (executed ++ executedBy c result) := by
  have hkeep : ∀ proposal : Proposal, ∀ votingEnd, proposal.votingEnd = some votingEnd → ∃ votingEnd', proposal.votingEnd = some votingEnd' :=
    fun proposal votingEnd h => ⟨votingEnd, h⟩
  cases he with
  | refused c e => cases c <;> simpa [executedBy] using hg
  | registered positive => simpa [executedBy] using hg.registers _ _
  | submitted valid => simpa [executedBy] using hg.submits (hfresh 0) valid
  | @unended _ proposal _ found status =>
    have hne : proposal.status ≠ .executed := by simp [status]
    simpa [executedBy] using hg.setProposal { proposal with status := .active, votingStart := some now } found hne rfl (hkeep proposal)
  | @started _ proposal votingEnd found status =>
    have hne : proposal.status ≠ .executed := by simp [status]
    simpa [executedBy] using hg.starts { proposal with status := .active, votingStart := some now, votingEnd := some votingEnd }
      found hne rfl rfl
  | @late _ _ _ _ proposal _ _ found status ending past =>
    have hne : proposal.status ≠ .executed := by simp [status]
    simpa [executedBy] using hg.setProposal { proposal with status := .expired } found hne rfl (hkeep proposal)
  | voted cast voter atMost => simpa [executedBy] using hg.votes cast voter _ _
  | @finalized _ proposal result found status tally =>
    have hne : proposal.status ≠ .executed := by simp [status]
    simpa [executedBy] using hg.setProposal { proposal with status := if result.passed then .passed else .rejected }
      found hne rfl (hkeep proposal)
  | executed found status => exact hg.executes found status

/-- A proposal becomes PASSED only by a finalization whose tally is in its favour. -/
theorem passed_by_finalization {now : Int} {c : GovernanceCall} {result : Except GovernanceError Unit} {g' : GovernanceSystem}
    (he : Effect config g now c result g') (hget : g'.proposals.get? proposalId = some proposal)
    (hpassed : proposal.status = .passed) (hbefore : (g.proposals.get? proposalId).map Proposal.status ≠ some .passed) :
    ∃ old tally, c = .finalizeProposal proposalId ∧ g.proposals.get? proposalId = some old ∧ old.status = .active ∧
      old.votingEnd = proposal.votingEnd ∧ g.tallyVotes config proposalId = .ok tally ∧ tally.passed = true ∧
      g'.votes = g.votes ∧ g'.registeredVoters = g.registeredVoters ∧ g'.totalVotingWeight = g.totalVotingWeight := by
  -- where the proposal is the one it was, it was PASSED before
  have hsame : g.proposals.get? proposalId ≠ some proposal := by
    intro h
    exact hbefore (by rw [h, Option.map_some, hpassed])
  have hset : ∀ {id old new}, g.proposals.get? id = some old → (g.setProposal id new).proposals.get? proposalId = some proposal →
      id = proposalId ∧ new = proposal := by
    intro id old new found h
    rw [get?_setProposal found] at h
    split at h
    next heq => exact ⟨heq.symm, Option.some.inj h⟩
    next => exact absurd h hsame
  cases he with
  | refused c e => exact absurd hget hsame
  | registered positive => exact absurd hget hsame
  | submitted valid =>
    rw [Table.get?_upsert] at hget
    split at hget
    next =>
      cases hget
      cases hpassed
    next => exact absurd hget hsame
  | unended found status =>
    obtain ⟨_, rfl⟩ := hset found hget
    cases hpassed
  | started found status =>
    obtain ⟨_, rfl⟩ := hset found hget
    cases hpassed
  | late found status ending past =>
    obtain ⟨_, rfl⟩ := hset found hget
    cases hpassed
  | voted cast voter atMost => exact absurd hget hsame
  | @finalized _ old tally found status htally =>
    obtain ⟨rfl, rfl⟩ := hset found hget
    cases hresult : tally.passed with
    | true => exact ⟨old, tally, rfl, found, status, rfl, htally, hresult, rfl, rfl, rfl⟩
    | false => simp [hresult] at hpassed
  | executed found status =>
    obtain ⟨_, rfl⟩ := hset found hget
    cases hpassed

theorem total_votesFor (votes : Table String Vote) :
    votesFor votes .yes + votesFor votes .no + votesFor votes .abstain = votes.total fun _ vote => vote.weight := by
  unfold votesFor
  rw [← Table.total_add, ← Table.total_add]
  congr 1
  funext _ vote
  cases vote.choice <;> simp

/-- What a tally in favour says. -/
theorem tally_passed {result : Tally} (h : g.tallyVotes config proposalId = .ok result) (hpassed : result.passed = true) :
    ∃ votes, g.votes.get? proposalId = some votes ∧ 0 < g.totalVotingWeight ∧
      config.quorumPercentage * g.totalVotingWeight ≤ (votes.total fun _ vote => vote.weight) ∧
      0 < votesFor votes .yes + votesFor votes .no ∧
      config.approvalThreshold * (votesFor votes .yes + votesFor votes .no) ≤ votesFor votes .yes := by
  unfold tallyVotes at h
  split at h
  next => cases h
  next =>
    split at h
    next =>
      cases h
      cases hpassed
    next votes hget =>
      cases h
      obtain ⟨hquorum, happroval⟩ := Bool.and_eq_true_iff.mp hpassed
      split at hquorum
      next hweight =>
        split at happroval
        next hdecided =>
          have hquorum' := of_decide_eq_true hquorum
          have happroval' := of_decide_eq_true happroval
          rw [total_votesFor] at hquorum'
          exact ⟨votes, hget, hweight, (le_div_iff₀ hweight).mp hquorum', hdecided, (le_div_iff₀ hdecided).mp happroval'⟩
        next => cases happroval
      next => cases hquorum

section Steps

variable {h h' : GovernanceHistory} {c : TimedCall}

theorem GovernanceHistory.Step.governed (hg : Governed h.system h.executed) (hstep : GovernanceHistory.Step config h c h') :
    Governed h'.system h'.executed := by
  rw [hstep.result]
  apply hg.effect (call_effect config h.system c.now c.call)
  have hfresh := hstep.fresh
  intro clock
  cases hc : c.call <;> rw [hc] at hfresh <;> exact hfresh

/-- The checks that finalization leaves out. -/
theorem Timely.passes (hg : Governed h.system h.executed) (htimely : Timely config h c)
    (hget : (h.call config c).system.proposals.get? proposalId = some proposal) (hpassed : proposal.status = .passed)
    (hbefore : h.statusOf proposalId ≠ some .passed) :
    ∃ votingEnd votes, proposal.votingEnd = some votingEnd ∧ votingEnd ≤ c.now ∧
      (h.call config c).system.votes.get? proposalId = some votes ∧ Mandate config (h.call config c).system votes := by
  obtain ⟨old, tally, hcall, found, status, hend, htally, hresult, hvotes, hvoters, htotal⟩ :=
    passed_by_finalization (call_effect config h.system c.now c.call) hget hpassed hbefore
  obtain ⟨votes, hcast, hweighted, hquorum, hdecided, happroval⟩ := tally_passed htally hresult
  obtain ⟨old', votingEnd, found', hend'⟩ := hg.started hcast
  cases found.symm.trans found'
  unfold Timely at htimely
  rw [hcall] at htimely
  obtain ⟨hover, hmost⟩ := htimely old votes tally found status hcast htally hresult
  refine ⟨votingEnd, votes, hend.symm.trans hend', hover votingEnd hend', hvotes ▸ hcast, ?_, ?_, ?_, hdecided, happroval⟩
  · intro voterId vote hvote
    obtain ⟨weight, hweight⟩ := hg.voters hcast hvote
    exact ⟨weight, hvoters ▸ hweight, hmost voterId vote weight hvote hweight⟩
  · exact htotal ▸ hweighted
  · exact htotal ▸ hquorum

/-- A finalization that decides for a proposal does what is legitimate only in time. -/
theorem Legitimate.timely (hlegit : Legitimate config h c (h.call config c)) : Timely config h c := by
  unfold Timely
  split
  next proposalId hcall =>
    intro proposal votes result found status hcast htally hresult
    have hsystem : (h.call config c).system = h.system.setProposal proposalId { proposal with status := .passed } := by
      simp [GovernanceHistory.call, hcall, GovernanceSystem.call, finalizeProposal, found, status, htally, hresult]
    have hget : (h.call config c).system.proposals.get? proposalId = some { proposal with status := .passed } := by
      rw [hsystem, get?_setProposal found, if_pos rfl]
    have hbefore : h.statusOf proposalId ≠ some .passed := by
      simp [GovernanceHistory.statusOf, found, status]
    obtain ⟨votingEnd, votes', hend, hover, hcast', hmandate⟩ := hlegit.passes proposalId _ hget rfl hbefore
    rw [hsystem] at hcast' hmandate
    cases hcast.symm.trans hcast'
    refine ⟨?_, ?_⟩
    · intro votingEnd' hend'
      cases hend.symm.trans hend'
      exact hover
    · intro voterId vote weight hvote hweight
      obtain ⟨weight', hweight', hle⟩ := hmandate.registered voterId vote hvote
      cases hweight.symm.trans hweight'
      exact hle
  all_goals trivial

theorem executes_passed (hc : proposalId ∈ (h.call config c).executed) :
    proposalId ∈ h.executed ∨ h.statusOf proposalId = some .passed := by
  rcases List.mem_append.mp hc with hc | hc
  · exact Or.inl hc
  · right
    have he := call_effect config h.system c.now c.call
    generalize (h.system.call config c.now c.call).1 = result at he hc
    generalize (h.system.call config c.now c.call).2 = g' at he
    generalize c.call = call at he hc
    cases he with
    | executed found status =>
      rw [List.mem_singleton.mp hc]
      simp [GovernanceHistory.statusOf, found, status]
    | refused call e => cases call <;> cases hc
    | _ => cases hc

/-- Parameters change only by the execution of a proposal. -/
theorem parameters_unless_executed (hc : (h.call config c).executed = h.executed) :
    (h.call config c).system.parameters = h.system.parameters := by
  have hnone : executedBy c.call (h.system.call config c.now c.call).1 = [] := by
    simpa [GovernanceHistory.call] using hc
  have he := call_effect config h.system c.now c.call
  change (h.system.call config c.now c.call).2.parameters = _
  generalize (h.system.call config c.now c.call).1 = result at he hnone
  generalize (h.system.call config c.now c.call).2 = g' at he
  generalize c.call = call at he hnone
  cases he with
  | executed found status => cases hnone
  | _ => rfl

theorem legitimate_iff_timely (hg : Governed h.system h.executed) (hstep : GovernanceHistory.Step config h c h') :
    Legitimate config h c h' ↔ Timely config h c := by
  have hg' := hstep.governed hg
  obtain rfl := hstep.result
  constructor
  · exact Legitimate.timely
  · exact fun htimely => ⟨fun _ _ => htimely.passes hg, hg'.weights, fun _ => executes_passed, hg'.once,
      parameters_unless_executed, hg'.parameters⟩

end Steps

end Invariant

/-- A run passes and executes only what was voted just when each of its finalizations in
favour comes once the voting has ended, with no vote heavier than its voter. -/
theorem governance_passes_what_was_voted (config : GovernanceConfig) (start : Int) {steps : List (GovernanceHistory × TimedCall × GovernanceHistory)}
    {h : GovernanceHistory} (run : Trace (GovernanceHistory.Step config) (.new start) steps h) :
    (∀ e ∈ steps, Legitimate config e.1 e.2.1 e.2.2) ↔ ∀ e ∈ steps, Timely config e.1 e.2.1 :=
  run.forall_iff (I := fun h => Governed h.system h.executed) governed_new
    (fun hg _ hstep => hstep.governed hg) legitimate_iff_timely

section Ballot

/-- The defaults, with percentages as written. -/
def weekly : GovernanceConfig := ⟨100, 168, 1 / 5, 51 / 100, fun weight => toString weight.num⟩

def ballotCalls : List TimedCall :=
  [⟨0, .registerVoter "alice" 100⟩, ⟨0, .submitProposal "p1" "alice" "Raise k_plan" "" (Table.empty.upsert "k_plan" (.int 4)) 100⟩,
    ⟨0, .startVoting "p1"⟩, ⟨1, .vote "p1" "alice" .yes 100⟩]

/-- The proposal once it has passed. -/
def ballotProposal : Proposal :=
  ⟨"p1", "Raise k_plan", "", Table.empty.upsert "k_plan" (.int 4), "alice", 100, .passed, some 0, some 604800000000⟩

def ballotSteps (finalized : Int) : List (GovernanceHistory × TimedCall × GovernanceHistory) :=
  stepsOf (GovernanceHistory.call weekly) (.new 0) (ballotCalls ++ [⟨finalized, .finalizeProposal "p1"⟩])

theorem ballot_reached : Trace (GovernanceHistory.Step weekly) (.new 0) (stepsOf (GovernanceHistory.call weekly) (.new 0) ballotCalls)
    (ballotCalls.foldl (GovernanceHistory.call weekly) (.new 0)) := by
  refine Trace.ofCalls ?_
  simp only [ballotCalls, stepsOf, List.forall_mem_cons]
  exact ⟨⟨le_refl 0, trivial, rfl⟩, ⟨le_refl 0, rfl, rfl⟩, ⟨le_refl 0, trivial, rfl⟩, ⟨by decide +kernel, trivial, rfl⟩, List.forall_mem_nil _⟩

/-- One voter votes for the one proposal, which is finalized then. -/
theorem ballot_run {finalized : Int} (h : 1 ≤ finalized) :
    ∃ s, Trace (GovernanceHistory.Step weekly) (.new 0) (ballotSteps finalized) s := by
  rw [ballotSteps, stepsOf_append]
  exact ⟨_, ballot_reached.next ⟨h, trivial, rfl⟩⟩

/-- The proposal passes at once, a week before its voting ends. -/
theorem passed_before_the_end : ¬∀ steps h, Trace (GovernanceHistory.Step weekly) (.new 0) steps h →
    ∀ e ∈ steps, Legitimate weekly e.1 e.2.1 e.2.2 := by
  intro hall
  obtain ⟨h, run⟩ := ballot_run (show (1 : Int) ≤ 2 by decide)
  have hlegit := hall _ h run _ (last_mem_stepsOf ..)
  obtain ⟨votingEnd, votes, hend, hover, _⟩ := hlegit.passes "p1" ballotProposal (by decide +kernel) rfl (by decide +kernel)
  cases hend
  exact absurd hover (by decide +kernel)

/-- A week later it passes as it should. -/
theorem governance_passes_what_was_voted_week :
    (∃ s, Trace (GovernanceHistory.Step weekly) (.new 0) (ballotSteps 604800000000) s) ∧
      ∀ e ∈ ballotSteps 604800000000, Legitimate weekly e.1 e.2.1 e.2.2 := by
  obtain ⟨h, run⟩ := ballot_run (show (1 : Int) ≤ 604800000000 by decide)
  refine ⟨⟨h, run⟩, (governance_passes_what_was_voted weekly 0 run).mpr ?_⟩
  simp only [ballotSteps, ballotCalls, List.cons_append, List.nil_append, stepsOf, List.forall_mem_cons]
  refine ⟨trivial, trivial, trivial, trivial, ?_, List.forall_mem_nil _⟩
  intro proposal votes result found status hcast htally hpassed
  have hproposal : proposal = { ballotProposal with status := .active } := Option.some.inj (found.symm.trans (by decide +kernel))
  have hvotes : votes = Table.empty.upsert "alice" ⟨"alice", .yes, 100⟩ := Option.some.inj (hcast.symm.trans (by decide +kernel))
  subst hproposal hvotes
  refine ⟨?_, ?_⟩
  · intro votingEnd hend
    cases hend
    exact le_refl _
  · intro voterId vote weight hvote hweight
    rw [Table.get?_upsert] at hvote
    split at hvote
    next heq =>
      subst heq
      cases hvote
      have hregistered : weight = 100 := Option.some.inj (hweight.symm.trans (by decide +kernel))
      exact hregistered.ge
    next => cases hvote

end Ballot

end AgentNetwork.Marketplace
