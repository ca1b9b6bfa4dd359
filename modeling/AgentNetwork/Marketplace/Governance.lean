import AgentNetwork.Library.PythonNumber
import AgentNetwork.Library.Table
import Mathlib.Algebra.Order.Ring.Rat

namespace AgentNetwork.Marketplace

open Relational Python

inductive VoteChoice
  | yes
  | no
  | abstain
  deriving DecidableEq

inductive ProposalStatus
  | pending
  | active
  | passed
  | rejected
  | executed
  | expired
  deriving DecidableEq

/-- How an error message shows a status. -/
def ProposalStatus.name : ProposalStatus → String
  | pending => "ProposalStatus.PENDING"
  | active => "ProposalStatus.ACTIVE"
  | passed => "ProposalStatus.PASSED"
  | rejected => "ProposalStatus.REJECTED"
  | executed => "ProposalStatus.EXECUTED"
  | expired => "ProposalStatus.EXPIRED"

/-- A value given for a parameter: a number as Python has it, or anything else. -/
inductive ParameterValue
  | int (n : Int)
  | bool (b : Bool)
  | float (x : Number)
  | other
  deriving DecidableEq

namespace ParameterValue

/-- `isinstance(value, int)`, which a boolean is. -/
def isInt : ParameterValue → Bool
  | int _ | bool _ => true
  | float _ | other => false

/-- What `isinstance(value, (int, float))` lets through, as a number. -/
def number? : ParameterValue → Option Number
  | int n => some (.finite n)
  | bool b => some (.finite (if b then 1 else 0))
  | float x => some x
  | other => none

end ParameterValue

/-- Times are microseconds since the first date that the calendar has. -/
structure Proposal where
  proposalId : String
  title : String
  description : String
  parameterChanges : Table String ParameterValue
  proposer : String
  stake : ℚ
  status : ProposalStatus
  votingStart : Option Int
  votingEnd : Option Int
  deriving DecidableEq

structure Vote where
  voterId : String
  choice : VoteChoice
  weight : ℚ
  deriving DecidableEq

structure Tally where
  yesVotes : ℚ
  noVotes : ℚ
  abstainVotes : ℚ
  totalVotes : ℚ
  quorumMet : Bool
  approvalMet : Option Bool
  passed : Bool
  deriving DecidableEq

inductive GovernanceError
  | valueError (message : String)
  | keyError (key : String)
  | typeError (message : String)
  | overflowError (message : String)
  deriving DecidableEq

/-- What a system is built with, and how a weight is written out. -/
structure GovernanceConfig where
  minStake : ℚ
  votingPeriodHours : Int
  quorumPercentage : ℚ
  approvalThreshold : ℚ
  weightText : ℚ → String

structure GovernanceSystem where
  proposals : Table String Proposal
  votes : Table String (Table String Vote)
  parameters : Table String ParameterValue
  totalVotingWeight : ℚ
  registeredVoters : Table String ℚ
  deriving DecidableEq

/-- The last microsecond that the calendar has. -/
def datetimeMax : Int := 315537897599999999

/-- `datetime + timedelta`. -/
def datetimeAdd (time period : Int) : Except GovernanceError Int :=
  if 0 ≤ time + period ∧ time + period ≤ datetimeMax then .ok (time + period)
  else .error (.overflowError "date value out of range")

namespace GovernanceSystem

def defaultParams : Table String ParameterValue :=
  (((Table.empty.upsert "k_plan" (.int 3)).upsert "k_result" (.int 5)).upsert "bounty_cap" (.float (.finite 1000))).upsert
    "slashing_percentage" (.float (.finite (Double.nearest (1 / 10))))

def new : GovernanceSystem := ⟨.empty, .empty, defaultParams, 0, .empty⟩

/-- The check of `k_plan` and `k_result`. -/
def checkPositiveInteger (param : String) (value : ParameterValue) : Except GovernanceError Unit :=
  if value.isInt = false ∨ value.number?.all (Number.le · (.finite 0)) then
    .error (.valueError s!"{param} must be a positive integer")
  else .ok ()

def validateParameter (param : String) (value : ParameterValue) : Except GovernanceError Unit :=
  if param = "k_plan" then checkPositiveInteger param value
  else if param = "k_result" then checkPositiveInteger param value
  else if param = "bounty_cap" then
    if value.number?.all (Number.le · (.finite 0)) then .error (.valueError "bounty_cap must be a positive number") else .ok ()
  else if param = "slashing_percentage" then
    if value.number?.all fun x => !(Number.le (.finite 0) x && Number.le x (.finite 1)) then
      .error (.valueError "slashing_percentage must be between 0 and 1")
    else .ok ()
  else .ok ()

def validateParameterChanges (parameterChanges : Table String ParameterValue) : Except GovernanceError Unit :=
  parameterChanges.entries.forM fun (param, value) => validateParameter param value

variable (config : GovernanceConfig)

def registerVoter (g : GovernanceSystem) (voterId : String) (weight : ℚ) : Except GovernanceError Unit × GovernanceSystem :=
  if weight ≤ 0 then (.error (.valueError "Weight must be positive"), g)
  else
    let oldWeight := (g.registeredVoters.get? voterId).getD 0
    (.ok (), { g with
      registeredVoters := g.registeredVoters.upsert voterId weight
      totalVotingWeight := g.totalVotingWeight - oldWeight + weight })

/-- The names of a proposal's changes, checked before their values. -/
def checkGovernable (parameterChanges : Table String ParameterValue) : Except GovernanceError Unit :=
  parameterChanges.keys.forM fun param =>
    if defaultParams.contains param = false then .error (.valueError s!"Parameter '{param}' is not governable") else .ok ()

/-- `proposalId` is the identifier that `uuid4` draws. -/
def submitProposal (g : GovernanceSystem) (proposalId proposer title description : String)
    (parameterChanges : Table String ParameterValue) (stake : ℚ) : Except GovernanceError String × GovernanceSystem :=
  if stake < config.minStake then
    let text := config.weightText stake
    let least := config.weightText config.minStake
    (.error (.valueError s!"Insufficient stake: {text} < {least}"), g)
  else
    match checkGovernable parameterChanges with
    | .error e => (.error e, g)
    | .ok () =>
      match validateParameterChanges parameterChanges with
      | .error e => (.error e, g)
      | .ok () =>
        (.ok proposalId, { g with
          proposals := g.proposals.upsert proposalId
            ⟨proposalId, title, description, parameterChanges, proposer, stake, .pending, none, none⟩ })

def noProposal (proposalId : String) : GovernanceError := .valueError s!"Proposal {proposalId} does not exist"

def setProposal (g : GovernanceSystem) (proposalId : String) (proposal : Proposal) : GovernanceSystem :=
  { g with proposals := g.proposals.set proposalId proposal }

def startVoting (g : GovernanceSystem) (now : Int) (proposalId : String) : Except GovernanceError Unit × GovernanceSystem :=
  match g.proposals.get? proposalId with
  | none => (.error (noProposal proposalId), g)
  | some proposal =>
    if proposal.status ≠ .pending then
      (.error (.valueError s!"Proposal must be pending to start voting (status: {proposal.status.name})"), g)
    else
      let active := { proposal with status := .active, votingStart := some now }
      match datetimeAdd now (config.votingPeriodHours * 3600000000) with
      | .error e => (.error e, g.setProposal proposalId active)
      | .ok votingEnd =>
        (.ok (), { g.setProposal proposalId { active with votingEnd := some votingEnd } with
          votes := g.votes.upsert proposalId .empty })

def vote (g : GovernanceSystem) (now : Int) (proposalId voterId : String) (choice : VoteChoice) (weight : ℚ) :
    Except GovernanceError Unit × GovernanceSystem :=
  match g.proposals.get? proposalId with
  | none => (.error (noProposal proposalId), g)
  | some proposal =>
    if proposal.status ≠ .active then
      (.error (.valueError s!"Voting not active for proposal {proposalId} (status: {proposal.status.name})"), g)
    else
      match proposal.votingEnd with
      | none => (.error (.typeError "'>' not supported between instances of 'datetime.datetime' and 'NoneType'"), g)
      | some votingEnd =>
        if now > votingEnd then
          (.error (.valueError "Voting period has expired"), g.setProposal proposalId { proposal with status := .expired })
        else if weight ≤ 0 then (.error (.valueError "Weight must be positive"), g)
        else
          match g.registeredVoters.get? voterId with
          | none => (.error (.valueError s!"Voter {voterId} is not registered"), g)
          | some registered =>
            if weight > registered then
              let text := config.weightText weight
              let most := config.weightText registered
              (.error (.valueError s!"Weight {text} exceeds voter's registered weight {most}"), g)
            else
              match g.votes.get? proposalId with
              | none => (.error (.keyError proposalId), g)
              | some votes =>
                (.ok (), { g with votes := g.votes.set proposalId (votes.upsert voterId ⟨voterId, choice, weight⟩) })

/-- The weight of the votes for one choice. -/
def votesFor (votes : Table String Vote) (choice : VoteChoice) : ℚ :=
  votes.total fun _ vote => if vote.choice = choice then vote.weight else 0

def tallyVotes (g : GovernanceSystem) (proposalId : String) : Except GovernanceError Tally :=
  if g.proposals.contains proposalId = false then .error (noProposal proposalId)
  else
    match g.votes.get? proposalId with
    | none => .ok ⟨0, 0, 0, 0, false, none, false⟩
    | some votes =>
      let yesVotes := votesFor votes .yes
      let noVotes := votesFor votes .no
      let abstainVotes := votesFor votes .abstain
      let totalVotes := yesVotes + noVotes + abstainVotes
      let quorumMet :=
        if g.totalVotingWeight > 0 then decide (totalVotes / g.totalVotingWeight ≥ config.quorumPercentage) else false
      let votesForApproval := yesVotes + noVotes
      let approvalMet := if votesForApproval > 0 then decide (yesVotes / votesForApproval ≥ config.approvalThreshold) else false
      .ok ⟨yesVotes, noVotes, abstainVotes, totalVotes, quorumMet, some approvalMet, quorumMet && approvalMet⟩

def finalizeProposal (g : GovernanceSystem) (proposalId : String) : Except GovernanceError Unit × GovernanceSystem :=
  match g.proposals.get? proposalId with
  | none => (.error (noProposal proposalId), g)
  | some proposal =>
    if proposal.status ≠ .active then
      (.error (.valueError s!"Proposal must be active to finalize (status: {proposal.status.name})"), g)
    else
      match tallyVotes config g proposalId with
      | .error e => (.error e, g)
      | .ok result =>
        (.ok (), g.setProposal proposalId { proposal with status := if result.passed then .passed else .rejected })

/-- The changes of a proposal, written over the parameters one after the other. -/
def applyChanges (parameters parameterChanges : Table String ParameterValue) : Table String ParameterValue :=
  parameterChanges.entries.foldl (fun parameters (param, value) => parameters.upsert param value) parameters

def executeProposal (g : GovernanceSystem) (proposalId : String) : Except GovernanceError Unit × GovernanceSystem :=
  match g.proposals.get? proposalId with
  | none => (.error (noProposal proposalId), g)
  | some proposal =>
    if proposal.status ≠ .passed then
      (.error (.valueError s!"Proposal must be passed to execute (status: {proposal.status.name})"), g)
    else
      (.ok (), { g.setProposal proposalId { proposal with status := .executed } with
        parameters := applyChanges g.parameters proposal.parameterChanges })

end GovernanceSystem

inductive GovernanceCall
  | registerVoter (voterId : String) (weight : ℚ)
  | submitProposal (proposalId proposer title description : String) (parameterChanges : Table String ParameterValue) (stake : ℚ)
  | startVoting (proposalId : String)
  | vote (proposalId voterId : String) (choice : VoteChoice) (weight : ℚ)
  | finalizeProposal (proposalId : String)
  | executeProposal (proposalId : String)
  deriving DecidableEq

namespace GovernanceSystem

def call (config : GovernanceConfig) (g : GovernanceSystem) (now : Int) : GovernanceCall → Except GovernanceError Unit × GovernanceSystem
  | .registerVoter voterId weight => g.registerVoter voterId weight
  | .submitProposal proposalId proposer title description parameterChanges stake =>
    let (result, g') := g.submitProposal config proposalId proposer title description parameterChanges stake
    (result.map fun _ => (), g')
  | .startVoting proposalId => g.startVoting config now proposalId
  | .vote proposalId voterId choice weight => g.vote config now proposalId voterId choice weight
  | .finalizeProposal proposalId => g.finalizeProposal config proposalId
  | .executeProposal proposalId => g.executeProposal proposalId

/-- All that a call can do to the system, with what its checks have established. -/
inductive Effect (config : GovernanceConfig) (g : GovernanceSystem) (now : Int) :
    GovernanceCall → Except GovernanceError Unit → GovernanceSystem → Prop
  | refused (c : GovernanceCall) (e : GovernanceError) : Effect config g now c (.error e) g
  | registered {voterId : String} {weight : ℚ} (positive : 0 < weight) :
    Effect config g now (.registerVoter voterId weight) (.ok ())
      { g with
        registeredVoters := g.registeredVoters.upsert voterId weight
        totalVotingWeight := g.totalVotingWeight - (g.registeredVoters.get? voterId).getD 0 + weight }
  | submitted {proposalId proposer title description : String} {parameterChanges : Table String ParameterValue} {stake : ℚ}
    (valid : validateParameterChanges parameterChanges = .ok ()) :
    Effect config g now (.submitProposal proposalId proposer title description parameterChanges stake) (.ok ())
      { g with
        proposals := g.proposals.upsert proposalId
          ⟨proposalId, title, description, parameterChanges, proposer, stake, .pending, none, none⟩ }
  | unended {proposalId : String} {proposal : Proposal} {e : GovernanceError} (found : g.proposals.get? proposalId = some proposal)
    (status : proposal.status = .pending) :
    Effect config g now (.startVoting proposalId) (.error e)
      (g.setProposal proposalId { proposal with status := .active, votingStart := some now })
  | started {proposalId : String} {proposal : Proposal} {votingEnd : Int} (found : g.proposals.get? proposalId = some proposal)
    (status : proposal.status = .pending) :
    Effect config g now (.startVoting proposalId) (.ok ())
      { g.setProposal proposalId { proposal with status := .active, votingStart := some now, votingEnd := some votingEnd } with
        votes := g.votes.upsert proposalId .empty }
  | late {proposalId voterId : String} {choice : VoteChoice} {weight : ℚ} {proposal : Proposal} {votingEnd : Int}
    {e : GovernanceError} (found : g.proposals.get? proposalId = some proposal) (status : proposal.status = .active)
    (ending : proposal.votingEnd = some votingEnd) (past : votingEnd < now) :
    Effect config g now (.vote proposalId voterId choice weight) (.error e)
      (g.setProposal proposalId { proposal with status := .expired })
  | voted {proposalId voterId : String} {choice : VoteChoice} {weight registered : ℚ} {votes : Table String Vote}
    (cast : g.votes.get? proposalId = some votes) (voter : g.registeredVoters.get? voterId = some registered)
    (atMost : weight ≤ registered) :
    Effect config g now (.vote proposalId voterId choice weight) (.ok ())
      { g with votes := g.votes.set proposalId (votes.upsert voterId ⟨voterId, choice, weight⟩) }
  | finalized {proposalId : String} {proposal : Proposal} {result : Tally} (found : g.proposals.get? proposalId = some proposal)
    (status : proposal.status = .active) (tally : g.tallyVotes config proposalId = .ok result) :
    Effect config g now (.finalizeProposal proposalId) (.ok ())
      (g.setProposal proposalId { proposal with status := if result.passed then .passed else .rejected })
  | executed {proposalId : String} {proposal : Proposal} (found : g.proposals.get? proposalId = some proposal)
    (status : proposal.status = .passed) :
    Effect config g now (.executeProposal proposalId) (.ok ())
      { g.setProposal proposalId { proposal with status := .executed } with
        parameters := applyChanges g.parameters proposal.parameterChanges }

theorem call_effect (config : GovernanceConfig) (g : GovernanceSystem) (now : Int) (c : GovernanceCall) :
    Effect config g now c (g.call config now c).1 (g.call config now c).2 := by
  cases c with
  | registerVoter voterId weight =>
    simp only [call, registerVoter]
    split
    next => exact .refused ..
    next hpos => exact .registered (not_le.mp hpos)
  | submitProposal proposalId proposer title description parameterChanges stake =>
    simp only [call, submitProposal]
    split
    next => exact .refused ..
    next =>
      split
      next => exact .refused ..
      next =>
        split
        next => exact .refused ..
        next hvalid => exact .submitted hvalid
  | startVoting proposalId =>
    simp only [call, startVoting]
    split
    next => exact .refused ..
    next proposal hfound =>
      split
      next => exact .refused ..
      next hstatus =>
        have hstatus' := not_not.mp hstatus
        split
        next => exact .unended hfound hstatus'
        next => exact .started hfound hstatus'
  | vote proposalId voterId choice weight =>
    simp only [call, vote]
    split
    next => exact .refused ..
    next proposal hfound =>
      split
      next => exact .refused ..
      next hstatus =>
        split
        next => exact .refused ..
        next votingEnd hending =>
          split
          next hpast => exact .late hfound (not_not.mp hstatus) hending hpast
          next =>
            split
            next => exact .refused ..
            next =>
              split
              next => exact .refused ..
              next registered hvoter =>
                split
                next => exact .refused ..
                next hmost =>
                  split
                  next => exact .refused ..
                  next votes hcast => exact .voted hcast hvoter (not_lt.mp hmost)
  | finalizeProposal proposalId =>
    simp only [call, finalizeProposal]
    split
    next => exact .refused ..
    next proposal hfound =>
      split
      next => exact .refused ..
      next hstatus =>
        split
        next => exact .refused ..
        next result htally => exact .finalized hfound (not_not.mp hstatus) htally
  | executeProposal proposalId =>
    simp only [call, executeProposal]
    split
    next => exact .refused ..
    next proposal hfound =>
      split
      next => exact .refused ..
      next hstatus => exact .executed hfound (not_not.mp hstatus)

end GovernanceSystem

end AgentNetwork.Marketplace
