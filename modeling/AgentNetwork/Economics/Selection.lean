import AgentNetwork.Economics.Reputation
import AgentNetwork.Library.RandomChoice
import AgentNetwork.Library.StableSort

namespace AgentNetwork

open Relational Transactional Transactional.Prog

structure DiversityConstraints where
  maxOrgPercentage : Rat := Double.nearest (3 / 10)
  maxAsnPercentage : Rat := Double.nearest (4 / 10)
  maxRegionPercentage : Rat := Double.nearest (5 / 10)
  deriving DecidableEq

inductive SelectionError
  | valueError (message : String)
  | choice (error : Python.ChoiceError)
  | economics (error : LedgerError)
  deriving DecidableEq

namespace VerifierSelector

/-- A row of the pool: a verifier under its id. -/
abbrev Candidate := String × VerifierRecord

/-- The three diversity checks: no value of the field has more than its share. -/
def checkShare (field : VerifierMetadata → String) (committee : List Candidate) (maxPct : Rat) : Bool :=
  let values := committee.map fun v => field v.2.metadata
  let maxAllowed := ⌈Double.scale committee.length maxPct⌉
  values.all fun value => decide ((values.count value : Int) ≤ maxAllowed)

def checkOrgDiversity : List Candidate → Rat → Bool := checkShare VerifierMetadata.orgId

def checkAsnDiversity : List Candidate → Rat → Bool := checkShare VerifierMetadata.asn

def checkRegionDiversity : List Candidate → Rat → Bool := checkShare VerifierMetadata.region

def enforceDiversity (constraints : DiversityConstraints) (committee : List Candidate) : Bool :=
  committee.isEmpty || (checkOrgDiversity committee constraints.maxOrgPercentage &&
    checkAsnDiversity committee constraints.maxAsnPercentage &&
    checkRegionDiversity committee constraints.maxRegionPercentage)

/-- `sorted_candidates[:k]`. -/
def sliceTo (k : Int) (l : List Candidate) : List Candidate := l.take (if k < 0 then l.length + k else k).toNat

/-- The loop of the fallback, which ends when the committee is full. -/
def selectGreedily (constraints : DiversityConstraints) (k : Int) (committee : List Candidate) :
    List Candidate → List Candidate
  | [] => committee
  | candidate :: rest =>
    if k ≤ committee.length then committee
    else if enforceDiversity constraints (committee ++ [candidate]) then
      selectGreedily constraints k (committee ++ [candidate]) rest
    else selectGreedily constraints k committee rest

section Select

-- `random` are the numbers that `random.random` returns one after another,
-- `decayFactor` is the float power of the reputation.
variable (sqrt decayFactor : Rat → Rat) (random : Nat → Rat)

def calculateWeight (verifier : Candidate) : Econ Rat := do
  raiseIf (verifier.2.stake < 0) (.valueError "math domain error")
  let stakeWeight := sqrt (Double.nearest verifier.2.stake)
  let reputation ← ReputationTracker.getReputation decayFactor verifier.1
  let now ← timeNs
  let ageDays := Double.nearest (Double.nearest (now - verifier.2.registeredAt : Int) / 86400000000000)
  let maxDecay := Double.nearest (1 / 5)
  let recencyFactor := Double.nearest (1 - min (Double.nearest (Double.nearest (ageDays / 365) * maxDecay)) maxDecay)
  let teeMultiplier := if verifier.2.metadata.teeVerified then 2 else 1
  pure (Double.nearest (Double.nearest (Double.nearest (stakeWeight * reputation) * recencyFactor) * teeMultiplier))

def calculateWeights : List Candidate → Econ (List Rat)
  | [] => pure []
  | verifier :: rest => do
    let weight ← calculateWeight sqrt decayFactor verifier
    let weights ← calculateWeights rest
    pure (weight :: weights)

/-- The draws of one attempt. -/
def drawsOf (k : Int) (attempt : Nat) : Nat → Rat := fun i => random (attempt * k.toNat + i)

/-- The first diverse of the next `left` draws of a committee. -/
def drawDiverse (constraints : DiversityConstraints) (k : Int) (candidates : List Candidate) (weights : List Rat)
    (attempt : Nat) : Nat → Except Python.ChoiceError (Option (List Candidate))
  | 0 => .ok none
  | left + 1 =>
    match Python.choices candidates weights (drawsOf random k attempt) k with
    | .error error => .error error
    | .ok committee =>
      if enforceDiversity constraints committee then .ok (some committee)
      else drawDiverse constraints k candidates weights (attempt + 1) left

def maxAttempts : Nat := 1000

def selectCommittee (k minStake : Int) (constraints : Option DiversityConstraints) :
    Prog SelectionError Db (List Candidate) := do
  let constraints := constraints.getD {}
  let candidates ← query (VerifierPool.getActiveVerifiers minStake)
  raiseIf (candidates.length < k)
    (.valueError s!"Insufficient qualified verifiers: need {k}, have {candidates.length}")
  let weights ← mapError .economics (calculateWeights sqrt decayFactor candidates)
  match drawDiverse random constraints k candidates weights 0 maxAttempts with
  | .error error => raise (.choice error)
  | .ok (some committee) => pure committee
  | .ok none =>
    -- best first; `sorted` with `reverse` keeps the order of equal weights
    let sortedCandidates := (StableSort.sortOn (fun c => -c.2) (candidates.zip weights)).map Prod.fst
    let committee := selectGreedily constraints k [] sortedCandidates
    if committee.length < k then pure (sliceTo k sortedCandidates) else pure committee

end Select

end VerifierSelector

end AgentNetwork
