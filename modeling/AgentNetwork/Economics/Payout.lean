import AgentNetwork.Economics.Bounties
import AgentNetwork.Library.Double

namespace AgentNetwork

open Relational Transactional Transactional.Prog

structure PartyInfo where
  accountId : String
  orgDomain : Option String
  asn : Option Int
  identityHash : Option String
  deriving DecidableEq

/-- The parties a `RelationshipDetector` has registered. -/
abbrev PartyCache := Table String PartyInfo

namespace RelationshipDetector

def registerParty (cache : PartyCache) (info : PartyInfo) : PartyCache := cache.upsert info.accountId info

/-- Some verifier shows the same mark as the challenger; `mark` is `none` where
the code skips the party. -/
def detectShared {α : Type} [DecidableEq α] (mark : PartyInfo → Option α) (cache : PartyCache)
    (verifiers : List String) (challenger : Option String) : Bool :=
  match (challenger.filter (· ≠ "")).bind fun c => (cache.get? c).bind mark with
  | none => false
  | some shared => verifiers.any fun v => ((cache.get? v).bind mark) = some shared

def detectSameOrg : PartyCache → List String → Option String → Bool :=
  detectShared fun info => info.orgDomain.filter (· ≠ "")

def detectSameAsn : PartyCache → List String → Option String → Bool :=
  detectShared PartyInfo.asn

def detectIdentityLinks : PartyCache → List String → Option String → Bool :=
  detectShared fun info => info.identityHash.filter (· ≠ "")

def detectAnyRelationship (cache : PartyCache) (verifiers : List String) (challenger : Option String) : Bool :=
  detectSameOrg cache verifiers challenger || detectSameAsn cache verifiers challenger ||
    detectIdentityLinks cache verifiers challenger

end RelationshipDetector

inductive ShareType
  | committee
  | challenger
  | burn
  deriving DecidableEq

structure PayoutShare where
  recipientId : String
  amount : Int
  shareType : ShareType
  deriving DecidableEq

/-- A distributor's own state; the bounties are in the database. -/
structure PayoutDistributor where
  partyCache : PartyCache
  invalidatedTasks : List String

namespace PayoutDistributor

/-- `T_CHALLENGE_NS`: five minutes. -/
def tChallengeNs : Int := 5 * 60 * 1000000000

/-- `total` split over the committee, the remainder with its first member. -/
def committeeShares (total : Int) (committee : List String) : List PayoutShare :=
  let share := total / committee.length
  match committee with
  | [] => []
  | first :: rest =>
    ⟨first, share + total % committee.length, .committee⟩ :: rest.map fun memberId => ⟨memberId, share, .committee⟩

/-- A challenger that is `None` or the empty string is none. -/
def givenChallenger (challenger : Option String) : Option String := challenger.filter (· ≠ "")

def challengerAmount (bountyAmount : Int) : Int := Double.trunc (Double.scale bountyAmount (Double.nearest (1 / 2)))

def verifierTotal (bountyAmount : Int) : Int := Double.trunc (Double.scale bountyAmount (Double.nearest (2 / 5)))

def calculateShares (bountyAmount : Int) (committee : List String) (challenger : Option String) :
    Except LedgerError (List PayoutShare) :=
  if committee = [] then .error (.valueError "Committee cannot be empty")
  else
    match givenChallenger challenger with
    | none => .ok (committeeShares bountyAmount committee)
    | some c =>
      if c ∈ committee then .error (.valueError "Challenger cannot be in committee")
      else
        let burnAmount := bountyAmount - challengerAmount bountyAmount - verifierTotal bountyAmount
        .ok (⟨c, challengerAmount bountyAmount, .challenger⟩ :: committeeShares (verifierTotal bountyAmount) committee ++
          if burnAmount > 0 then [⟨"burn", burnAmount, .burn⟩] else [])

def canPayout (distributor : PayoutDistributor) (taskId : String) (completionTime currentTime : Int) : Bool × String :=
  if taskId ∈ distributor.invalidatedTasks then (false, "Task has been invalidated")
  else
    let elapsed := currentTime - completionTime
    let requiredWait := 2 * tChallengeNs
    if elapsed < requiredWait then (false, s!"Challenge period not elapsed: {elapsed} < {requiredWait} ns")
    else (true, "OK")

def validateRelatedPartiesAdvanced (distributor : PayoutDistributor) (committee : List String)
    (challenger : Option String) : Bool :=
  match challenger with
  | none => true
  | some c => !(c ∈ committee) && !RelationshipDetector.detectAnyRelationship distributor.partyCache committee challenger

/-- `recipients[id] = recipients.get(id, 0) + amount` for one share; burn shares are left out. -/
def addShare (recipients : Table String Int) (share : PayoutShare) : Table String Int :=
  if share.shareType = .burn then recipients
  else recipients.upsert share.recipientId ((recipients.get? share.recipientId).getD 0 + share.amount)

def recipientsOf (shares : List PayoutShare) : Table String Int := shares.foldl addShare .empty

def executePayout (distributor : PayoutDistributor) (bountyId taskId : String) (committee : List String)
    (completionTime : Int) (challenger : Option String) (currentTime : Option Int) : Econ Unit := do
  let now ← timestampOr currentTime
  let (canPay, reason) := distributor.canPayout taskId completionTime now
  raiseIf (canPay = false) (.valueError s!"Cannot execute payout: {reason}")
  raiseIf (distributor.validateRelatedPartiesAdvanced committee challenger = false)
    (.valueError "Related party conflict detected")
  let bounty ← query (BountyManager.getBounty bountyId)
  match bounty with
  | none => raise (.valueError s!"Bounty not found: {bountyId}")
  | some bounty =>
    match calculateShares bounty.amount committee challenger with
    | .error e => raise e
    | .ok shares => BountyManager.distributeBounty bountyId (recipientsOf shares)

end PayoutDistributor

end AgentNetwork
