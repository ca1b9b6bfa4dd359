import AgentNetwork.Auction.Bidding
import AgentNetwork.Library.StableSort

/-! Scores of bids. Numbers are exact: a value that is no rational number has no score. -/

namespace AgentNetwork.Bidding

open Relational Python

abbrev Record := Table String Json

def rational? (value : Json) : Option ℚ :=
  match Number.ofJson? value with
  | some (.finite q) => some q
  | _ => none

/-- `len(value)`. -/
def length? : Json → Option Nat
  | .str s => some s.length
  | .arr items => some items.length
  | .obj fields => some fields.length
  | .null | .bool _ | .int _ | .float _ => none

/-- What a bid is scored by. -/
structure Criteria where
  cost : ℚ
  eta : ℚ
  reputation : ℚ
  capabilities : Nat
  deriving DecidableEq

namespace BidEvaluator

def weightCost : ℚ := 2 / 5
def weightEta : ℚ := 3 / 10
def weightReputation : ℚ := 1 / 5
def weightCapabilities : ℚ := 1 / 10

/-- A week, in seconds. -/
def maxEta : ℚ := 604800

def maxCapabilities : ℚ := 10

def costScore (budget cost : ℚ) : ℚ := if 0 < budget then 1 - min (cost / budget) 1 else 0

def etaScore (eta : ℚ) : ℚ := 1 - min (eta / maxEta) 1

def repScore (reputation : ℚ) : ℚ := min (max reputation 0) 1

def capScore (capabilities : Nat) : ℚ := min (capabilities / maxCapabilities) 1

def composite (budget : ℚ) (k : Criteria) : ℚ :=
  costScore budget k.cost * weightCost + etaScore k.eta * weightEta + repScore k.reputation * weightReputation +
    capScore k.capabilities * weightCapabilities

/-- The criteria that `score_bid` reads, with its defaults. -/
def criteria? (proposal : Record) (budget : Json) : Option Criteria := do
  let cost ← rational? ((proposal.get? "cost").getD budget)
  let eta ← rational? ((proposal.get? "eta").getD (.int 0))
  let reputation ← rational? ((proposal.get? "reputation").getD (.float "0.5"))
  let capabilities ← length? ((proposal.get? "capabilities").getD (.arr []))
  some ⟨cost, eta, reputation, capabilities⟩

def scoreBid (proposal : Record) (budget : Json) : Option ℚ := do
  let k ← criteria? proposal budget
  let budget ← rational? budget
  some (composite budget k * 100)

end BidEvaluator

/-- A bid as the dictionary that the auction keeps. -/
def Bid.toDict (b : Bid) : Record :=
  ⟨[("agent_id", .str b.agentId), ("proposal_id", b.proposalId), ("cost", b.cost), ("eta", b.eta),
    ("reputation", b.reputation), ("capabilities", b.capabilities), ("timestamp", .int b.timestamp)], by simp⟩

/-- A proposal whose numbers are exact, and whose capabilities have a length. -/
structure Proposal where
  fields : Record
  cost : (rational? (costOf fields)).isSome = true
  eta : (rational? ((fields.get? "eta").getD (.int 0))).isSome = true
  reputation : (rational? ((fields.get? "reputation").getD (.float "0.5"))).isSome = true
  capabilities : (length? ((fields.get? "capabilities").getD (.arr []))).isSome = true

/-- A bid as it is offered: when, by whom and with what proposal. -/
structure Offer where
  now : Int
  agentId : String
  proposal : Proposal

def Offer.call (o : Offer) : BidCall := ⟨o.now, o.agentId, o.proposal.fields⟩

def Offer.bid (o : Offer) : Bid := bidOf o.now o.agentId o.proposal.fields

/-- The criteria of a bid as numbers. -/
structure Bid.Has (b : Bid) (k : Criteria) : Prop where
  cost : rational? b.cost = some k.cost
  eta : rational? b.eta = some k.eta
  reputation : rational? b.reputation = some k.reputation
  capabilities : length? b.capabilities = some k.capabilities

theorem Offer.has (o : Offer) : ∃ k, o.bid.Has k := by
  obtain ⟨cost, hcost⟩ := Option.isSome_iff_exists.mp o.proposal.cost
  obtain ⟨eta, heta⟩ := Option.isSome_iff_exists.mp o.proposal.eta
  obtain ⟨reputation, hreputation⟩ := Option.isSome_iff_exists.mp o.proposal.reputation
  obtain ⟨capabilities, hcapabilities⟩ := Option.isSome_iff_exists.mp o.proposal.capabilities
  exact ⟨⟨cost, eta, reputation, capabilities⟩, hcost, heta, hreputation, hcapabilities⟩

theorem Bid.get?_toDict (b : Bid) :
    b.toDict.get? "cost" = some b.cost ∧ b.toDict.get? "eta" = some b.eta ∧
      b.toDict.get? "reputation" = some b.reputation ∧ b.toDict.get? "capabilities" = some b.capabilities ∧
      b.toDict.get? "timestamp" = some (.int b.timestamp) := by
  simp [Table.get?, Bid.toDict, List.lookup_cons]

open BidEvaluator in
theorem Bid.Has.scoreBid {b : Bid} {k : Criteria} (h : b.Has k) {budget : Json} {limit : ℚ} (hlimit : rational? budget = some limit) :
    scoreBid b.toDict budget = some (composite limit k * 100) := by
  obtain ⟨hcost, heta, hreputation, hcapabilities, _⟩ := b.get?_toDict
  simp only [BidEvaluator.scoreBid, criteria?, hcost, heta, hreputation, hcapabilities, Option.getD_some, h.cost, h.eta,
    h.reputation, h.capabilities, hlimit, Option.bind_eq_bind, Option.bind_some]

namespace BidEvaluator

/-- A share between nothing and everything. -/
def clamp (x : ℚ) : ℚ := min (max x 0) 1

/-- What a share below nothing earns beyond the full mark. -/
def bonus (x : ℚ) : ℚ := max (-x) 0

/-- What negative costs and times earn beyond the full marks. -/
def surplus (budget : ℚ) (k : Criteria) : ℚ :=
  (if 0 < budget then bonus (k.cost / budget) else 0) * weightCost + bonus (k.eta / maxEta) * weightEta

/-- What a bid misses of the full marks. -/
def shortfall (budget : ℚ) (k : Criteria) : ℚ :=
  (if 0 < budget then clamp (k.cost / budget) else 1) * weightCost + clamp (k.eta / maxEta) * weightEta +
    (1 - clamp k.reputation) * weightReputation + (1 - capScore k.capabilities) * weightCapabilities

theorem one_sub_min (x : ℚ) : 1 - min x 1 = 1 - clamp x + bonus x := by
  unfold clamp bonus
  rcases le_total x 0 with hx | hx
  · rw [max_eq_right hx, max_eq_left (neg_nonneg.mpr hx), min_eq_left (hx.trans zero_le_one), min_eq_left zero_le_one]
    linarith
  · rw [max_eq_left hx, max_eq_right (neg_nonpos.mpr hx), add_zero]

theorem costScore_eq (budget cost : ℚ) : costScore budget cost =
    1 - (if 0 < budget then clamp (cost / budget) else 1) + if 0 < budget then bonus (cost / budget) else 0 := by
  unfold costScore
  split
  · exact one_sub_min _
  · norm_num

theorem composite_eq (budget : ℚ) (k : Criteria) : composite budget k = 1 - shortfall budget k + surplus budget k := by
  rw [composite, costScore_eq, etaScore, one_sub_min, repScore, ← clamp, shortfall, surplus]
  unfold weightCost weightEta weightReputation weightCapabilities
  ring

theorem one_sub_min_nonneg (x : ℚ) : 0 ≤ 1 - min x 1 := sub_nonneg.mpr (min_le_right x 1)

theorem costScore_nonneg (budget cost : ℚ) : 0 ≤ costScore budget cost := by
  unfold costScore
  split
  · exact one_sub_min_nonneg _
  · exact le_rfl

theorem composite_nonneg (budget : ℚ) (k : Criteria) : 0 ≤ composite budget k := by
  have hcost := costScore_nonneg budget k.cost
  have heta : 0 ≤ etaScore k.eta := one_sub_min_nonneg _
  have hreputation : 0 ≤ repScore k.reputation := le_min (le_max_right _ _) zero_le_one
  have hcapabilities : 0 ≤ capScore k.capabilities :=
    le_min (div_nonneg (Nat.cast_nonneg _) (by norm_num [maxCapabilities])) zero_le_one
  unfold composite weightCost weightEta weightReputation weightCapabilities
  linarith

/-- A score is above its scale when the surplus outweighs what is missed. -/
theorem composite_le_one_iff (budget : ℚ) (k : Criteria) : composite budget k ≤ 1 ↔ surplus budget k ≤ shortfall budget k := by
  rw [composite_eq]
  constructor <;> intro h <;> linarith

theorem costScore_antitone (budget : ℚ) : Antitone (costScore budget) := by
  intro x y hxy
  unfold costScore
  split
  next hpos => exact sub_le_sub_left (min_le_min_right 1 (div_le_div_of_nonneg_right hxy hpos.le)) 1
  next => exact le_rfl

theorem etaScore_antitone : Antitone etaScore := by
  intro x y hxy
  have hweek : (0 : ℚ) ≤ maxEta := by norm_num [maxEta]
  exact sub_le_sub_left (min_le_min_right 1 (div_le_div_of_nonneg_right hxy hweek)) 1

theorem repScore_monotone : Monotone repScore := fun _ _ h => min_le_min_right 1 (max_le_max_right 0 h)

theorem capScore_monotone : Monotone capScore := by
  intro m n h
  have hten : (0 : ℚ) ≤ maxCapabilities := by norm_num [maxCapabilities]
  exact min_le_min_right 1 (div_le_div_of_nonneg_right (Nat.cast_le.mpr h) hten)

/-- One criterion is better and the others are the same. -/
inductive BetterInOne : Criteria → Criteria → Prop
  | cost {k : Criteria} {x : ℚ} : x ≤ k.cost → BetterInOne { k with cost := x } k
  | eta {k : Criteria} {x : ℚ} : x ≤ k.eta → BetterInOne { k with eta := x } k
  | reputation {k : Criteria} {x : ℚ} : k.reputation ≤ x → BetterInOne { k with reputation := x } k
  | capabilities {k : Criteria} {n : Nat} : k.capabilities ≤ n → BetterInOne { k with capabilities := n } k

theorem BetterInOne.composite_le {budget : ℚ} {k k' : Criteria} (h : BetterInOne k' k) : composite budget k ≤ composite budget k' := by
  unfold composite weightCost weightEta weightReputation weightCapabilities
  cases h with
  | cost hle =>
    have hscore := costScore_antitone budget hle
    dsimp only
    linarith
  | eta hle =>
    have hscore := etaScore_antitone hle
    dsimp only
    linarith
  | reputation hle =>
    have hscore := repScore_monotone hle
    dsimp only
    linarith
  | capabilities hle =>
    have hscore := capScore_monotone hle
    dsimp only
    linarith

end BidEvaluator

/-- Some auction with this budget has accepted the bid. -/
inductive AcceptedBid (config : AuctionConfig) (budget : Json) : Bid → Criteria → Prop
  | intro {m : AuctionManager} {needId : String} {a : Auction} {o : Offer} {k : Criteria} :
      m.auctions.get? needId = some a → a.budget = budget → m.accepts config needId o.call → o.bid.Has k →
      AcceptedBid config budget o.bid k

theorem AcceptedBid.has {config : AuctionConfig} {budget : Json} {b : Bid} {k : Criteria} (h : AcceptedBid config budget b k) :
    b.Has k := by
  cases h with
  | intro _ _ _ hk => exact hk

open BidEvaluator in
/-- The score of an accepted bid is on the scale as long as negative costs and times do
not earn more than the bid misses elsewhere; a better bid never scores less. -/
theorem scores_on_scale_iff {config : AuctionConfig} {budget : Json} {limit : ℚ} (hlimit : rational? budget = some limit)
    {b : Bid} {k : Criteria} (h : AcceptedBid config budget b k) :
    ∃ score, scoreBid b.toDict budget = some score ∧
      (0 ≤ score ∧ score ≤ 100 ↔ surplus limit k ≤ shortfall limit k) ∧
      ∀ b' k', AcceptedBid config budget b' k' → BetterInOne k' k →
        ∃ score', scoreBid b'.toDict budget = some score' ∧ score ≤ score' := by
  refine ⟨composite limit k * 100, h.has.scoreBid hlimit, ?_, ?_⟩
  · have hnonneg := composite_nonneg limit k
    rw [← composite_le_one_iff]
    constructor
    · rintro ⟨_, hle⟩
      linarith
    · intro hle
      constructor <;> linarith
  · intro b' k' h' hbetter
    have hle := @BidEvaluator.BetterInOne.composite_le limit _ _ hbetter
    exact ⟨composite limit k' * 100, h'.has.scoreBid hlimit, by linarith⟩

/-- A bid of some cost and nothing else, at the start of its auction. -/
def plainOffer (cost : Int) : Offer :=
  ⟨0, "bidder1", ⟨⟨[("cost", .int cost)], by simp⟩, rfl, rfl, rfl, rfl⟩⟩

def newAuction : AuctionManager := (⟨Table.empty⟩ : AuctionManager).startAuction 0 "need" (.int 200)

theorem rational?_half : rational? (.float "0.5") = some (1 / 2) := by decide +kernel

theorem plainOffer_accepted {cost : Int} (h : newAuction.accepts ⟨30⟩ "need" (plainOffer cost).call) :
    AcceptedBid ⟨30⟩ (.int 200) (plainOffer cost).bid ⟨cost, 0, 1 / 2, 0⟩ :=
  .intro (a := ⟨"need", .int 200, [], 0, .opened, 1, none⟩) rfl rfl h ⟨rfl, rfl, rational?_half, rfl⟩

open BidEvaluator in
theorem scores_on_scale_iff_inside : ∃ score, scoreBid (plainOffer 150).bid.toDict (.int 200) = some score ∧
    (0 ≤ score ∧ score ≤ 100 ↔ surplus 200 ⟨(150 : Int), 0, 1 / 2, 0⟩ ≤ shortfall 200 ⟨(150 : Int), 0, 1 / 2, 0⟩) ∧
    ∀ b' k', AcceptedBid ⟨30⟩ (.int 200) b' k' → BetterInOne k' ⟨(150 : Int), 0, 1 / 2, 0⟩ →
      ∃ score', scoreBid b'.toDict (.int 200) = some score' ∧ score ≤ score' :=
  @scores_on_scale_iff _ _ 200 rfl _ _ (plainOffer_accepted (by unfold AuctionManager.accepts; decide +kernel))

/-- A bid of minus 200 within a budget of 200 is accepted and scores 120. -/
theorem negative_cost_off_scale : newAuction.accepts ⟨30⟩ "need" (plainOffer (-200)).call ∧
    BidEvaluator.scoreBid (plainOffer (-200)).bid.toDict (.int 200) = some 120 := by
  have haccepts : newAuction.accepts ⟨30⟩ "need" (plainOffer (-200)).call := by
    unfold AuctionManager.accepts
    decide +kernel
  refine ⟨haccepts, ?_⟩
  rw [@Bid.Has.scoreBid _ _ (plainOffer_accepted haccepts).has _ 200 rfl]
  decide +kernel

end AgentNetwork.Bidding
