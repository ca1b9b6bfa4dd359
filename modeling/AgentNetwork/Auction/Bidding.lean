import AgentNetwork.Library.PythonValues
import AgentNetwork.Library.Table
import AgentNetwork.Library.Traces
import Mathlib.Algebra.Order.Field.Basic
import Mathlib.Order.Bounds.Basic
import Mathlib.Tactic.Linarith

/-! The bidding window of an auction. Instants are nanoseconds, as `time_ns` reads
them; the seconds computed from them are exact. -/

namespace AgentNetwork.Bidding

open Relational Python Transition

structure AuctionConfig where
  bidWindow : ℚ := 30

inductive AuctionStatus
  | opened
  | closed
  | timeout
  deriving DecidableEq

structure Bid where
  agentId : String
  proposalId : Json
  cost : Json
  eta : Json
  reputation : Json
  capabilities : Json
  timestamp : Int
  deriving DecidableEq

/-- `extensions` is missing until a bid comes late. -/
structure Auction where
  needId : String
  budget : Json
  bids : List Bid
  startTime : Int
  status : AuctionStatus
  round : Nat
  extensions : Option Nat
  deriving DecidableEq

structure AuctionManager where
  auctions : Table String Auction
  deriving DecidableEq

def nanoseconds (seconds : Int) : Int := seconds * 1000000000

theorem nanoseconds_five : ((nanoseconds 5 : Int) : ℚ) = 5 * 1000000000 := by norm_num [nanoseconds]

namespace Auction

def elapsedSeconds (a : Auction) (instant : ℚ) : ℚ := (instant - a.startTime) / 1000000000

def timeUntilClose (config : AuctionConfig) (a : Auction) (instant : ℚ) : ℚ := config.bidWindow - a.elapsedSeconds instant

def maxExtensions : Nat := 3

/-- What a bid in the final five seconds does to the auction. -/
def antiSniping (config : AuctionConfig) (now : Int) (a : Auction) : Auction :=
  if a.timeUntilClose config now < 5 then
    let extensions := a.extensions.getD 0
    if extensions < maxExtensions then
      -- the source takes this for a later deadline: "Move start back = extend deadline"
      { a with startTime := a.startTime - nanoseconds 5, extensions := some (extensions + 1) }
    else { a with extensions := some extensions }
  else a

end Auction

def costOf (proposal : Table String Json) : Json := (proposal.get? "cost").getD (.int 0)

def bidOf (now : Int) (agentId : String) (proposal : Table String Json) : Bid where
  agentId := agentId
  proposalId := (proposal.get? "proposal_id").getD (.str "")
  cost := costOf proposal
  eta := (proposal.get? "eta").getD (.int 0)
  reputation := (proposal.get? "reputation").getD (.float "0.5")
  capabilities := (proposal.get? "capabilities").getD (.arr [])
  timestamp := now

namespace AuctionManager

def startAuction (now : Int) (m : AuctionManager) (needId : String) (budget : Json) : AuctionManager :=
  ⟨m.auctions.upsert needId ⟨needId, budget, [], now, .opened, 1, none⟩⟩

def acceptBid (config : AuctionConfig) (now : Int) (m : AuctionManager) (needId agentId : String)
    (proposal : Table String Json) : Except Exn Bool × AuctionManager :=
  match m.auctions.get? needId with
  | none => (.ok false, m)
  | some auction =>
    if auction.status ≠ .opened then (.ok false, m)
    else if config.bidWindow < auction.elapsedSeconds now then (.ok false, m)
    else
      match Comparison.greater.compare (costOf proposal) auction.budget with
      | .error e => (.error e, m)
      | .ok true => (.ok false, m)
      | .ok false =>
        let extended := auction.antiSniping config now
        (.ok true, ⟨m.auctions.upsert needId { extended with bids := extended.bids ++ [bidOf now agentId proposal] }⟩)

/-- `time_remaining` and `bid_count` beside the auction itself. -/
def getAuctionStatus (config : AuctionConfig) (now : Int) (m : AuctionManager) (needId : String) : Option (Auction × ℚ × Nat) :=
  (m.auctions.get? needId).map fun auction => (auction, max 0 (auction.timeUntilClose config now), auction.bids.length)

end AuctionManager

namespace Auction

variable {config : AuctionConfig} {a : Auction}

/-- The instant up to which the window check lets bids through. -/
def deadline (config : AuctionConfig) (a : Auction) : ℚ := a.startTime + config.bidWindow * 1000000000

theorem timeUntilClose_eq (config : AuctionConfig) (a : Auction) (instant : ℚ) :
    a.timeUntilClose config instant = (a.deadline config - instant) / 1000000000 := by
  unfold timeUntilClose elapsedSeconds deadline
  linarith

theorem not_expired_iff {instant : ℚ} : ¬config.bidWindow < a.elapsedSeconds instant ↔ instant ≤ a.deadline config := by
  unfold elapsedSeconds deadline
  rw [not_lt, div_le_iff₀ (by norm_num : (0 : ℚ) < 1000000000)]
  constructor <;> intro h <;> linarith

theorem isGreatest_deadline (config : AuctionConfig) (a : Auction) :
    IsGreatest {instant : ℚ | ¬config.bidWindow < a.elapsedSeconds instant} (a.deadline config) :=
  ⟨not_expired_iff.mpr le_rfl, fun _ h => not_expired_iff.mp h⟩

theorem late_iff {instant : ℚ} : a.timeUntilClose config instant < 5 ↔ a.deadline config - nanoseconds 5 < instant := by
  rw [timeUntilClose_eq, div_lt_iff₀ (by norm_num : (0 : ℚ) < 1000000000)]
  rw [nanoseconds_five]
  constructor <;> intro h <;> linarith

/-- The extension takes five seconds off the window. -/
theorem deadline_antiSniping (config : AuctionConfig) (now : Int) (a : Auction) :
    (a.antiSniping config now).deadline config =
      if a.timeUntilClose config now < 5 ∧ a.extensions.getD 0 < maxExtensions then a.deadline config - nanoseconds 5
      else a.deadline config := by
  by_cases hlate : a.timeUntilClose config now < 5
  · by_cases hmore : a.extensions.getD 0 < maxExtensions
    · rw [if_pos ⟨hlate, hmore⟩]
      simp only [antiSniping, if_pos hlate, if_pos hmore, deadline]
      push_cast
      linarith
    · rw [if_neg fun h => hmore h.2]
      simp only [antiSniping, if_pos hlate, if_neg hmore, deadline]
  · rw [if_neg fun h => hlate h.1]
    simp only [antiSniping, if_neg hlate]

theorem antiSniping_status (config : AuctionConfig) (now : Int) (a : Auction) :
    (a.antiSniping config now).status = a.status ∧ (a.antiSniping config now).budget = a.budget := by
  unfold antiSniping
  dsimp only
  split
  · split <;> exact ⟨rfl, rfl⟩
  · exact ⟨rfl, rfl⟩

end Auction

/-- The cost of a proposal does not exceed the budget. -/
def WithinBudget (budget : Json) (proposal : Table String Json) : Prop :=
  Comparison.greater.compare (costOf proposal) budget = .ok false

/-- One call of `accept_bid` and the time at which it is made. -/
structure BidCall where
  now : Int
  agentId : String
  proposal : Table String Json

namespace AuctionManager

variable {config : AuctionConfig} {m : AuctionManager} {needId : String} {a : Auction}

def bid (config : AuctionConfig) (needId : String) (m : AuctionManager) (c : BidCall) : AuctionManager :=
  (m.acceptBid config c.now needId c.agentId c.proposal).2

def accepts (config : AuctionConfig) (needId : String) (m : AuctionManager) (c : BidCall) : Prop :=
  (m.acceptBid config c.now needId c.agentId c.proposal).1 = .ok true

instance (config : AuctionConfig) (needId : String) (m : AuctionManager) (c : BidCall) : Decidable (m.accepts config needId c) :=
  inferInstanceAs (Decidable (_ = _))

def deadline (config : AuctionConfig) (m : AuctionManager) (needId : String) : Option ℚ :=
  (m.auctions.get? needId).map (Auction.deadline config)

/-- On an open auction a bid is accepted when it is in time and within the budget. -/
theorem accepts_iff (found : m.auctions.get? needId = some a) (status : a.status = .opened) (c : BidCall) :
    m.accepts config needId c ↔ (c.now : ℚ) ≤ a.deadline config ∧ WithinBudget a.budget c.proposal := by
  rw [← Auction.not_expired_iff]
  unfold accepts acceptBid WithinBudget
  simp only [found, status, ne_eq, not_true_eq_false, if_false]
  by_cases hexpired : config.bidWindow < a.elapsedSeconds c.now
  · simp [hexpired]
  · simp only [hexpired, if_false, not_false_eq_true, true_and]
    split
    next he => simp [he]
    next he => simp [he]
    next he => simp [he]

theorem bid_accepted (found : m.auctions.get? needId = some a) (status : a.status = .opened) {c : BidCall}
    (h : m.accepts config needId c) :
    (m.bid config needId c).auctions.get? needId =
      some { a.antiSniping config c.now with bids := (a.antiSniping config c.now).bids ++ [bidOf c.now c.agentId c.proposal] } := by
  obtain ⟨htime, hbudget⟩ := (accepts_iff found status c).mp h
  have hopen := Auction.not_expired_iff.mpr htime
  unfold WithinBudget at hbudget
  simp [bid, acceptBid, found, status, hopen, hbudget]

theorem bid_refused {c : BidCall} (h : ¬m.accepts config needId c) : m.bid config needId c = m := by
  unfold accepts at h
  unfold bid
  unfold acceptBid at h ⊢
  split
  · rfl
  next auction found =>
    simp only [found] at h
    split
    · rfl
    next hopen =>
      rw [if_neg hopen] at h
      split
      · rfl
      next htime =>
        rw [if_neg htime] at h
        split
        · rfl
        · rfl
        next hbudget => exact absurd (by rw [hbudget]) h

end AuctionManager

end AgentNetwork.Bidding
