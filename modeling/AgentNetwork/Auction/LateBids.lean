import AgentNetwork.Auction.Bidding

namespace AgentNetwork.Bidding

open Relational Python Transition AuctionManager

abbrev BidStep := AuctionManager × BidCall × AuctionManager

/-- An accepted bid that comes less than five seconds before the deadline. -/
def LateBid (config : AuctionConfig) (needId : String) (e : BidStep) : Prop :=
  e.1.accepts config needId e.2.1 ∧ ∃ d ∈ e.1.deadline config needId, d - nanoseconds 5 < e.2.1.now

/-- What a bid may do to the deadline after so many late ones. -/
structure ExtendsWhenLate (config : AuctionConfig) (needId : String) (late : Nat) (e : BidStep) : Prop where
  neverEarlier : e.1.accepts config needId e.2.1 →
    ∀ d ∈ e.1.deadline config needId, ∃ d' ∈ e.2.2.deadline config needId, d ≤ d'
  firstThree : LateBid config needId e → late < 3 →
    e.2.2.deadline config needId = (e.1.deadline config needId).map fun d => d + (nanoseconds 5 : ℚ)
  others : ¬(LateBid config needId e ∧ late < 3) → e.2.2.deadline config needId = e.1.deadline config needId

open Classical in
/-- Late bids extend an auction, each of the first three by five seconds, and never
beyond the limit. -/
def LateBidsExtend (config : AuctionConfig) (needId : String) (limit : ℚ) : Nat → List BidStep → Prop
  | _, [] => True
  | late, e :: rest => ExtendsWhenLate config needId late e ∧ (∀ d ∈ e.2.2.deadline config needId, d ≤ limit) ∧
      LateBidsExtend config needId limit (if LateBid config needId e then late + 1 else late) rest

/-- The last five seconds of the window of an auction, as it was started. -/
def FinalSeconds (config : AuctionConfig) (started : Int) (instant : ℚ) : Prop :=
  (started : ℚ) + (config.bidWindow - 5) * 1000000000 < instant ∧ instant ≤ started + config.bidWindow * 1000000000

structure Unmoved (started : Int) (budget : Json) (a : Auction) : Prop where
  status : a.status = .opened
  start : a.startTime = started
  budget : a.budget = budget
  extensions : a.extensions = none

/-- An auction after any bids: each extension has put its start five seconds back. -/
structure Shifted (started : Int) (a : Auction) : Prop where
  status : a.status = .opened
  start : a.startTime = started - nanoseconds (5 * (a.extensions.getD 0 : Nat))
  atMost : a.extensions.getD 0 ≤ Auction.maxExtensions

section Bids

variable {config : AuctionConfig} {m : AuctionManager} {needId : String} {started : Int} {budget : Json} {a : Auction}

theorem Unmoved.deadline (h : Unmoved started budget a) : a.deadline config = started + config.bidWindow * 1000000000 := by
  rw [Auction.deadline, h.start]

theorem Unmoved.accepts_iff (h : Unmoved started budget a) (found : m.auctions.get? needId = some a) (c : BidCall) :
    m.accepts config needId c ↔
      (c.now : ℚ) ≤ started + config.bidWindow * 1000000000 ∧ WithinBudget budget c.proposal := by
  rw [AuctionManager.accepts_iff found h.status, h.deadline, h.budget]

theorem Unmoved.late_iff (h : Unmoved started budget a) (instant : ℚ) :
    a.timeUntilClose config instant < 5 ↔ (started : ℚ) + (config.bidWindow - 5) * 1000000000 < instant := by
  rw [Auction.late_iff, h.deadline, nanoseconds_five]
  constructor <;> intro hlt <;> linarith

/-- Outside the final seconds a bid leaves the auction where it was. -/
theorem Unmoved.after_bid (h : Unmoved started budget a) (found : m.auctions.get? needId = some a) {c : BidCall}
    (ok : ¬(FinalSeconds config started c.now ∧ WithinBudget budget c.proposal)) :
    ∃ a', (m.bid config needId c).auctions.get? needId = some a' ∧ Unmoved started budget a' := by
  by_cases haccepts : m.accepts config needId c
  · obtain ⟨htime, hbudget⟩ := (h.accepts_iff found c).mp haccepts
    have hearly : ¬a.timeUntilClose config c.now < 5 := by
      rw [h.late_iff]
      exact fun hlate => ok ⟨⟨hlate, htime⟩, hbudget⟩
    have hsame : a.antiSniping config c.now = a := if_neg hearly
    refine ⟨_, bid_accepted found h.status haccepts, ?_⟩
    rw [hsame]
    exact ⟨h.status, h.start, h.budget, h.extensions⟩
  · rw [bid_refused haccepts]
    exact ⟨a, found, h⟩

theorem Unmoved.late_bid (h : Unmoved started budget a) (found : m.auctions.get? needId = some a) {c : BidCall}
    (late : FinalSeconds config started c.now) (within : WithinBudget budget c.proposal) :
    m.accepts config needId c ∧
      (m.bid config needId c).deadline config needId = some (a.deadline config - nanoseconds 5) := by
  have haccepts := (h.accepts_iff found c).mpr ⟨late.2, within⟩
  have hlate : a.timeUntilClose config c.now < 5 := (h.late_iff c.now).mpr late.1
  have hmore : a.extensions.getD 0 < Auction.maxExtensions := by
    rw [h.extensions]
    decide
  have hmoved := Auction.deadline_antiSniping config c.now a
  rw [if_pos ⟨hlate, hmore⟩] at hmoved
  refine ⟨haccepts, ?_⟩
  rw [AuctionManager.deadline, bid_accepted found h.status haccepts, Option.map_some, ← hmoved]
  rfl

/-- On an auction that has not moved one bid does what is promised unless it is late. -/
theorem Unmoved.extendsWhenLate_iff (h : Unmoved started budget a) (found : m.auctions.get? needId = some a)
    (c : BidCall) (late : Nat) :
    ExtendsWhenLate config needId late (m, c, m.bid config needId c) ↔
      ¬(FinalSeconds config started c.now ∧ WithinBudget budget c.proposal) := by
  have hbefore : m.deadline config needId = some (a.deadline config) := by rw [AuctionManager.deadline, found]; rfl
  constructor
  · rintro hextends ⟨hlate, hwithin⟩
    obtain ⟨haccepts, hafter⟩ := h.late_bid found hlate hwithin
    obtain ⟨d', hd', hle⟩ := hextends.neverEarlier haccepts _ hbefore
    rw [show (m, c, m.bid config needId c).2.2.deadline config needId = _ from hafter] at hd'
    have hd : a.deadline config - nanoseconds 5 = d' := Option.some.inj hd'
    rw [nanoseconds_five] at hd
    linarith
  · intro ok
    obtain ⟨a', found', h'⟩ := h.after_bid found ok
    have hafter : (m.bid config needId c).deadline config needId = some (a.deadline config) := by
      rw [AuctionManager.deadline, found', Option.map_some, h'.deadline, h.deadline]
    have hnone : ¬LateBid config needId (m, c, m.bid config needId c) := by
      rintro ⟨haccepts, d, hd, hlate⟩
      obtain ⟨htime, hwithin⟩ := (h.accepts_iff found c).mp haccepts
      have hda : a.deadline config = d := Option.some.inj (hbefore.symm.trans hd)
      rw [← hda, ← Auction.late_iff, h.late_iff] at hlate
      exact ok ⟨⟨hlate, htime⟩, hwithin⟩
    refine ⟨fun _ d hd => ⟨d, ?_, le_rfl⟩, fun hlate => absurd hlate hnone, fun _ => hafter.trans hbefore.symm⟩
    exact hafter.trans (hbefore.symm.trans hd)

theorem Unmoved.run (h : Unmoved started budget a) (found : m.auctions.get? needId = some a) (calls : List BidCall) (late : Nat) :
    LateBidsExtend config needId (started + (config.bidWindow + 15) * 1000000000) late (stepsOf (bid config needId) m calls) ↔
      ∀ c ∈ calls, ¬(FinalSeconds config started c.now ∧ WithinBudget budget c.proposal) := by
  induction calls generalizing m a late with
  | nil => exact ⟨fun _ => List.forall_mem_nil _, fun _ => trivial⟩
  | cons c rest ih =>
    rw [stepsOf, LateBidsExtend, h.extendsWhenLate_iff found, List.forall_mem_cons]
    refine and_congr_right fun ok => ?_
    obtain ⟨a', found', h'⟩ := h.after_bid found ok
    refine Iff.trans (and_iff_right ?_) (ih h' found' _)
    intro d hd
    rw [AuctionManager.deadline, found', Option.map_some, h'.deadline] at hd
    have hd' := Option.some.inj hd
    linarith

theorem unmoved_startAuction (now : Int) (m : AuctionManager) (needId : String) (budget : Json) :
    ∃ a, (m.startAuction now needId budget).auctions.get? needId = some a ∧ Unmoved now budget a :=
  ⟨_, (Table.get?_upsert _ _ _ _).trans (if_pos rfl), rfl, rfl, rfl, rfl⟩

/-- An extension is one more shift of the start, and there are at most three. -/
theorem Shifted.antiSniping (config : AuctionConfig) (h : Shifted started a) (now : Int) : Shifted started (a.antiSniping config now) := by
  have hstatus := (Auction.antiSniping_status config now a).1.trans h.status
  have hstart := h.start
  have hatMost := h.atMost
  unfold nanoseconds at hstart
  by_cases hlate : a.timeUntilClose config now < 5
  · by_cases hmore : a.extensions.getD 0 < Auction.maxExtensions
    · refine ⟨hstatus, ?_, ?_⟩
      · simp only [Auction.antiSniping, if_pos hlate, if_pos hmore, Option.getD_some, nanoseconds]
        omega
      · simp only [Auction.antiSniping, if_pos hlate, if_pos hmore, Option.getD_some]
        omega
    · refine ⟨hstatus, ?_, ?_⟩
      · simp only [Auction.antiSniping, if_pos hlate, if_neg hmore, Option.getD_some, nanoseconds]
        exact hstart
      · simp only [Auction.antiSniping, if_pos hlate, if_neg hmore, Option.getD_some]
        exact hatMost
  · have hsame : a.antiSniping config now = a := if_neg hlate
    rw [hsame]
    exact h

theorem Shifted.after_bid (config : AuctionConfig) (h : Shifted started a) (found : m.auctions.get? needId = some a) (c : BidCall) :
    ∃ a', (m.bid config needId c).auctions.get? needId = some a' ∧ Shifted started a' := by
  by_cases haccepts : m.accepts config needId c
  · have hshifted := h.antiSniping config c.now
    exact ⟨_, bid_accepted found h.status haccepts, hshifted.status, hshifted.start, hshifted.atMost⟩
  · rw [bid_refused haccepts]
    exact ⟨a, found, h⟩

theorem Shifted.deadline (h : Shifted started a) :
    (started : ℚ) + (config.bidWindow - 15) * 1000000000 ≤ a.deadline config ∧
      a.deadline config ≤ started + config.bidWindow * 1000000000 := by
  have hatMost : ((a.extensions.getD 0 : Nat) : ℚ) ≤ 3 := by exact_mod_cast h.atMost
  have hnonneg : (0 : ℚ) ≤ ((a.extensions.getD 0 : Nat) : ℚ) := Nat.cast_nonneg _
  rw [Auction.deadline, h.start, nanoseconds]
  push_cast
  constructor <;> linarith

/-- Whatever is bid, the deadline is at most fifteen seconds before the one the auction
was started with, and never after it. -/
theorem deadline_after_bids (config : AuctionConfig) (m : AuctionManager) (needId : String) (budget : Json) (started : Int)
    (calls : List BidCall) :
    ∃ d ∈ (calls.foldl (bid config needId) (m.startAuction started needId budget)).deadline config needId,
      (started : ℚ) + (config.bidWindow - 15) * 1000000000 ≤ d ∧ d ≤ started + config.bidWindow * 1000000000 := by
  have hrun : ∀ {m' a}, m'.auctions.get? needId = some a → Shifted started a →
      ∃ a', (calls.foldl (bid config needId) m').auctions.get? needId = some a' ∧ Shifted started a' := by
    induction calls with
    | nil => exact fun found h => ⟨_, found, h⟩
    | cons c rest ih =>
      intro m' a found h
      obtain ⟨a', found', h'⟩ := h.after_bid config found c
      exact ih found' h'
  obtain ⟨a, found, h⟩ := unmoved_startAuction started m needId budget
  have hstart : Shifted started a := by
    refine ⟨h.status, ?_, ?_⟩
    · rw [h.extensions, h.start]
      simp [nanoseconds]
    · rw [h.extensions]
      exact Nat.zero_le _
  obtain ⟨a', found', h'⟩ := hrun found hstart
  exact ⟨_, by rw [AuctionManager.deadline, found']; rfl, h'.deadline⟩

/-- Late bids extend an auction as long as there are none within the budget. -/
theorem late_bids_extend_iff (config : AuctionConfig) (m : AuctionManager) (needId : String) (budget : Json) (started : Int)
    (calls : List BidCall) :
    LateBidsExtend config needId (started + (config.bidWindow + 15) * 1000000000) 0
        (stepsOf (bid config needId) (m.startAuction started needId budget) calls) ↔
      ∀ c ∈ calls, ¬(FinalSeconds config started c.now ∧ WithinBudget budget c.proposal) := by
  obtain ⟨a, found, h⟩ := unmoved_startAuction started m needId budget
  exact h.run found calls 0

end Bids

/-- A bid of 150 within a budget of 200, four seconds before the end of the window of
thirty seconds: the auction then ends after twenty-five. -/
theorem late_bid_shortens :
    ¬LateBidsExtend ⟨30⟩ "need" (((0 : Int) : ℚ) + (30 + 15) * 1000000000) 0
      (stepsOf (bid ⟨30⟩ "need") ((⟨Table.empty⟩ : AuctionManager).startAuction 0 "need" (.int 200))
        [⟨nanoseconds 26, "bidder1", ⟨[("cost", .int 150)], by simp⟩⟩]) := by
  rintro ⟨hextends, -⟩
  have hbefore : ((⟨Table.empty⟩ : AuctionManager).startAuction 0 "need" (.int 200)).deadline ⟨30⟩ "need" = some 30000000000 := by
    decide +kernel
  obtain ⟨d', hd', hle⟩ := hextends.neverEarlier (by unfold accepts; decide +kernel) _ hbefore
  have hafter : (bid ⟨30⟩ "need" ((⟨Table.empty⟩ : AuctionManager).startAuction 0 "need" (.int 200))
      ⟨nanoseconds 26, "bidder1", ⟨[("cost", .int 150)], by simp⟩⟩).deadline ⟨30⟩ "need" = some 25000000000 := by
    decide +kernel
  rw [show (bid ⟨30⟩ "need" _ _).deadline ⟨30⟩ "need" = _ from hafter] at hd'
  have hd := Option.some.inj hd'
  rw [← hd] at hle
  norm_num at hle

end AgentNetwork.Bidding
