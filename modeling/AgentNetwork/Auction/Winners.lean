import AgentNetwork.Auction.Selection

/-! The choice of the winner, and the life of an auction from its start on. -/

namespace AgentNetwork.Bidding

open Relational Python Transition StableSort

namespace BidEvaluator

/-- The bids of the greatest key, in the order of a stable sort that puts them first. -/
def highest (key : Record → Option ℚ) (bids : List Record) : Option (List Record) := do
  let keyed ← bids.mapM fun bid => (key bid).map fun k => (k, bid)
  let ranked := sortOn (fun entry => OrderDual.toDual entry.1) keyed
  let top ← ranked.head?
  some ((ranked.filter fun entry => entry.1 = top.1).map Prod.snd)

def reputationOf (bid : Record) : Option ℚ := rational? ((bid.get? "reputation").getD (.int 0))

/-- `b.get("timestamp", float("inf"))`. -/
def timestampOf (bid : Record) : Option (WithTop ℚ) :=
  match bid.get? "timestamp" with
  | none => some ⊤
  | some value => (rational? value).map fun t => (t : WithTop ℚ)

def handleTies (bids : List Record) : Option Record := do
  let topRepBids ← highest reputationOf bids
  if 1 < topRepBids.length then do
    let keyed ← topRepBids.mapM fun bid => (timestampOf bid).map fun t => (t, bid)
    (firstLeast Prod.fst keyed).map Prod.snd
  else topRepBids.head?

/-- The outer `none` is a value that is no number. -/
def selectWinner (bids : List Record) (budget : Json) : Option (Option Record) :=
  if bids.isEmpty then some none
  else do
    let tiedBids ← highest (scoreBid · budget) bids
    if 1 < tiedBids.length then (handleTies tiedBids).map some else some tiedBids.head?

theorem mapM_some {α β : Type} {g : α → Option β} {f : α → β} {l : List α} (h : ∀ a ∈ l, g a = some (f a)) :
    l.mapM g = some (l.map f) := by
  induction l with
  | nil => rfl
  | cons a rest ih =>
    obtain ⟨ha, hrest⟩ := List.forall_mem_cons.mp h
    rw [List.mapM_cons, ha, ih hrest]
    rfl

theorem mapM_keyed {β : Type} {key : Record → Option β} {f : Record → β} {bids : List Record} (h : ∀ b ∈ bids, key b = some (f b)) :
    (bids.mapM fun bid => (key bid).map fun k => (k, bid)) = some (bids.map fun b => (f b, b)) := by
  refine mapM_some fun b hb => ?_
  rw [h b hb]
  rfl

/-- The first after the sort has the greatest key. -/
theorem highest_spec {key : Record → Option ℚ} {f : Record → ℚ} {bids : List Record} (h : ∀ b ∈ bids, key b = some (f b))
    (hne : bids ≠ []) : ∃ top, highest key bids = some top ∧ top ≠ [] ∧ ∀ b, b ∈ top ↔ b ∈ bids ∧ ∀ b' ∈ bids, f b' ≤ f b := by
  let ranked := sortOn (fun entry : ℚ × Record => OrderDual.toDual entry.1) (bids.map fun b => (f b, b))
  have hmem : ∀ {entry}, entry ∈ ranked ↔ ∃ b ∈ bids, (f b, b) = entry := by
    intro entry
    rw [mem_sortOn, List.mem_map]
  have hsorted : ranked.Pairwise fun a b => b.1 ≤ a.1 :=
    pairwise_sortOn (fun entry : ℚ × Record => OrderDual.toDual entry.1) _
  obtain ⟨first, rest, hranked⟩ : ∃ first rest, ranked = first :: rest := by
    refine List.exists_cons_of_ne_nil fun hnil => ?_
    obtain ⟨b, hb⟩ := List.exists_mem_of_ne_nil bids hne
    have hin := hmem.mpr ⟨b, hb, rfl⟩
    rw [hnil] at hin
    exact absurd hin List.not_mem_nil
  have hgreatest : ∀ b ∈ bids, f b ≤ first.1 := by
    intro b hb
    have hin := hmem.mpr ⟨b, hb, rfl⟩
    rw [hranked] at hin hsorted
    rcases List.mem_cons.mp hin with heq | hrest
    · exact le_of_eq (congrArg Prod.fst heq)
    · exact List.rel_of_pairwise_cons hsorted hrest
  obtain ⟨best, hbest, hfirst⟩ := hmem.mp (hranked ▸ List.mem_cons_self : first ∈ ranked)
  have htop : f best = first.1 := congrArg Prod.fst hfirst
  have htied : ∀ b, b ∈ (ranked.filter fun entry => entry.1 = first.1).map Prod.snd ↔
      b ∈ bids ∧ ∀ b' ∈ bids, f b' ≤ f b := by
    intro b
    rw [List.mem_map]
    constructor
    · rintro ⟨entry, hentry, rfl⟩
      obtain ⟨hin, hkey⟩ := List.mem_filter.mp hentry
      obtain ⟨c, hc, rfl⟩ := hmem.mp hin
      have heq : f c = first.1 := of_decide_eq_true hkey
      exact ⟨hc, fun b' hb' => heq ▸ hgreatest b' hb'⟩
    · rintro ⟨hb, hmax⟩
      have heq : f b = first.1 := le_antisymm (hgreatest b hb) (htop ▸ hmax best hbest)
      exact ⟨(f b, b), List.mem_filter.mpr ⟨hmem.mpr ⟨b, hb, rfl⟩, decide_eq_true heq⟩, rfl⟩
  refine ⟨_, ?_, ?_, htied⟩
  · have hhead : ranked.head? = some first := by rw [hranked]; rfl
    rw [highest, mapM_keyed h]
    simp only [Option.bind_eq_bind, Option.bind_some]
    rw [hhead]
    rfl
  · exact List.ne_nil_of_mem ((htied best).mpr ⟨hbest, fun b' hb' => htop ▸ hgreatest b' hb'⟩)

/-- A list of at most one element that is not empty. -/
theorem head?_of_short {bids : List Record} (hne : bids ≠ []) (hshort : ¬1 < bids.length) :
    ∃ w ∈ bids, bids.head? = some w ∧ ∀ b ∈ bids, b = w := by
  cases bids with
  | nil => exact absurd rfl hne
  | cons w rest =>
    have hrest : rest = [] := by
      rw [List.length_cons] at hshort
      exact List.length_eq_zero_iff.mp (by omega)
    refine ⟨w, List.mem_cons_self, rfl, fun b hb => ?_⟩
    rw [hrest] at hb
    exact List.mem_singleton.mp hb

section Choice

variable {rep : Record → ℚ} {arrival : Record → WithTop ℚ} {bids : List Record}

theorem firstLeast_keyed (hne : bids ≠ []) :
    ∃ w ∈ bids, (firstLeast Prod.fst (bids.map fun b => (arrival b, b))).map Prod.snd = some w ∧
      ∀ b ∈ bids, arrival w ≤ arrival b := by
  cases hleast : firstLeast Prod.fst (bids.map fun b => (arrival b, b)) with
  | none => exact absurd (List.map_eq_nil_iff.mp (firstLeast_eq_none.mp hleast)) hne
  | some entry =>
    obtain ⟨w, hw, rfl⟩ := List.mem_map.mp (List.argmin_mem hleast)
    refine ⟨w, hw, rfl, fun b hb => ?_⟩
    have hkeyed : (arrival b, b) ∈ bids.map fun b => (arrival b, b) := List.mem_map.mpr ⟨b, hb, rfl⟩
    exact @List.le_of_mem_argmin _ _ _ Prod.fst _ _ _ hkeyed hleast

theorem handleTies_spec (hrep : ∀ b ∈ bids, reputationOf b = some (rep b)) (harrival : ∀ b ∈ bids, timestampOf b = some (arrival b))
    (hne : bids ≠ []) : ∃ w ∈ bids, handleTies bids = some w ∧ (∀ b ∈ bids, rep b ≤ rep w) ∧
      ∀ b ∈ bids, rep b = rep w → arrival w ≤ arrival b := by
  obtain ⟨top, htop, hsome, hmem⟩ := highest_spec hrep hne
  have hequal : ∀ {w}, w ∈ top → ∀ b ∈ bids, rep b = rep w → b ∈ top := by
    intro w hw b hb heq
    exact (hmem b).mpr ⟨hb, heq ▸ ((hmem w).mp hw).2⟩
  by_cases hmore : 1 < top.length
  · have hkeyed := mapM_keyed fun b hb => harrival b ((hmem b).mp hb).1
    obtain ⟨w, hw, hleast, hfirst⟩ := @firstLeast_keyed arrival _ hsome
    refine ⟨w, ((hmem w).mp hw).1, ?_, ((hmem w).mp hw).2, fun b hb heq => hfirst b (hequal hw b hb heq)⟩
    simp only [handleTies, htop, Option.bind_eq_bind, Option.bind_some, if_pos hmore, hkeyed]
    exact hleast
  · obtain ⟨w, hw, hhead, honly⟩ := head?_of_short hsome hmore
    refine ⟨w, ((hmem w).mp hw).1, ?_, ((hmem w).mp hw).2, fun b hb heq => ?_⟩
    · simp only [handleTies, htop, Option.bind_eq_bind, Option.bind_some, if_neg hmore]
      exact hhead
    · rw [honly b (hequal hw b hb heq)]

theorem selectWinner_spec {score : Record → ℚ} {budget : Json} (hscore : ∀ b ∈ bids, scoreBid b budget = some (score b))
    (hrep : ∀ b ∈ bids, reputationOf b = some (rep b)) (harrival : ∀ b ∈ bids, timestampOf b = some (arrival b))
    (hne : bids ≠ []) : ∃ w ∈ bids, selectWinner bids budget = some (some w) ∧ (∀ b ∈ bids, score b ≤ score w) ∧
      (∀ b ∈ bids, score b = score w → rep b ≤ rep w) ∧
      ∀ b ∈ bids, score b = score w → rep b = rep w → arrival w ≤ arrival b := by
  obtain ⟨tied, htied, hsome, hmem⟩ := highest_spec hscore hne
  have hequal : ∀ {w}, w ∈ tied → ∀ b ∈ bids, score b = score w → b ∈ tied := by
    intro w hw b hb heq
    exact (hmem b).mpr ⟨hb, heq ▸ ((hmem w).mp hw).2⟩
  have hempty : bids.isEmpty = false := List.isEmpty_eq_false_iff.mpr hne
  by_cases hmore : 1 < tied.length
  · obtain ⟨w, hw, hties, hbest, hfirst⟩ := handleTies_spec (fun b hb => hrep b ((hmem b).mp hb).1)
      (fun b hb => harrival b ((hmem b).mp hb).1) hsome
    refine ⟨w, ((hmem w).mp hw).1, ?_, ((hmem w).mp hw).2, fun b hb heq => hbest b (hequal hw b hb heq),
      fun b hb heq => hfirst b (hequal hw b hb heq)⟩
    simp only [selectWinner, hempty, Bool.false_eq_true, if_false, htied, Option.bind_eq_bind, Option.bind_some, if_pos hmore,
      hties, Option.map_some]
  · obtain ⟨w, hw, hhead, honly⟩ := head?_of_short hsome hmore
    refine ⟨w, ((hmem w).mp hw).1, ?_, ((hmem w).mp hw).2, fun b hb heq => ?_, fun b hb heq _ => ?_⟩
    · simp only [selectWinner, hempty, Bool.false_eq_true, if_false, htied, Option.bind_eq_bind, Option.bind_some, if_neg hmore,
        hhead]
    · rw [honly b (hequal hw b hb heq)]
    · rw [honly b (hequal hw b hb heq)]

end Choice

end BidEvaluator

namespace AuctionManager

def closeAuction (m : AuctionManager) (needId : String) : Option (Option Record) × AuctionManager :=
  match m.auctions.get? needId with
  | none => (some none, m)
  | some auction =>
    let closed := ⟨m.auctions.upsert needId { auction with status := .closed }⟩
    if auction.bids.isEmpty then (some none, closed)
    else (BidEvaluator.selectWinner (auction.bids.map Bid.toDict) auction.budget, closed)

def timeoutAuction (m : AuctionManager) (needId : String) : Bool × AuctionManager :=
  match m.auctions.get? needId with
  | none => (false, m)
  | some auction => (true, ⟨m.auctions.upsert needId { auction with status := .timeout }⟩)

end AuctionManager

open AuctionManager

structure Budget where
  value : Json
  amount : ℚ
  exact : rational? value = some amount
  positive : 0 < amount

/-- What is called on a manager. -/
inductive AuctionCall
  | start (now : Int) (needId : String) (budget : Budget)
  | bid (needId : String) (offer : Offer)
  | close (needId : String)
  | timeout (needId : String)

namespace AuctionCall

def starts (needId : String) : AuctionCall → Bool
  | start _ id _ => id = needId
  | bid _ _ | close _ | timeout _ => false

def ends (needId : String) : AuctionCall → Bool
  | close id | timeout id => id = needId
  | start _ _ _ | bid _ _ => false

def apply (config : AuctionConfig) (m : AuctionManager) : AuctionCall → AuctionManager
  | start now needId budget => m.startAuction now needId budget.value
  | bid needId offer => m.bid config needId offer.call
  | close needId => (m.closeAuction needId).2
  | timeout needId => (m.timeoutAuction needId).2

/-- The offer for the need to which the call says yes. -/
def accepted (config : AuctionConfig) (needId : String) (m : AuctionManager) : AuctionCall → List Offer
  | bid id offer => if id = needId ∧ m.accepts config id offer.call then [offer] else []
  | start _ _ _ | close _ | timeout _ => []

end AuctionCall

def runCalls (config : AuctionConfig) (calls : List AuctionCall) : AuctionManager :=
  calls.foldl (AuctionCall.apply config) ⟨.empty⟩

/-- The offers for the need for which `accept_bid` returned True. -/
def acceptedOffers (config : AuctionConfig) (needId : String) (calls : List AuctionCall) : List Offer :=
  (stepsOf (AuctionCall.apply config) ⟨.empty⟩ calls).flatMap fun e => e.2.1.accepted config needId e.1

namespace Offer

def score (budget : Budget) (o : Offer) : ℚ := (BidEvaluator.scoreBid o.bid.toDict budget.value).getD 0

def cost (o : Offer) : ℚ := (rational? o.bid.cost).getD 0

def reputation (o : Offer) : ℚ := (rational? o.bid.reputation).getD 0

theorem scoreBid_eq (budget : Budget) (o : Offer) : BidEvaluator.scoreBid o.bid.toDict budget.value = some (o.score budget) := by
  obtain ⟨k, hk⟩ := o.has
  rw [score, hk.scoreBid budget.exact, Option.getD_some]

theorem rational?_cost (o : Offer) : rational? o.bid.cost = some o.cost := by
  obtain ⟨k, hk⟩ := o.has
  rw [cost, hk.cost, Option.getD_some]

theorem rational?_reputation (o : Offer) : rational? o.bid.reputation = some o.reputation := by
  obtain ⟨k, hk⟩ := o.has
  rw [reputation, hk.reputation, Option.getD_some]

end Offer

/-- The best of the accepted offers: by score, then by reputation, then by time. -/
structure Wins (budget : Budget) (accepted : List Offer) (o : Offer) : Prop where
  mem : o ∈ accepted
  withinBudget : o.cost ≤ budget.amount
  score : ∀ o' ∈ accepted, o'.score budget ≤ o.score budget
  reputation : ∀ o' ∈ accepted, o'.score budget = o.score budget → o'.reputation ≤ o.reputation
  timestamp : ∀ o' ∈ accepted, o'.score budget = o.score budget → o'.reputation = o.reputation → o.now ≤ o'.now

/-- What a close may return after these offers. -/
def Chosen (budget : Budget) (accepted : List Offer) (result : Option (Option Record)) : Prop :=
  (accepted = [] ∧ result = some none) ∨ ∃ o, Wins budget accepted o ∧ result = some (some o.bid.toDict)

/-- The auction has the bids of these offers. -/
structure Holding (needId : String) (budget : Budget) (offers : List Offer) (m : AuctionManager) (a : Auction) : Prop where
  found : m.auctions.get? needId = some a
  limit : a.budget = budget.value
  bids : a.bids = offers.map Offer.bid
  within : ∀ o ∈ offers, o.cost ≤ budget.amount

theorem withinBudget_iff (budget : Budget) (o : Offer) : WithinBudget budget.value o.call.proposal ↔ o.cost ≤ budget.amount := by
  have hnumber : ∀ {value : Json} {q : ℚ}, rational? value = some q → Number.ofJson? value = some (.finite q) := by
    intro value q h
    unfold rational? at h
    split at h
    next q' hq =>
      rw [hq]
      exact congrArg (fun q => some (Number.finite q)) (Option.some.inj h)
    next => cases h
  have hcost : Number.ofJson? (costOf o.call.proposal) = some (.finite o.cost) := hnumber o.rational?_cost
  rw [WithinBudget, Comparison.compare_numbers _ hcost (hnumber budget.exact)]
  simp [Comparison.numbers, Number.lt, Number.le]

section Life

variable {config : AuctionConfig} {needId id : String} {budget : Budget} {m : AuctionManager} {offers : List Offer}
  {a : Auction} {c : BidCall}

theorem accepts_opened (h : m.accepts config id c) : ∃ a, m.auctions.get? id = some a ∧ a.status = .opened := by
  unfold AuctionManager.accepts acceptBid at h
  split at h
  next => cases h
  next a found =>
    split at h
    next => cases h
    next hopen => exact ⟨a, found, not_not.mp hopen⟩

theorem bid_other (hne : needId ≠ id) (c : BidCall) : (m.bid config id c).auctions.get? needId = m.auctions.get? needId := by
  unfold bid acceptBid
  split
  next => rfl
  next =>
    split
    next => rfl
    next =>
      split
      next => rfl
      next =>
        split
        next => rfl
        next => rfl
        next => exact (Table.get?_upsert _ _ _ _).trans (if_neg hne)

theorem close_other (hne : needId ≠ id) : (m.closeAuction id).2.auctions.get? needId = m.auctions.get? needId := by
  unfold closeAuction
  split
  next => rfl
  next =>
    dsimp only
    split <;> exact (Table.get?_upsert _ _ _ _).trans (if_neg hne)

theorem timeout_other (hne : needId ≠ id) : (m.timeoutAuction id).2.auctions.get? needId = m.auctions.get? needId := by
  unfold timeoutAuction
  split
  next => rfl
  next => exact (Table.get?_upsert _ _ _ _).trans (if_neg hne)

theorem close_found (found : m.auctions.get? needId = some a) :
    (m.closeAuction needId).2.auctions.get? needId = some { a with status := .closed } := by
  unfold closeAuction
  rw [found]
  dsimp only
  split <;> exact (Table.get?_upsert _ _ _ _).trans (if_pos rfl)

theorem timeout_found (found : m.auctions.get? needId = some a) :
    (m.timeoutAuction needId).2.auctions.get? needId = some { a with status := .timeout } := by
  unfold timeoutAuction
  rw [found]
  exact (Table.get?_upsert _ _ _ _).trans (if_pos rfl)

theorem Holding.of_found {m' : AuctionManager} (h : Holding needId budget offers m a)
    (found : m'.auctions.get? needId = m.auctions.get? needId) : Holding needId budget offers m' a :=
  ⟨found.trans h.found, h.limit, h.bids, h.within⟩

/-- What one call may do to an auction that is not started again. -/
structure Follows (config : AuctionConfig) (needId : String) (m : AuctionManager) (call : AuctionCall) (a a' : Auction) : Prop where
  settled : a.status ≠ .opened → call.accepted config needId m = [] ∧ a'.status ≠ .opened
  ended : call.ends needId = true → a'.status ≠ .opened

theorem follows_same {call : AuctionCall} (h : call.accepted config needId m = []) (hends : call.ends needId = false) :
    Follows config needId m call a a :=
  ⟨fun hstatus => ⟨h, hstatus⟩, fun hend => absurd hend (Bool.eq_false_iff.mp hends)⟩

theorem Holding.step (h : Holding needId budget offers m a) {call : AuctionCall} (hstart : call.starts needId = false) :
    ∃ a', Holding needId budget (offers ++ call.accepted config needId m) (call.apply config m) a' ∧
      Follows config needId m call a a' := by
  cases call with
  | start now id b =>
    have hne : needId ≠ id := fun heq => of_decide_eq_false hstart heq.symm
    refine ⟨a, ?_, follows_same rfl rfl⟩
    rw [AuctionCall.accepted, List.append_nil]
    exact h.of_found ((Table.get?_upsert _ _ _ _).trans (if_neg hne))
  | bid id offer =>
    by_cases hid : id = needId
    · subst hid
      by_cases haccepts : m.accepts config id offer.call
      · have hone : AuctionCall.accepted config id m (.bid id offer) = [offer] := if_pos ⟨rfl, haccepts⟩
        obtain ⟨a₀, found, hopened⟩ := accepts_opened haccepts
        obtain rfl := Option.some.inj (h.found.symm.trans found)
        obtain ⟨_, hwithin⟩ := (accepts_iff found hopened offer.call).mp haccepts
        rw [h.limit, withinBudget_iff] at hwithin
        have hbids : (a.antiSniping config offer.call.now).bids = a.bids := by
          unfold Auction.antiSniping
          dsimp only
          split
          · split <;> rfl
          · rfl
        refine ⟨_, ⟨bid_accepted found hopened haccepts, ?_, ?_, ?_⟩, fun hstatus => absurd hopened hstatus,
          fun hend => absurd hend Bool.false_ne_true⟩
        · exact (Auction.antiSniping_status config offer.call.now a).2.trans h.limit
        · rw [hone, List.map_append, ← h.bids, ← hbids]
          rfl
        · rw [hone]
          exact List.forall_mem_append.mpr ⟨h.within, List.forall_mem_singleton.mpr hwithin⟩
      · have hnone : AuctionCall.accepted config id m (.bid id offer) = [] := if_neg fun hboth => haccepts hboth.2
        refine ⟨a, ?_, follows_same hnone rfl⟩
        rw [hnone, List.append_nil]
        exact h.of_found (congrArg (fun m' : AuctionManager => m'.auctions.get? id) (bid_refused haccepts))
    · have hnone : AuctionCall.accepted config needId m (.bid id offer) = [] := if_neg fun hboth => hid hboth.1
      refine ⟨a, ?_, follows_same hnone rfl⟩
      rw [hnone, List.append_nil]
      exact h.of_found (bid_other (Ne.symm hid) offer.call)
  | close id =>
    have hclosed : AuctionStatus.closed ≠ .opened := by decide
    rw [AuctionCall.accepted, List.append_nil]
    by_cases hid : id = needId
    · subst hid
      exact ⟨_, ⟨close_found h.found, h.limit, h.bids, h.within⟩, fun _ => ⟨rfl, hclosed⟩, fun _ => hclosed⟩
    · exact ⟨a, h.of_found (close_other (Ne.symm hid)), follows_same rfl (decide_eq_false hid)⟩
  | timeout id =>
    have htimeout : AuctionStatus.timeout ≠ .opened := by decide
    rw [AuctionCall.accepted, List.append_nil]
    by_cases hid : id = needId
    · subst hid
      exact ⟨_, ⟨timeout_found h.found, h.limit, h.bids, h.within⟩, fun _ => ⟨rfl, htimeout⟩, fun _ => htimeout⟩
    · exact ⟨a, h.of_found (timeout_other (Ne.symm hid)), follows_same rfl (decide_eq_false hid)⟩

/-- The offers accepted in the calls from a manager on. -/
def acceptedFrom (config : AuctionConfig) (needId : String) (m : AuctionManager) (calls : List AuctionCall) : List Offer :=
  (stepsOf (AuctionCall.apply config) m calls).flatMap fun e => e.2.1.accepted config needId e.1

theorem acceptedFrom_cons (call : AuctionCall) (rest : List AuctionCall) : acceptedFrom config needId m (call :: rest) =
    call.accepted config needId m ++ acceptedFrom config needId (call.apply config m) rest := rfl

theorem acceptedFrom_append (calls more : List AuctionCall) : acceptedFrom config needId m (calls ++ more) =
    acceptedFrom config needId m calls ++ acceptedFrom config needId (calls.foldl (AuctionCall.apply config) m) more := by
  rw [acceptedFrom, stepsOf_append, List.flatMap_append]
  rfl

theorem acceptedOffers_append (calls more : List AuctionCall) : acceptedOffers config needId (calls ++ more) =
    acceptedOffers config needId calls ++ acceptedFrom config needId (runCalls config calls) more := acceptedFrom_append calls more

theorem runCalls_append (calls more : List AuctionCall) :
    runCalls config (calls ++ more) = more.foldl (AuctionCall.apply config) (runCalls config calls) := List.foldl_append

theorem accepted_of_ends {call : AuctionCall} (h : call.ends needId = true) : call.accepted config needId m = [] := by
  cases call with
  | start now id b => rfl
  | bid id offer => exact absurd h Bool.false_ne_true
  | close id => rfl
  | timeout id => rfl

theorem Holding.run (h : Holding needId budget offers m a) {calls : List AuctionCall}
    (hstart : ∀ call ∈ calls, call.starts needId = false) :
    ∃ a', Holding needId budget (offers ++ acceptedFrom config needId m calls) (calls.foldl (AuctionCall.apply config) m) a' ∧
      (a.status ≠ .opened → acceptedFrom config needId m calls = []) := by
  induction calls generalizing offers m a with
  | nil =>
    refine ⟨a, ?_, fun _ => rfl⟩
    rw [show acceptedFrom config needId m [] = [] from rfl, List.append_nil]
    exact h
  | cons call rest ih =>
    obtain ⟨hfirst, hrest⟩ := List.forall_mem_cons.mp hstart
    obtain ⟨a₁, h₁, hfollows⟩ := h.step hfirst
    obtain ⟨a', h', hnone⟩ := ih h₁ hrest
    rw [acceptedFrom_cons]
    refine ⟨a', ?_, fun hstatus => ?_⟩
    · rw [← List.append_assoc]
      exact h'
    · obtain ⟨hcall, hstatus₁⟩ := hfollows.settled hstatus
      rw [hcall, hnone hstatus₁, List.append_nil]

theorem absent_step (h : m.auctions.get? needId = none) {call : AuctionCall} (hstart : call.starts needId = false) :
    (call.apply config m).auctions.get? needId = none ∧ call.accepted config needId m = [] := by
  cases call with
  | start now id b =>
    have hne : needId ≠ id := fun heq => of_decide_eq_false hstart heq.symm
    exact ⟨((Table.get?_upsert _ _ _ _).trans (if_neg hne)).trans h, rfl⟩
  | bid id offer =>
    have hnot : ¬(id = needId ∧ m.accepts config id offer.call) := by
      rintro ⟨rfl, haccepts⟩
      obtain ⟨a, found, _⟩ := accepts_opened haccepts
      cases h.symm.trans found
    refine ⟨?_, if_neg hnot⟩
    by_cases hid : id = needId
    · subst hid
      have hrefused : m.bid config id offer.call = m := bid_refused fun haccepts => hnot ⟨rfl, haccepts⟩
      rw [AuctionCall.apply, hrefused]
      exact h
    · exact (bid_other (Ne.symm hid) offer.call).trans h
  | close id =>
    refine ⟨?_, rfl⟩
    by_cases hid : id = needId
    · subst hid
      rw [AuctionCall.apply, closeAuction, h]
      exact h
    · exact (close_other (Ne.symm hid)).trans h
  | timeout id =>
    refine ⟨?_, rfl⟩
    by_cases hid : id = needId
    · subst hid
      rw [AuctionCall.apply, timeoutAuction, h]
      exact h
    · exact (timeout_other (Ne.symm hid)).trans h

theorem absent_run (h : m.auctions.get? needId = none) {calls : List AuctionCall}
    (hstart : ∀ call ∈ calls, call.starts needId = false) : acceptedFrom config needId m calls = [] := by
  induction calls generalizing m with
  | nil => rfl
  | cons call rest ih =>
    obtain ⟨hfirst, hrest⟩ := List.forall_mem_cons.mp hstart
    obtain ⟨habsent, hnone⟩ := @absent_step config _ _ h _ hfirst
    rw [acceptedFrom_cons, hnone, ih habsent hrest, List.append_nil]

theorem holding_start (now : Int) (m : AuctionManager) (needId : String) (budget : Budget) :
    ∃ a, Holding needId budget [] (m.startAuction now needId budget.value) a :=
  ⟨_, (Table.get?_upsert _ _ _ _).trans (if_pos rfl), rfl, rfl, List.forall_mem_nil _⟩

open BidEvaluator in
theorem Holding.closeAuction_eq (h : Holding needId budget offers m a) : (m.closeAuction needId).1 =
    if offers.isEmpty then some none else selectWinner ((offers.map Offer.bid).map Bid.toDict) budget.value := by
  have hbids : a.bids.isEmpty = offers.isEmpty := by rw [h.bids, List.isEmpty_map]
  rw [closeAuction, h.found]
  simp only [hbids]
  split
  · rfl
  · rw [h.bids, h.limit]

open BidEvaluator in
/-- A close returns the best of the offers, if there are any. -/
theorem Holding.chosen (h : Holding needId budget offers m a) : Chosen budget offers (m.closeAuction needId).1 := by
  rw [h.closeAuction_eq]
  by_cases hempty : offers = []
  · exact .inl ⟨hempty, if_pos (List.isEmpty_iff.mpr hempty)⟩
  · rw [if_neg (mt List.isEmpty_iff.mp hempty)]
    have hmem : ∀ {r}, r ∈ (offers.map Offer.bid).map Bid.toDict ↔ ∃ o ∈ offers, o.bid.toDict = r := by
      intro r
      simp only [List.map_map, List.mem_map, Function.comp_apply]
    have hrep : ∀ o : Offer, reputationOf o.bid.toDict = some o.reputation := by
      intro o
      obtain ⟨_, _, hget, _⟩ := o.bid.get?_toDict
      rw [reputationOf, hget]
      exact o.rational?_reputation
    have harrival : ∀ o : Offer, timestampOf o.bid.toDict = some ((o.now : ℚ) : WithTop ℚ) := by
      intro o
      obtain ⟨_, _, _, _, hget⟩ := o.bid.get?_toDict
      rw [timestampOf, hget]
      rfl
    have hall : ∀ {P : Record → Prop}, (∀ o : Offer, P o.bid.toDict) → ∀ r ∈ (offers.map Offer.bid).map Bid.toDict, P r := by
      intro P hP r hr
      obtain ⟨o, _, rfl⟩ := hmem.mp hr
      exact hP o
    have hne : (offers.map Offer.bid).map Bid.toDict ≠ [] := fun hnil =>
      hempty (List.map_eq_nil_iff.mp (List.map_eq_nil_iff.mp hnil))
    obtain ⟨w, hw, hselect, hscore, hreputation, htimestamp⟩ := @selectWinner_spec (fun r => (reputationOf r).getD 0)
      (fun r => (timestampOf r).getD ⊤) _ (fun r => (scoreBid r budget.value).getD 0) budget.value
      (hall fun o => by rw [o.scoreBid_eq budget, Option.getD_some]) (hall fun o => by rw [hrep, Option.getD_some])
      (hall fun o => by rw [harrival, Option.getD_some]) hne
    obtain ⟨o, ho, rfl⟩ := hmem.mp hw
    have hcompare : ∀ o' ∈ offers, o'.bid.toDict ∈ (offers.map Offer.bid).map Bid.toDict := fun o' ho' => hmem.mpr ⟨o', ho', rfl⟩
    refine .inr ⟨o, ⟨ho, h.within o ho, ?_, ?_, ?_⟩, hselect⟩
    · exact fun o' ho' => hscore _ (hcompare o' ho')
    · intro o' ho' heq
      have hle := hreputation _ (hcompare o' ho') heq
      simpa only [hrep, Option.getD_some] using hle
    · intro o' ho' heq hequal
      have hle := htimestamp _ (hcompare o' ho') heq (by simpa only [hrep, Option.getD_some] using hequal)
      simp only [harrival, Option.getD_some, WithTop.coe_le_coe] at hle
      exact_mod_cast hle

/-- An auction that is started once has one winner, the best of the offers accepted for
it; once it is closed or timed out, nothing is accepted and every close returns the same. -/
theorem best_bid_wins (config : AuctionConfig) {needId : String} {before after : List AuctionCall} (now : Int) (budget : Budget)
    (once : ∀ call ∈ before ++ after, call.starts needId = false) :
    Chosen budget (acceptedOffers config needId (before ++ .start now needId budget :: after))
        ((runCalls config (before ++ .start now needId budget :: after)).closeAuction needId).1 ∧
      ∀ mid ending rest, after = mid ++ ending :: rest → ending.ends needId = true →
        acceptedOffers config needId (before ++ .start now needId budget :: after) =
            acceptedOffers config needId (before ++ .start now needId budget :: mid) ∧
          ((runCalls config (before ++ .start now needId budget :: after)).closeAuction needId).1 =
            ((runCalls config (before ++ .start now needId budget :: mid)).closeAuction needId).1 := by
  obtain ⟨hbefore, hafter⟩ := List.forall_mem_append.mp once
  have hheld : ∀ calls, (∀ call ∈ calls, call.starts needId = false) → ∃ a,
      Holding needId budget (acceptedOffers config needId (before ++ .start now needId budget :: calls))
        (runCalls config (before ++ .start now needId budget :: calls)) a := by
    intro calls hcalls
    obtain ⟨a₀, h₀⟩ := holding_start now (runCalls config before) needId budget
    obtain ⟨a, h, _⟩ := @Holding.run config _ _ _ _ _ h₀ _ hcalls
    have hnone : acceptedOffers config needId before = [] := absent_run rfl hbefore
    rw [acceptedOffers_append, runCalls_append, hnone]
    exact ⟨a, h⟩
  obtain ⟨a, h⟩ := hheld after hafter
  refine ⟨h.chosen, ?_⟩
  rintro mid ending rest rfl hends
  obtain ⟨hmid, hrest⟩ := List.forall_mem_append.mp hafter
  obtain ⟨hending, hrest⟩ := List.forall_mem_cons.mp hrest
  obtain ⟨a₁, h₁⟩ := hheld mid hmid
  have hsame : acceptedOffers config needId (before ++ .start now needId budget :: (mid ++ ending :: rest)) =
      acceptedOffers config needId (before ++ .start now needId budget :: mid) := by
    obtain ⟨a₂, h₂, hfollows⟩ := @Holding.step config _ _ _ _ _ h₁ _ hending
    obtain ⟨_, _, hnone⟩ := @Holding.run config _ _ _ _ _ h₂ _ hrest
    rw [← List.cons_append, ← List.append_assoc, acceptedOffers_append, acceptedFrom_cons, accepted_of_ends hends,
      hnone (hfollows.ended hends), List.append_nil, List.append_nil]
  refine ⟨hsame, ?_⟩
  rw [h.closeAuction_eq, h₁.closeAuction_eq, hsame]

end Life

def sampleBudget : Budget := ⟨.int 200, 200, rfl, by norm_num⟩

theorem best_bid_wins_one :
    Chosen sampleBudget (acceptedOffers ⟨30⟩ "need" ([] ++ .start 0 "need" sampleBudget :: [.bid "need" (plainOffer 150)]))
      ((runCalls ⟨30⟩ ([] ++ .start 0 "need" sampleBudget :: [.bid "need" (plainOffer 150)])).closeAuction "need").1 :=
  (best_bid_wins ⟨30⟩ 0 sampleBudget (by decide)).1

end AgentNetwork.Bidding
