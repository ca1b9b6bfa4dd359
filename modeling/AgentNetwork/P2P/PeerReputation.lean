import AgentNetwork.Library.ListSet
import AgentNetwork.Library.StableSort
import AgentNetwork.Library.Table
import AgentNetwork.Library.Traces
import Mathlib.Algebra.Order.Ring.Rat
import Mathlib.Tactic.NormNum

/-! The reputation of peers: what is recorded of their messages, the score that is made of it
and the blacklist. -/

namespace AgentNetwork.P2P

open Relational StableSort Transition

structure PeerStats where
  peerId : String
  messagesDelivered : Nat
  messagesFailed : Nat
  totalLatencyMs : ℚ
  latencySamples : Nat
  lastSeen : ℚ
  firstSeen : ℚ
  blacklisted : Bool
  deriving DecidableEq

namespace PeerStats

def new (peerId : String) (now : ℚ) : PeerStats := ⟨peerId, 0, 0, 0, 0, now, now, false⟩

def getReliability (stats : PeerStats) : ℚ :=
  let total := stats.messagesDelivered + stats.messagesFailed
  if total = 0 then 1 / 2 else stats.messagesDelivered / total

def getAvgLatencyMs (stats : PeerStats) : ℚ :=
  if stats.latencySamples = 0 then 0 else stats.totalLatencyMs / stats.latencySamples

end PeerStats

def blacklistThreshold : ℚ := 3 / 10

def goodLatencyMs : ℚ := 100

def badLatencyMs : ℚ := 1000

structure PeerReputation where
  blacklistThreshold : ℚ
  peers : Table String PeerStats
  blacklist : ListSet String
  deriving DecidableEq

namespace PeerReputation

def new (blacklistThreshold : ℚ) : PeerReputation := ⟨blacklistThreshold, .empty, .empty⟩

/-- `_get_or_create_stats`; the callers store what they make of it. -/
def getOrCreateStats (r : PeerReputation) (peerId : String) (now : ℚ) : PeerStats :=
  (r.peers.get? peerId).getD (.new peerId now)

/-- The part of the score that the latency makes; no latency known counts as a good one. -/
def latencyScore (avgLatency : ℚ) : ℚ :=
  if avgLatency = 0 then 3 / 10
  else if avgLatency ≤ goodLatencyMs then 3 / 10
  else if badLatencyMs ≤ avgLatency then 0
  else (badLatencyMs - avgLatency) / (badLatencyMs - goodLatencyMs) * (3 / 10)

def scoreOf (stats : PeerStats) : ℚ :=
  max 0 (min 1 (stats.getReliability * (7 / 10) + latencyScore stats.getAvgLatencyMs))

def getScore (r : PeerReputation) (peerId : String) : ℚ :=
  match r.peers.get? peerId with
  | none => 1 / 2
  | some stats => scoreOf stats

def isBlacklisted (r : PeerReputation) (peerId : String) : Bool := peerId ∈ r.blacklist

/-- The stats after one more delivered message. -/
def delivered (stats : PeerStats) (latencyMs : Option ℚ) (now : ℚ) : PeerStats :=
  { stats with
    messagesDelivered := stats.messagesDelivered + 1
    lastSeen := now
    totalLatencyMs := stats.totalLatencyMs + latencyMs.getD 0
    latencySamples := stats.latencySamples + if latencyMs.isSome then 1 else 0 }

def withStats (r : PeerReputation) (peerId : String) (stats : PeerStats) : PeerReputation :=
  { r with peers := r.peers.upsert peerId stats }

/-- The blacklist and the flag of the stats, changed together. -/
def setBlacklisted (r : PeerReputation) (peerId : String) (blacklisted : Bool) : PeerReputation where
  blacklistThreshold := r.blacklistThreshold
  peers := r.peers.modify peerId fun stats => { stats with blacklisted := blacklisted }
  blacklist := if blacklisted then r.blacklist.add peerId else r.blacklist.filter (· ≠ peerId)

def recordMessageDelivered (r : PeerReputation) (peerId : String) (latencyMs : Option ℚ) (now : ℚ) : PeerReputation :=
  let r' := r.withStats peerId (delivered (r.getOrCreateStats peerId now) latencyMs now)
  if peerId ∈ r'.blacklist ∧ r'.blacklistThreshold + 1 / 10 < r'.getScore peerId then r'.setBlacklisted peerId false else r'

def failed (stats : PeerStats) (now : ℚ) : PeerStats :=
  { stats with messagesFailed := stats.messagesFailed + 1, lastSeen := now }

def recordMessageFailed (r : PeerReputation) (peerId : String) (now : ℚ) : PeerReputation :=
  let r' := r.withStats peerId (failed (r.getOrCreateStats peerId now) now)
  if r'.getScore peerId < r'.blacklistThreshold ∧ peerId ∉ r'.blacklist then r'.setBlacklisted peerId true else r'

/-- `get_worst_peers`. -/
def getWorstPeers (r : PeerReputation) (count : Nat) : List String := (sortOn r.getScore r.peers.keys).take count

/-- The flag in the stats of a peer. -/
def Flagged (r : PeerReputation) (peerId : String) : Prop :=
  ∃ stats, r.peers.get? peerId = some stats ∧ stats.blacklisted = true

section Records

variable {r : PeerReputation} {peerId other : String} {stats : PeerStats}

@[simp] theorem getScore_setBlacklisted (b : Bool) : (r.setBlacklisted peerId b).getScore other = r.getScore other := by
  unfold getScore
  rw [setBlacklisted, Table.get?_modify]
  by_cases h : other = peerId
  · subst h
    rw [if_pos rfl]
    cases r.peers.get? other <;> rfl
  · rw [if_neg h]

@[simp] theorem mem_blacklist_setBlacklisted (b : Bool) :
    other ∈ (r.setBlacklisted peerId b).blacklist ↔ if other = peerId then b = true else other ∈ r.blacklist := by
  cases b <;> by_cases h : other = peerId <;> simp [setBlacklisted, h]

theorem flagged_setBlacklisted (b : Bool) (hknown : r.peers.contains peerId = true) :
    (r.setBlacklisted peerId b).Flagged other ↔ if other = peerId then b = true else r.Flagged other := by
  obtain ⟨stats, hstats⟩ := Table.contains_eq_true_iff.mp hknown
  unfold Flagged
  rw [setBlacklisted, Table.get?_modify]
  by_cases h : other = peerId
  · subst h
    simp [hstats]
  · simp [h]

@[simp] theorem getScore_withStats_self : (r.withStats peerId stats).getScore peerId = scoreOf stats := by
  simp [getScore, withStats]

theorem getScore_withStats_of_ne (h : other ≠ peerId) : (r.withStats peerId stats).getScore other = r.getScore other := by
  simp [getScore, withStats, h]

@[simp] theorem blacklist_withStats : (r.withStats peerId stats).blacklist = r.blacklist := rfl

theorem contains_withStats :
    (r.withStats peerId stats).peers.contains other = (decide (other = peerId) || r.peers.contains other) := by
  by_cases h : other = peerId <;> simp [Table.contains, withStats, h]

theorem contains_setBlacklisted (b : Bool) : (r.setBlacklisted peerId b).peers.contains other = r.peers.contains other := by
  rw [Table.contains, setBlacklisted, Table.get?_modify]
  by_cases h : other = peerId
  · subst h
    rw [if_pos rfl, Option.isSome_map]
    rfl
  · rw [if_neg h]
    rfl

theorem contains_withStats_self : (r.withStats peerId stats).peers.contains peerId = true := by
  simp [Table.contains, withStats]

/-- New stats with the flag of the old ones keep the flags as they are. -/
theorem flagged_withStats (h : stats.blacklisted = ((r.peers.get? peerId).map (·.blacklisted)).getD false) :
    (r.withStats peerId stats).Flagged other ↔ r.Flagged other := by
  unfold Flagged
  rw [withStats, Table.get?_upsert]
  by_cases hother : other = peerId
  · subst hother
    rw [if_pos rfl]
    cases hget : r.peers.get? other with
    | none => simp [h, hget]
    | some old => simp [h, hget]
  · rw [if_neg hother]

theorem blacklisted_getOrCreateStats (now : ℚ) :
    (r.getOrCreateStats peerId now).blacklisted = ((r.peers.get? peerId).map (·.blacklisted)).getD false := by
  unfold getOrCreateStats
  cases r.peers.get? peerId <;> rfl

end Records

end PeerReputation

inductive ReputationCall
  | delivered (peerId : String) (latencyMs : Option ℚ) (now : ℚ)
  | failed (peerId : String) (now : ℚ)
  deriving DecidableEq

namespace ReputationCall

def peerId : ReputationCall → String
  | delivered peerId .. | failed peerId _ => peerId

def isDelivered : ReputationCall → Bool
  | delivered .. => true
  | failed .. => false

end ReputationCall

/-- The reputation system with what has been recorded, the newest first. -/
structure WatchedReputation where
  reputation : PeerReputation
  recorded : List ReputationCall

namespace WatchedReputation

def new (threshold : ℚ) : WatchedReputation := ⟨.new threshold, []⟩

def call (w : WatchedReputation) (c : ReputationCall) : WatchedReputation where
  reputation :=
    match c with
    | .delivered peerId latencyMs now => w.reputation.recordMessageDelivered peerId latencyMs now
    | .failed peerId now => w.reputation.recordMessageFailed peerId now
  recorded := c :: w.recorded

/-- The last recorded message of a peer. -/
def last (w : WatchedReputation) (peerId : String) : Option ReputationCall := w.recorded.find? (·.peerId = peerId)

/-- The blacklist follows the score: after a failure, into it below the threshold; after a
delivery, out of it above the threshold and a tenth. -/
structure FollowsScore (w : WatchedReputation) : Prop where
  failing : ∀ peerId c, w.last peerId = some c → c.isDelivered = false →
    w.reputation.getScore peerId < w.reputation.blacklistThreshold → peerId ∈ w.reputation.blacklist
  recovered : ∀ peerId c, w.last peerId = some c → c.isDelivered = true →
    w.reputation.blacklistThreshold + 1 / 10 < w.reputation.getScore peerId → peerId ∉ w.reputation.blacklist
  flagged : ∀ peerId, peerId ∈ w.reputation.blacklist ↔ w.reputation.Flagged peerId

/-- With the default threshold a peer that has only ever failed is in the blacklist. -/
def BlacklistsFailing (w : WatchedReputation) : Prop :=
  w.reputation.blacklistThreshold = blacklistThreshold → ∀ peerId, (∃ c ∈ w.recorded, c.peerId = peerId) →
    (∀ c ∈ w.recorded, c.peerId = peerId → c.isDelivered = false) → peerId ∈ w.reputation.blacklist

/-- With the default threshold the first recorded message of a peer is no failure. -/
def FirstDelivered (w : WatchedReputation) (c : ReputationCall) : Prop :=
  w.reputation.blacklistThreshold = blacklistThreshold → (∀ c' ∈ w.recorded, c'.peerId ≠ c.peerId) → c.isDelivered = true

section Calls

variable {w : WatchedReputation} {c : ReputationCall} {peerId : String}

theorem last_call (w : WatchedReputation) (c : ReputationCall) (peerId : String) :
    (w.call c).last peerId = if peerId = c.peerId then some c else w.last peerId := by
  unfold last call
  rw [List.find?_cons]
  by_cases h : peerId = c.peerId
  · simp [h]
  · simp [h, Ne.symm h]

/-- What makes a call change the blacklist, its peer having the score `score` then. -/
def Turns (w : WatchedReputation) (c : ReputationCall) (score : ℚ) : Prop :=
  if c.isDelivered then c.peerId ∈ w.reputation.blacklist ∧ w.reputation.blacklistThreshold + 1 / 10 < score
  else score < w.reputation.blacklistThreshold ∧ c.peerId ∉ w.reputation.blacklist

/-- A call stores new stats with the old flag; and where it turns it changes the blacklist and the flag. -/
theorem call_cases (w : WatchedReputation) (c : ReputationCall) :
    ∃ stats, stats.blacklisted = ((w.reputation.peers.get? c.peerId).map (·.blacklisted)).getD false ∧
      ((Turns w c (PeerReputation.scoreOf stats) ∧ (w.call c).reputation =
          (w.reputation.withStats c.peerId stats).setBlacklisted c.peerId (!c.isDelivered)) ∨
        (¬Turns w c (PeerReputation.scoreOf stats) ∧ (w.call c).reputation = w.reputation.withStats c.peerId stats)) := by
  cases c with
  | delivered sender latencyMs now =>
    refine ⟨PeerReputation.delivered (w.reputation.getOrCreateStats sender now) latencyMs now,
      PeerReputation.blacklisted_getOrCreateStats now, ?_⟩
    simp only [call, PeerReputation.recordMessageDelivered, PeerReputation.getScore_withStats_self]
    split
    next hturns => exact .inl ⟨hturns, rfl⟩
    next hnot => exact .inr ⟨hnot, rfl⟩
  | failed sender now =>
    refine ⟨PeerReputation.failed (w.reputation.getOrCreateStats sender now) now,
      PeerReputation.blacklisted_getOrCreateStats now, ?_⟩
    simp only [call, PeerReputation.recordMessageFailed, PeerReputation.getScore_withStats_self]
    split
    next hturns => exact .inl ⟨hturns, rfl⟩
    next hnot => exact .inr ⟨hnot, rfl⟩

@[simp] theorem threshold_call : (w.call c).reputation.blacklistThreshold = w.reputation.blacklistThreshold := by
  obtain ⟨stats, _, ⟨_, h⟩ | ⟨_, h⟩⟩ := call_cases w c <;>
    rw [h] <;>
    rfl

theorem getScore_call_of_ne (h : peerId ≠ c.peerId) : (w.call c).reputation.getScore peerId = w.reputation.getScore peerId := by
  obtain ⟨stats, _, ⟨_, hcall⟩ | ⟨_, hcall⟩⟩ := call_cases w c
  · rw [hcall, PeerReputation.getScore_setBlacklisted, PeerReputation.getScore_withStats_of_ne h]
  · rw [hcall, PeerReputation.getScore_withStats_of_ne h]

theorem mem_blacklist_call_of_ne (h : peerId ≠ c.peerId) :
    peerId ∈ (w.call c).reputation.blacklist ↔ peerId ∈ w.reputation.blacklist := by
  obtain ⟨stats, _, ⟨_, hcall⟩ | ⟨_, hcall⟩⟩ := call_cases w c
  · rw [hcall, PeerReputation.mem_blacklist_setBlacklisted, if_neg h]
    rfl
  · rw [hcall]
    rfl

/-- The blacklist of the peer of the call. -/
theorem mem_blacklist_call : c.peerId ∈ (w.call c).reputation.blacklist ↔
    if c.isDelivered then c.peerId ∈ w.reputation.blacklist ∧
      ¬w.reputation.blacklistThreshold + 1 / 10 < (w.call c).reputation.getScore c.peerId
    else c.peerId ∈ w.reputation.blacklist ∨ (w.call c).reputation.getScore c.peerId < w.reputation.blacklistThreshold := by
  obtain ⟨stats, _, ⟨hturns, hcall⟩ | ⟨hnot, hcall⟩⟩ := call_cases w c
  · rw [hcall, PeerReputation.mem_blacklist_setBlacklisted, if_pos rfl, PeerReputation.getScore_setBlacklisted,
      PeerReputation.getScore_withStats_self]
    unfold Turns at hturns
    cases hdelivered : c.isDelivered <;> simp_all
  · rw [hcall, PeerReputation.blacklist_withStats, PeerReputation.getScore_withStats_self]
    unfold Turns at hnot
    cases hdelivered : c.isDelivered <;> simp_all

theorem flagged_call (h : ∀ peerId, peerId ∈ w.reputation.blacklist ↔ w.reputation.Flagged peerId) (peerId : String) :
    peerId ∈ (w.call c).reputation.blacklist ↔ (w.call c).reputation.Flagged peerId := by
  obtain ⟨stats, hflag, ⟨_, hcall⟩ | ⟨_, hcall⟩⟩ := call_cases w c
  · rw [hcall, PeerReputation.mem_blacklist_setBlacklisted, PeerReputation.flagged_setBlacklisted _ PeerReputation.contains_withStats_self,
      PeerReputation.flagged_withStats hflag, ← h peerId]
    rfl
  · rw [hcall, PeerReputation.flagged_withStats hflag, ← h peerId]
    rfl

theorem contains_call : (w.call c).reputation.peers.contains peerId = (decide (peerId = c.peerId) || w.reputation.peers.contains peerId) := by
  obtain ⟨stats, _, ⟨_, hcall⟩ | ⟨_, hcall⟩⟩ := call_cases w c
  · rw [hcall, PeerReputation.contains_setBlacklisted, PeerReputation.contains_withStats]
  · rw [hcall, PeerReputation.contains_withStats]

/-- A peer whose first message fails has the default threshold for its score. -/
theorem getScore_first_failure (hfailed : c.isDelivered = false) (hunknown : w.reputation.peers.get? c.peerId = none) :
    (w.call c).reputation.getScore c.peerId = blacklistThreshold := by
  cases c with
  | delivered => cases hfailed
  | failed sender now =>
    have hnew : w.reputation.getOrCreateStats sender now = .new sender now := by
      unfold ReputationCall.peerId at hunknown
      rw [PeerReputation.getOrCreateStats, hunknown]
      rfl
    have hscore : PeerReputation.scoreOf (PeerReputation.failed (.new sender now) now) = blacklistThreshold := by
      norm_num [PeerReputation.scoreOf, PeerReputation.failed, PeerStats.new, PeerStats.getReliability, PeerStats.getAvgLatencyMs,
        PeerReputation.latencyScore, blacklistThreshold]
    simp only [call, PeerReputation.recordMessageFailed, ReputationCall.peerId, hnew]
    split
    · rw [PeerReputation.getScore_setBlacklisted, PeerReputation.getScore_withStats_self, hscore]
    · rw [PeerReputation.getScore_withStats_self, hscore]

end Calls

/-- As long as first messages are delivered under the default threshold: the blacklist
follows the score, and the stats are those of recorded messages, of delivered ones with them. -/
structure Tracks (w : WatchedReputation) : Prop where
  follows : w.FollowsScore
  recorded : ∀ peerId, w.reputation.peers.contains peerId = true → ∃ c ∈ w.recorded, c.peerId = peerId
  delivered : w.reputation.blacklistThreshold = blacklistThreshold → ∀ peerId, (∃ c ∈ w.recorded, c.peerId = peerId) →
    ∃ c ∈ w.recorded, c.peerId = peerId ∧ c.isDelivered = true

theorem tracks_new (threshold : ℚ) : (new threshold).Tracks := by
  refine ⟨⟨?_, ?_, ?_⟩, ?_, ?_⟩
  · intro _ _ h
    cases h
  · intro _ _ h
    cases h
  · intro peerId
    refine iff_of_false (ListSet.not_mem_empty peerId) ?_
    rintro ⟨_, h, _⟩
    cases h
  · intro _ h
    cases h
  · rintro _ _ ⟨_, h, _⟩
    cases h

variable {w : WatchedReputation} {c : ReputationCall}

theorem FollowsScore.call (h : w.FollowsScore) (c : ReputationCall) : (w.call c).FollowsScore := by
  refine ⟨fun peerId c' hlast hfailed hscore => ?_, fun peerId c' hlast hdelivered hscore => ?_, flagged_call h.flagged⟩
  · rw [last_call] at hlast
    rw [threshold_call] at hscore
    split at hlast
    next hsame =>
      subst hsame
      cases hlast
      rw [mem_blacklist_call, hfailed, if_neg Bool.false_ne_true]
      exact .inr hscore
    next hother =>
      rw [getScore_call_of_ne hother] at hscore
      exact (mem_blacklist_call_of_ne hother).mpr (h.failing peerId c' hlast hfailed hscore)
  · rw [last_call] at hlast
    rw [threshold_call] at hscore
    split at hlast
    next hsame =>
      subst hsame
      cases hlast
      rw [mem_blacklist_call, hdelivered, if_pos rfl]
      exact fun hboth => hboth.2 hscore
    next hother =>
      rw [getScore_call_of_ne hother] at hscore
      exact fun hmem => h.recovered peerId c' hlast hdelivered hscore ((mem_blacklist_call_of_ne hother).mp hmem)

theorem Tracks.call (h : w.Tracks) (hfirst : w.FirstDelivered c) : (w.call c).Tracks := by
  refine ⟨h.follows.call c, fun peerId hknown => ?_, fun hdefault peerId hrecorded => ?_⟩
  · rw [contains_call, Bool.or_eq_true, decide_eq_true_eq] at hknown
    rcases hknown with rfl | hold
    · exact ⟨c, List.mem_cons_self, rfl⟩
    · obtain ⟨c', hc', hpeer⟩ := h.recorded peerId hold
      exact ⟨c', List.mem_cons_of_mem _ hc', hpeer⟩
  · rw [threshold_call] at hdefault
    by_cases hold : ∃ c' ∈ w.recorded, c'.peerId = peerId
    · obtain ⟨c', hc', hboth⟩ := h.delivered hdefault peerId hold
      exact ⟨c', List.mem_cons_of_mem _ hc', hboth⟩
    · obtain ⟨c', hc', rfl⟩ := hrecorded
      rcases List.mem_cons.mp hc' with rfl | hc'
      · refine ⟨c', List.mem_cons_self, rfl, hfirst hdefault fun other hother hsame => hold ⟨other, hother, hsame⟩⟩
      · exact absurd ⟨c', hc', rfl⟩ hold

theorem Tracks.blacklistsFailing (h : w.Tracks) : w.BlacklistsFailing := by
  intro hdefault peerId hrecorded hfailed
  obtain ⟨c, hc, hpeer, hdelivered⟩ := h.delivered hdefault peerId hrecorded
  rw [hfailed c hc hpeer] at hdelivered
  cases hdelivered

theorem Tracks.blacklistsFailing_iff (h : w.Tracks) : (w.call c).BlacklistsFailing ↔ w.FirstDelivered c := by
  constructor
  · intro hall hdefault hnone
    by_contra hfailed
    have hfailed : c.isDelivered = false := Bool.eq_false_iff.mpr hfailed
    have hunknown : w.reputation.peers.get? c.peerId = none := by
      refine Table.contains_eq_false_iff.mp (Bool.eq_false_iff.mpr fun hknown => ?_)
      obtain ⟨c', hc', hsame⟩ := h.recorded c.peerId hknown
      exact hnone c' hc' hsame
    have hmem : c.peerId ∈ (w.call c).reputation.blacklist := by
      refine hall (threshold_call.trans hdefault) c.peerId ⟨c, List.mem_cons_self, rfl⟩ fun c' hc' hsame => ?_
      rcases List.mem_cons.mp hc' with rfl | hc'
      · exact hfailed
      · exact absurd hsame (hnone c' hc')
    rw [mem_blacklist_call, hfailed, if_neg Bool.false_ne_true] at hmem
    rcases hmem with hold | hscore
    · obtain ⟨stats, hstats, _⟩ := (h.follows.flagged c.peerId).mp hold
      rw [hunknown] at hstats
      cases hstats
    · rw [getScore_first_failure hfailed hunknown, hdefault] at hscore
      exact lt_irrefl _ hscore
  · exact fun hfirst => (h.call hfirst).blacklistsFailing

/-- The blacklist follows the score after every call, and it has the peers that only ever
failed just when, under the default threshold, no peer's first recorded message failed. -/
theorem blacklist_follows_score_iff (threshold : ℚ) (calls : List ReputationCall) :
    (∀ e ∈ stepsOf WatchedReputation.call (new threshold) calls, e.2.2.FollowsScore ∧ e.2.2.BlacklistsFailing) ↔
      ∀ e ∈ stepsOf WatchedReputation.call (new threshold) calls, e.1.FirstDelivered e.2.1 := by
  have htrace : Trace (fun w c w' => w' = WatchedReputation.call w c) (new threshold)
      (stepsOf WatchedReputation.call (new threshold) calls) (calls.foldl WatchedReputation.call (new threshold)) := Trace.ofCalls stepsOf_call
  refine @Trace.forall_iff _ _ _ _ _ _ FirstDelivered Tracks (fun _ _ w' => w'.FollowsScore ∧ w'.BlacklistsFailing) htrace
    (tracks_new threshold) ?_ ?_
  · rintro w c _ htracks hfirst rfl
    exact htracks.call hfirst
  · rintro w c _ htracks rfl
    rw [and_iff_right (htracks.follows.call c)]
    exact htracks.blacklistsFailing_iff

/-- A peer whose only message failed is not in the blacklist. -/
theorem failing_peer_kept : ¬BlacklistsFailing ((new blacklistThreshold).call (.failed "peer-1" 0)) := by
  intro h
  have hmem := h threshold_call "peer-1" ⟨_, List.mem_singleton_self _, rfl⟩ (by decide)
  revert hmem
  decide +kernel

end WatchedReputation

end AgentNetwork.P2P
