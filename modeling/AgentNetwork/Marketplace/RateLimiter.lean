import AgentNetwork.Library.SlidingWindow
import AgentNetwork.Library.Table
import AgentNetwork.Library.Traces
import Mathlib.Data.Real.Basic
import Mathlib.Tactic.Linarith

/-! The limit on the requests of an agent in a sliding window. Readings of the clock are
exact. -/

namespace AgentNetwork.Marketplace

open Relational SlidingWindow Transition

structure RateLimitEntry where
  agentId : String
  requestTimes : List ℚ
  deriving DecidableEq

structure RateLimiter where
  limitPerAgent : Int
  windowSeconds : ℚ
  entries : Table String RateLimitEntry
  blockedAgents : Table String ℚ

namespace RateLimiter

def init (limitPerAgent : Int) (windowHours : ℚ) : RateLimiter := ⟨limitPerAgent, windowHours * 3600, .empty, .empty⟩

/-- `check_rate` from the entry on. -/
def enforce (now : ℚ) (agentId : String) (l : RateLimiter) : Bool × RateLimiter :=
  let entry := (l.entries.get? agentId).getD ⟨agentId, []⟩
  let requestTimes := recent l.windowSeconds now entry.requestTimes
  if (requestTimes.length : Int) < l.limitPerAgent then
    (true, { l with entries := l.entries.upsert agentId { entry with requestTimes := requestTimes ++ [now] } })
  else (false, { l with entries := l.entries.upsert agentId { entry with requestTimes := requestTimes } })

def checkRate (now : ℚ) (agentId : String) (l : RateLimiter) : Bool × RateLimiter :=
  match l.blockedAgents.get? agentId with
  | none => l.enforce now agentId
  | some blockUntil =>
    if now < blockUntil then (false, l)
    else { l with blockedAgents := l.blockedAgents.erase agentId }.enforce now agentId

def getRemaining (now : ℚ) (agentId : String) (l : RateLimiter) : Int :=
  match l.entries.get? agentId with
  | none => l.limitPerAgent
  | some entry => max 0 (l.limitPerAgent - (recent l.windowSeconds now entry.requestTimes).length)

def blockAgent (now : ℚ) (agentId : String) (durationSeconds : ℚ) (l : RateLimiter) : RateLimiter :=
  { l with blockedAgents := l.blockedAgents.upsert agentId (now + durationSeconds) }

def isBlocked (now : ℚ) (agentId : String) (l : RateLimiter) : Bool × RateLimiter :=
  match l.blockedAgents.get? agentId with
  | none => (false, l)
  | some blockUntil =>
    if blockUntil ≤ now then (false, { l with blockedAgents := l.blockedAgents.erase agentId }) else (true, l)

def timesOf (agentId : String) (l : RateLimiter) : List ℚ := ((l.entries.get? agentId).map RateLimitEntry.requestTimes).getD []

/-- What `check_rate` keeps of the requests of an agent. -/
def keptTimes (now : ℚ) (agentId : String) (l : RateLimiter) : List ℚ := recent l.windowSeconds now (l.timesOf agentId)

theorem enforce_eq (now : ℚ) (agentId : String) (l : RateLimiter) : ∃ id, l.enforce now agentId =
    if ((l.keptTimes now agentId).length : Int) < l.limitPerAgent then
      (true, { l with entries := l.entries.upsert agentId ⟨id, l.keptTimes now agentId ++ [now]⟩ })
    else (false, { l with entries := l.entries.upsert agentId ⟨id, l.keptTimes now agentId⟩ }) := by
  unfold enforce keptTimes timesOf
  cases l.entries.get? agentId with
  | none => exact ⟨agentId, rfl⟩
  | some entry => exact ⟨entry.agentId, rfl⟩

theorem enforce_granted_iff (now : ℚ) (agentId : String) (l : RateLimiter) :
    (l.enforce now agentId).1 = true ↔ ((l.keptTimes now agentId).length : Int) < l.limitPerAgent := by
  obtain ⟨id, heq⟩ := l.enforce_eq now agentId
  rw [heq]
  split
  next hlt => exact iff_of_true rfl hlt
  next hge => exact iff_of_false Bool.false_ne_true hge

theorem getRemaining_pos_iff (now : ℚ) (agentId : String) (l : RateLimiter) :
    0 < l.getRemaining now agentId ↔ ((l.keptTimes now agentId).length : Int) < l.limitPerAgent := by
  unfold getRemaining keptTimes timesOf
  cases l.entries.get? agentId with
  | none => rfl
  | some entry =>
    simp only [Option.map_some, Option.getD_some]
    omega

/-- Requests that `check_rate` drops are those that `get_remaining` filters out. -/
theorem checkRate_iff (now : ℚ) (agentId : String) (l : RateLimiter) :
    (l.checkRate now agentId).1 = true ↔ (l.isBlocked now agentId).1 = false ∧ 0 < l.getRemaining now agentId := by
  have henforce : ∀ blocked, ({ l with blockedAgents := blocked }.enforce now agentId).1 = true ↔ 0 < l.getRemaining now agentId :=
    fun blocked => (enforce_granted_iff now agentId _).trans (getRemaining_pos_iff now agentId l).symm
  rw [checkRate, isBlocked]
  cases hblocked : l.blockedAgents.get? agentId with
  | none => exact (henforce l.blockedAgents).trans (and_iff_right rfl).symm
  | some blockUntil =>
    dsimp only
    by_cases hlt : now < blockUntil
    · rw [if_pos hlt, if_neg (not_le.mpr hlt)]
      exact iff_of_false Bool.false_ne_true fun h => Bool.false_ne_true h.1.symm
    · rw [if_neg hlt, if_pos (not_lt.mp hlt)]
      exact (henforce _).trans (and_iff_right rfl).symm

end RateLimiter

inductive RateRequest
  | checkRate
  | getRemaining
  | blockAgent (durationSeconds : ℚ)
  | isBlocked

/-- What is called on a limiter, for whom and when. -/
structure RateCall where
  now : ℚ
  agentId : String
  request : RateRequest

namespace RateCall

def apply (l : RateLimiter) (c : RateCall) : RateLimiter :=
  match c.request with
  | .checkRate => (l.checkRate c.now c.agentId).2
  | .getRemaining => l
  | .blockAgent durationSeconds => l.blockAgent c.now c.agentId durationSeconds
  | .isBlocked => (l.isBlocked c.now c.agentId).2

/-- When the call is a `check_rate` of the agent that returns True. -/
def granted (agentId : String) (l : RateLimiter) (c : RateCall) : List ℚ :=
  match c.request with
  | .checkRate => if c.agentId = agentId ∧ (l.checkRate c.now c.agentId).1 = true then [c.now] else []
  | .getRemaining | .blockAgent _ | .isBlocked => []

end RateCall

/-- When the requests of an agent were granted, in calls from a limiter on. -/
def grantedTimes (agentId : String) (l : RateLimiter) (calls : List RateCall) : List ℚ :=
  (stepsOf RateCall.apply l calls).flatMap fun e => e.2.1.granted agentId e.1

/-- The limiter still sees the requests granted to the agent that count. -/
structure Remembers (agentId : String) (limit : Int) (window last : ℚ) (granted : List ℚ) (l : RateLimiter) : Prop where
  config : l.limitPerAgent = limit ∧ l.windowSeconds = window
  admitted : Admitted window limit.toNat granted
  counted : ∀ now, last ≤ now → recent window now (l.timesOf agentId) = recent window now granted

section Run

variable {agentId id : String} {limit : Int} {window last now : ℚ} {granted : List ℚ} {l l' : RateLimiter}

theorem Remembers.same (h : Remembers agentId limit window last granted l) (hlast : last ≤ now)
    (hconfig : l'.limitPerAgent = l.limitPerAgent ∧ l'.windowSeconds = l.windowSeconds)
    (htimes : l'.timesOf agentId = l.timesOf agentId) : Remembers agentId limit window now granted l' := by
  refine ⟨⟨hconfig.1.trans h.config.1, hconfig.2.trans h.config.2⟩, h.admitted, fun later hlater => ?_⟩
  rw [htimes]
  exact h.counted later (hlast.trans hlater)

theorem timesOf_upsert (l : RateLimiter) (key : String) (entry : RateLimitEntry) (agentId : String) :
    { l with entries := l.entries.upsert key entry }.timesOf agentId =
      if agentId = key then entry.requestTimes else l.timesOf agentId := by
  unfold RateLimiter.timesOf
  rw [Table.get?_upsert]
  split <;> rfl

theorem enforce_other (hne : agentId ≠ id) (now : ℚ) (l : RateLimiter) :
    ((l.enforce now id).2.limitPerAgent = l.limitPerAgent ∧ (l.enforce now id).2.windowSeconds = l.windowSeconds) ∧
      (l.enforce now id).2.timesOf agentId = l.timesOf agentId := by
  obtain ⟨key, heq⟩ := l.enforce_eq now id
  rw [heq]
  split <;> exact ⟨⟨rfl, rfl⟩, (timesOf_upsert _ _ _ _).trans (if_neg hne)⟩

/-- A check drops what no later check would see, and adds what it grants. -/
theorem Remembers.enforce (h : Remembers agentId limit window last granted l) (hlast : last ≤ now) :
    Remembers agentId limit window now
      (granted ++ if (l.enforce now agentId).1 = true then [now] else []) (l.enforce now agentId).2 := by
  have hkept : l.keptTimes now agentId = recent window now granted := by
    rw [RateLimiter.keptTimes, h.config.2]
    exact h.counted now hlast
  have hseen : ∀ later, now ≤ later → recent window later (l.keptTimes now agentId) = recent window later granted := by
    intro later hlater
    rw [hkept, recent_recent hlater]
  have hgranted := l.enforce_granted_iff now agentId
  obtain ⟨id, heq⟩ := l.enforce_eq now agentId
  by_cases hlt : ((l.keptTimes now agentId).length : Int) < l.limitPerAgent
  · rw [if_pos (hgranted.mpr hlt), heq, if_pos hlt]
    have hfew : (recent window now granted).length < limit.toNat := by
      rw [h.config.1, hkept] at hlt
      omega
    refine ⟨h.config, .snoc h.admitted le_rfl hfew, fun later hlater => ?_⟩
    rw [timesOf_upsert, if_pos rfl, recent_append, recent_append, hseen later hlater]
  · rw [if_neg (mt hgranted.mp hlt), List.append_nil, heq, if_neg hlt]
    refine ⟨h.config, h.admitted, fun later hlater => ?_⟩
    rw [timesOf_upsert, if_pos rfl, hseen later hlater]

theorem Remembers.checkRate (h : Remembers agentId limit window last granted l) (hlast : last ≤ now) :
    Remembers agentId limit window now
      (granted ++ if (l.checkRate now agentId).1 = true then [now] else []) (l.checkRate now agentId).2 := by
  unfold RateLimiter.checkRate
  split
  next => exact h.enforce hlast
  next =>
    split
    next =>
      rw [if_neg Bool.false_ne_true, List.append_nil]
      exact h.same hlast ⟨rfl, rfl⟩ rfl
    next =>
      have hsame : Remembers agentId limit window last granted { l with blockedAgents := l.blockedAgents.erase agentId } :=
        h.same le_rfl ⟨rfl, rfl⟩ rfl
      exact hsame.enforce hlast

theorem checkRate_other (hne : agentId ≠ id) (now : ℚ) (l : RateLimiter) :
    ((l.checkRate now id).2.limitPerAgent = l.limitPerAgent ∧ (l.checkRate now id).2.windowSeconds = l.windowSeconds) ∧
      (l.checkRate now id).2.timesOf agentId = l.timesOf agentId := by
  unfold RateLimiter.checkRate
  split
  next => exact enforce_other hne now l
  next =>
    split
    next => exact ⟨⟨rfl, rfl⟩, rfl⟩
    next => exact enforce_other hne now { l with blockedAgents := l.blockedAgents.erase id }

theorem Remembers.step (h : Remembers agentId limit window last granted l) {c : RateCall} (hlast : last ≤ c.now) :
    Remembers agentId limit window c.now (granted ++ c.granted agentId l) (c.apply l) := by
  obtain ⟨now, id, request⟩ := c
  cases request with
  | checkRate =>
    by_cases hid : id = agentId
    · subst hid
      have hcheck := h.checkRate hlast
      simpa only [RateCall.granted, RateCall.apply, true_and] using hcheck
    · have hnone : RateCall.granted agentId l ⟨now, id, .checkRate⟩ = [] := if_neg fun hboth => hid hboth.1
      obtain ⟨hconfig, htimes⟩ := checkRate_other (Ne.symm hid) now l
      rw [hnone, List.append_nil]
      exact h.same hlast hconfig htimes
  | getRemaining =>
    rw [RateCall.granted, List.append_nil]
    exact h.same hlast ⟨rfl, rfl⟩ rfl
  | blockAgent durationSeconds =>
    rw [RateCall.granted, List.append_nil]
    exact h.same hlast ⟨rfl, rfl⟩ rfl
  | isBlocked =>
    rw [RateCall.granted, List.append_nil]
    have hsame : ((l.isBlocked now id).2.limitPerAgent = l.limitPerAgent ∧ (l.isBlocked now id).2.windowSeconds = l.windowSeconds) ∧
        (l.isBlocked now id).2.timesOf agentId = l.timesOf agentId := by
      unfold RateLimiter.isBlocked
      split
      next => exact ⟨⟨rfl, rfl⟩, rfl⟩
      next => split <;> exact ⟨⟨rfl, rfl⟩, rfl⟩
    exact h.same hlast hsame.1 hsame.2

theorem Remembers.run (h : Remembers agentId limit window last granted l) {calls : List RateCall}
    (ordered : (calls.map RateCall.now).Pairwise (· ≤ ·)) (hlast : ∀ c ∈ calls, last ≤ c.now) :
    Admitted window limit.toNat (granted ++ grantedTimes agentId l calls) := by
  induction calls generalizing granted l last with
  | nil =>
    rw [show grantedTimes agentId l [] = [] from rfl, List.append_nil]
    exact h.admitted
  | cons c rest ih =>
    obtain ⟨hfirst, _⟩ := List.forall_mem_cons.mp hlast
    rw [List.map_cons, List.pairwise_cons] at ordered
    have hrest : ∀ c' ∈ rest, c.now ≤ c'.now := fun c' hc' => ordered.1 _ (List.mem_map_of_mem hc')
    have hrun := ih (h.step hfirst) ordered.2 hrest
    rw [List.append_assoc] at hrun
    exact hrun

end Run

/-- The readings of the clock do not go back. -/
def ClockMonotone (calls : List RateCall) : Prop := (calls.map RateCall.now).Pairwise (· ≤ ·)

open Classical in
/-- Of the requests granted to an agent at most so many lie in a window, wherever it
ends; a check grants one exactly if the agent is not blocked and has requests left. -/
theorem rate_limit_slides (limitPerAgent : Int) (windowHours : ℚ) {calls : List RateCall} (ordered : ClockMonotone calls) (agentId : String) :
    (∀ t : ℝ, ((grantedTimes agentId (.init limitPerAgent windowHours) calls).filter fun s : ℚ =>
        t - (windowHours * 3600 : ℚ) < (s : ℝ) ∧ (s : ℝ) ≤ t).length ≤ limitPerAgent.toNat) ∧
      ∀ now, ((calls.foldl RateCall.apply (.init limitPerAgent windowHours)).checkRate now agentId).1 = true ↔
        ((calls.foldl RateCall.apply (.init limitPerAgent windowHours)).isBlocked now agentId).1 = false ∧
          0 < (calls.foldl RateCall.apply (.init limitPerAgent windowHours)).getRemaining now agentId := by
  refine ⟨fun t => ?_, fun now => RateLimiter.checkRate_iff now agentId _⟩
  have hstart : ∀ last, Remembers agentId limitPerAgent (windowHours * 3600) last [] (.init limitPerAgent windowHours) :=
    fun last => ⟨⟨rfl, rfl⟩, .nil, fun _ _ => rfl⟩
  have hadmitted : Admitted (windowHours * 3600) limitPerAgent.toNat (grantedTimes agentId (.init limitPerAgent windowHours) calls) := by
    cases calls with
    | nil => exact .nil
    | cons first rest =>
      refine (hstart first.now).run ordered (List.forall_mem_cons.mpr ⟨le_rfl, fun c hc => ?_⟩)
      exact (List.pairwise_cons.mp ordered).1 _ (List.mem_map_of_mem hc)
  refine hadmitted.length_le _ fun s hs r hr => ?_
  obtain ⟨_, hst⟩ := of_decide_eq_true hs
  obtain ⟨hrt, _⟩ := of_decide_eq_true hr
  have hreal : ((s - windowHours * 3600 : ℚ) : ℝ) < (r : ℝ) := by
    push_cast at hrt ⊢
    linarith
  exact_mod_cast hreal

def threeChecks : List RateCall := [⟨0, "a", .checkRate⟩, ⟨1, "a", .checkRate⟩, ⟨3600, "a", .checkRate⟩]

open Classical in
theorem rate_limit_slides_three :
    (∀ t : ℝ, ((grantedTimes "a" (.init 1 1) threeChecks).filter fun s : ℚ =>
        t - ((1 : ℚ) * 3600 : ℚ) < (s : ℝ) ∧ (s : ℝ) ≤ t).length ≤ (1 : Int).toNat) ∧
      ∀ now, ((threeChecks.foldl RateCall.apply (.init 1 1)).checkRate now "a").1 = true ↔
        ((threeChecks.foldl RateCall.apply (.init 1 1)).isBlocked now "a").1 = false ∧
          0 < (threeChecks.foldl RateCall.apply (.init 1 1)).getRemaining now "a" :=
  rate_limit_slides 1 1 (by norm_num [ClockMonotone, threeChecks]) "a"

end AgentNetwork.Marketplace
