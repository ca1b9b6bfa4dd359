import AgentNetwork.Library.Traces
import Mathlib.Algebra.Order.Group.Int
import Mathlib.Order.Lattice

/-! The circuit breaker and what is counted while it is half open. Instants and
durations are microseconds, as `datetime` has them. -/

namespace AgentNetwork.Marketplace

open Transition

inductive CircuitState
  | closed
  | opened
  | halfOpen
  deriving DecidableEq

structure CircuitBreakerEvent (Value : Type) where
  timestamp : Int
  reason : String
  metric : Option String
  value : Option Value
  threshold : Option Value

structure CircuitBreaker (Value : Type) where
  failureThreshold : Int
  recoveryTimeout : Int
  halfOpenMaxCalls : Int
  state : CircuitState
  failureCount : Int
  lastFailureTime : Option Int
  tripTime : Option Int
  halfOpenCalls : Int
  events : List (CircuitBreakerEvent Value)

namespace CircuitBreaker

variable {Value : Type}

def init (failureThreshold recoveryTimeoutSeconds halfOpenMaxCalls : Int) : CircuitBreaker Value where
  failureThreshold := failureThreshold
  recoveryTimeout := recoveryTimeoutSeconds * 1000000
  halfOpenMaxCalls := halfOpenMaxCalls
  state := .closed
  failureCount := 0
  lastFailureTime := none
  tripTime := none
  halfOpenCalls := 0
  events := []

def resetBreaker (b : CircuitBreaker Value) : CircuitBreaker Value :=
  { b with state := .closed, failureCount := 0, halfOpenCalls := 0, lastFailureTime := none, tripTime := none }

/-- `trip_time and now - trip_time >= recovery_timeout`. -/
def mayRecover (now : Int) (b : CircuitBreaker Value) : Bool :=
  match b.tripTime with
  | none => false
  | some tripTime => b.recoveryTimeout ≤ now - tripTime

def toHalfOpen (b : CircuitBreaker Value) : CircuitBreaker Value := { b with state := .halfOpen, halfOpenCalls := 0 }

def isOpen (now : Int) (b : CircuitBreaker Value) : Bool × CircuitBreaker Value :=
  if b.state = .opened then
    if b.mayRecover now then (false, b.toHalfOpen) else (true, b)
  else (false, b)

def callAllowed (now : Int) (b : CircuitBreaker Value) : Bool × CircuitBreaker Value :=
  match b.state with
  | .closed => (true, b)
  -- the call that makes the transition is let through without being counted
  | .opened => if b.mayRecover now then (true, b.toHalfOpen) else (false, b)
  | .halfOpen =>
    if b.halfOpenCalls < b.halfOpenMaxCalls then (true, { b with halfOpenCalls := b.halfOpenCalls + 1 })
    else (false, b)

def getState (now : Int) (b : CircuitBreaker Value) : CircuitState × CircuitBreaker Value :=
  ((b.isOpen now).2.state, (b.isOpen now).2)

def tripCircuit (reason : String) (now : Int) (b : CircuitBreaker Value) : CircuitBreaker Value :=
  { b with state := .opened, tripTime := some now, events := b.events ++ [⟨now, reason, none, none, none⟩] }

/-- The clock is read for the failure, and again where the circuit is tripped. -/
def recordFailure (metric : String) (value threshold : Value) (now tripped : Int) (b : CircuitBreaker Value) :
    CircuitBreaker Value :=
  let b := { b with
    failureCount := b.failureCount + 1
    lastFailureTime := some now
    events := b.events ++ [⟨now, s!"Metric {metric} exceeded threshold", some metric, some value, some threshold⟩] }
  if b.state = .halfOpen then b.tripCircuit s!"Failure during recovery test: {metric}" tripped
  else if b.failureThreshold ≤ b.failureCount then b.tripCircuit s!"Failure threshold reached: {metric}" tripped
  else b

def recordSuccess (b : CircuitBreaker Value) : CircuitBreaker Value :=
  match b.state with
  | .halfOpen =>
    let b := { b with halfOpenCalls := b.halfOpenCalls + 1 }
    if b.halfOpenMaxCalls ≤ b.halfOpenCalls then b.resetBreaker else b
  | .closed => if 0 < b.failureCount then { b with failureCount := max 0 (b.failureCount - 1) } else b
  | .opened => b

def checkAnomaly [LT Value] [DecidableLT Value] (metric : String) (value threshold : Value) (now tripped : Int)
    (b : CircuitBreaker Value) : Bool × CircuitBreaker Value :=
  if threshold < value then (true, b.recordFailure metric value threshold now tripped) else (false, b.recordSuccess)

def triggerBreaker (reason : String) (now : Int) (b : CircuitBreaker Value) : CircuitBreaker Value := b.tripCircuit reason now

variable {b : CircuitBreaker Value}

theorem isOpen_cases (now : Int) (b : CircuitBreaker Value) :
    (b.isOpen now).2 = b ∨ b.state = .opened ∧ (b.isOpen now).2 = b.toHalfOpen := by
  unfold isOpen
  split
  next hopened =>
    split
    · exact .inr ⟨hopened, rfl⟩
    · exact .inl rfl
  next => exact .inl rfl

theorem recordFailure_cases (metric : String) (value threshold : Value) (now tripped : Int) (b : CircuitBreaker Value) :
    (b.recordFailure metric value threshold now tripped).halfOpenMaxCalls = b.halfOpenMaxCalls ∧
      ((b.recordFailure metric value threshold now tripped).state = .opened ∨
        b.state ≠ .halfOpen ∧ (b.recordFailure metric value threshold now tripped).state = b.state) := by
  unfold recordFailure
  dsimp only
  split
  next => exact ⟨rfl, .inl rfl⟩
  next hstate =>
    split
    · exact ⟨rfl, .inl rfl⟩
    · exact ⟨rfl, .inr ⟨hstate, rfl⟩⟩

/-- Outside the half-open state a successful check does not change the state. -/
theorem recordSuccess_elsewhere (h : b.state ≠ .halfOpen) :
    b.recordSuccess.state = b.state ∧ b.recordSuccess.halfOpenMaxCalls = b.halfOpenMaxCalls := by
  unfold recordSuccess
  split
  next hstate => exact absurd hstate h
  next =>
    split <;> exact ⟨rfl, rfl⟩
  next => exact ⟨rfl, rfl⟩

theorem recordSuccess_halfOpen (h : b.state = .halfOpen) : b.recordSuccess =
    if b.halfOpenMaxCalls ≤ b.halfOpenCalls + 1 then { b with halfOpenCalls := b.halfOpenCalls + 1 }.resetBreaker
    else { b with halfOpenCalls := b.halfOpenCalls + 1 } := by
  unfold recordSuccess
  rw [h]

theorem callAllowed_halfOpen (h : b.state = .halfOpen) (now : Int) : b.callAllowed now =
    if b.halfOpenCalls < b.halfOpenMaxCalls then (true, { b with halfOpenCalls := b.halfOpenCalls + 1 }) else (false, b) := by
  unfold callAllowed
  rw [h]

end CircuitBreaker

/-- What is called on a breaker, with the readings of the clock. -/
inductive BreakerCall (Value : Type)
  | callAllowed (now : Int)
  | isOpen (now : Int)
  | getState (now : Int)
  | checkAnomaly (metric : String) (value threshold : Value) (now tripped : Int)
  | triggerBreaker (reason : String) (now : Int)

/-- What has been called since the transition to the half-open state. -/
structure HalfOpenPhase where
  openedByCall : Bool
  asked : Nat
  admitted : Nat
  successes : Nat
  failures : Nat
  deriving DecidableEq

/-- A breaker and the half-open phase it is in. -/
structure WatchedBreaker (Value : Type) where
  breaker : CircuitBreaker Value
  phase : Option HalfOpenPhase

variable {Value : Type} [LT Value] [DecidableLT Value]

namespace BreakerCall

def run (b : CircuitBreaker Value) : BreakerCall Value → CircuitBreaker Value
  | callAllowed now => (b.callAllowed now).2
  | isOpen now => (b.isOpen now).2
  | getState now => (b.getState now).2
  | checkAnomaly metric value threshold now tripped => (b.checkAnomaly metric value threshold now tripped).2
  | triggerBreaker reason now => b.triggerBreaker reason now

def asks : BreakerCall Value → Bool
  | callAllowed _ => true
  | isOpen _ | getState _ | checkAnomaly _ _ _ _ _ | triggerBreaker _ _ => false

/-- A `call_allowed` that returns True. -/
def admits (b : CircuitBreaker Value) : BreakerCall Value → Bool
  | callAllowed now => (b.callAllowed now).1
  | isOpen _ | getState _ | checkAnomaly _ _ _ _ _ | triggerBreaker _ _ => false

def succeeds : BreakerCall Value → Bool
  | checkAnomaly _ value threshold _ _ => ¬threshold < value
  | callAllowed _ | isOpen _ | getState _ | triggerBreaker _ _ => false

def fails : BreakerCall Value → Bool
  | checkAnomaly _ value threshold _ _ => threshold < value
  | callAllowed _ | isOpen _ | getState _ | triggerBreaker _ _ => false

end BreakerCall

namespace HalfOpenPhase

/-- The phase that a call opens. -/
def openedBy (b : CircuitBreaker Value) (c : BreakerCall Value) : HalfOpenPhase :=
  ⟨c.asks, 0, (c.admits b).toNat, 0, 0⟩

/-- The phase with one more call. -/
def record (b : CircuitBreaker Value) (c : BreakerCall Value) (p : HalfOpenPhase) : HalfOpenPhase where
  openedByCall := p.openedByCall
  asked := p.asked + c.asks.toNat
  admitted := p.admitted + (c.admits b).toNat
  successes := p.successes + c.succeeds.toNat
  failures := p.failures + c.fails.toNat

end HalfOpenPhase

namespace WatchedBreaker

def apply (w : WatchedBreaker Value) (c : BreakerCall Value) : WatchedBreaker Value where
  breaker := c.run w.breaker
  phase :=
    if (c.run w.breaker).state = .halfOpen then
      if w.breaker.state = .halfOpen then w.phase.map (·.record w.breaker c) else some (.openedBy w.breaker c)
    else none

def init (failureThreshold recoveryTimeoutSeconds halfOpenMaxCalls : Int) : WatchedBreaker Value :=
  ⟨.init failureThreshold recoveryTimeoutSeconds halfOpenMaxCalls, none⟩

/-- Recovery is tested by a call: no more calls are let through in the phase than there
may be, and the circuit closes only after that many successful checks and no failed one. -/
structure Tests (w : WatchedBreaker Value) (c : BreakerCall Value) (w' : WatchedBreaker Value) : Prop where
  admitted : ∀ p ∈ w'.phase, (p.admitted : Int) ≤ w.breaker.halfOpenMaxCalls
  closed : w.breaker.state = .halfOpen → w'.breaker.state = .closed → ∃ p ∈ w.phase,
    w.breaker.halfOpenMaxCalls ≤ (p.record w.breaker c).successes ∧ (p.record w.breaker c).failures = 0

/-- In a phase that `call_allowed` has opened fewer calls are asked for before the first
successful check than there may be, and no check succeeds while it takes the calls asked
for to make up the number of successful checks. -/
structure CountsApart (w : WatchedBreaker Value) (c : BreakerCall Value) : Prop where
  asked : ∀ p ∈ w.phase, c.asks = true → p.openedByCall = true → p.successes = 0 →
    (p.asked : Int) + 1 < w.breaker.halfOpenMaxCalls
  checked : ∀ p ∈ w.phase, c.succeeds = true → w.breaker.halfOpenMaxCalls ≤ p.asked + p.successes + 1 →
    w.breaker.halfOpenMaxCalls ≤ p.successes + 1

/-- The counter of the half-open state has the calls asked for and the successes alike,
up to the limit. -/
structure Counted (limit : Int) (b : CircuitBreaker Value) (p : HalfOpenPhase) : Prop where
  counter : b.halfOpenCalls = min limit (p.asked + p.successes)
  admitted : (p.admitted : Int) = p.openedByCall.toNat + (b.halfOpenCalls - p.successes)
  atMost : (p.admitted : Int) ≤ limit
  unfinished : (p.successes : Int) < limit
  failures : p.failures = 0

structure Tracked (limit : Int) (w : WatchedBreaker Value) : Prop where
  config : w.breaker.halfOpenMaxCalls = limit
  halfOpen : w.breaker.state = .halfOpen → ∃ p, w.phase = some p ∧ Counted limit w.breaker p
  elsewhere : w.breaker.state ≠ .halfOpen → w.phase = none

/-- A call tests recovery just when it counts apart, and then all stays tracked. -/
def Exact (limit : Int) (w : WatchedBreaker Value) (c : BreakerCall Value) : Prop :=
  (Tests w c (w.apply c) ↔ CountsApart w c) ∧ (CountsApart w c → Tracked limit (w.apply c))

section HalfOpen

variable {limit : Int} {w : WatchedBreaker Value} {p : HalfOpenPhase} {c : BreakerCall Value}

/-- The phase goes on. -/
theorem exact_of_stays (hmax : w.breaker.halfOpenMaxCalls = limit) (hstate : w.breaker.state = .halfOpen) (hphase : w.phase = some p)
    (hstays : (c.run w.breaker).state = .halfOpen) (hconfig : (c.run w.breaker).halfOpenMaxCalls = limit)
    (hiff : ((p.record w.breaker c).admitted : Int) ≤ limit ↔ CountsApart w c)
    (hcounted : ((p.record w.breaker c).admitted : Int) ≤ limit → Counted limit (c.run w.breaker) (p.record w.breaker c)) :
    Exact limit w c := by
  have hnext : (w.apply c).phase = some (p.record w.breaker c) := by simp [apply, hstays, hstate, hphase]
  refine ⟨Iff.trans ?_ hiff, fun hok => ⟨hconfig, fun _ => ⟨_, hnext, hcounted (hiff.mpr hok)⟩, fun hne => absurd hstays hne⟩⟩
  constructor
  · intro h
    rw [← hmax]
    exact h.admitted _ hnext
  · intro hle
    refine ⟨fun q hq => ?_, fun _ hclosed => ?_⟩
    · rw [hnext] at hq
      obtain rfl := Option.some.inj hq
      rw [hmax]
      exact hle
    · cases hstays.symm.trans hclosed

/-- The phase is over. -/
theorem exact_of_leaves (hmax : w.breaker.halfOpenMaxCalls = limit) (hphase : w.phase = some p)
    (hleaves : (c.run w.breaker).state ≠ .halfOpen) (hconfig : (c.run w.breaker).halfOpenMaxCalls = limit) (hasks : c.asks = false)
    (hclosed : (c.run w.breaker).state = .closed ↔ c.succeeds = true)
    (hreached : c.succeeds = true → limit ≤ p.asked + p.successes + 1) (hfailures : p.failures = 0)
    (hfails : c.succeeds = true → c.fails = false) (hstate : w.breaker.state = .halfOpen) : Exact limit w c := by
  have hnext : (w.apply c).phase = none := if_neg hleaves
  refine ⟨⟨fun h => ⟨?_, ?_⟩, fun h => ⟨?_, ?_⟩⟩, fun _ => ⟨hconfig, fun hopen => absurd hopen hleaves, fun _ => hnext⟩⟩
  · intro q _ hask
    exact absurd hask (Bool.eq_false_iff.mp hasks)
  · intro q hq hsucceeds hsum
    obtain rfl := Option.some.inj (hphase.symm.trans hq)
    obtain ⟨q, hq, hsuccesses, _⟩ := h.closed hstate (hclosed.mpr hsucceeds)
    obtain rfl := Option.some.inj (hphase.symm.trans hq)
    rw [HalfOpenPhase.record, hsucceeds, Bool.toNat_true] at hsuccesses
    exact_mod_cast hsuccesses
  · intro q hq
    cases hnext.symm.trans hq
  · intro _ hafter
    have hsucceeds := hclosed.mp hafter
    have hsum := h.checked p hphase hsucceeds (hmax ▸ hreached hsucceeds)
    refine ⟨p, hphase, ?_, ?_⟩
    · rw [HalfOpenPhase.record, hsucceeds, Bool.toNat_true]
      exact_mod_cast hsum
    · rw [HalfOpenPhase.record, hfails hsucceeds, Bool.toNat_false, hfailures]

theorem countsApart_of_quiet (hasks : c.asks = false) (hsucceeds : c.succeeds = false) : CountsApart w c :=
  ⟨fun _ _ h => absurd h (Bool.eq_false_iff.mp hasks), fun _ _ h => absurd h (Bool.eq_false_iff.mp hsucceeds)⟩

theorem exact_callAllowed (hmax : w.breaker.halfOpenMaxCalls = limit) (hstate : w.breaker.state = .halfOpen) (hphase : w.phase = some p)
    (h : Counted limit w.breaker p) (now : Int) : Exact limit w (.callAllowed now) := by
  obtain ⟨hcounter, hadmitted, hatMost, hunfinished, hfailures⟩ := h
  have hcalled := CircuitBreaker.callAllowed_halfOpen hstate now
  have hapart : CountsApart w (.callAllowed now) ↔
      (p.openedByCall = true → p.successes = 0 → (p.asked : Int) + 1 < limit) := by
    constructor
    · intro hok
      rw [← hmax]
      exact hok.asked p hphase rfl
    · intro hasked
      refine ⟨fun q hq _ => ?_, fun _ _ hsucceeds => absurd hsucceeds Bool.false_ne_true⟩
      obtain rfl := Option.some.inj (hphase.symm.trans hq)
      rw [hmax]
      exact hasked
  by_cases hroom : w.breaker.halfOpenCalls < w.breaker.halfOpenMaxCalls
  · rw [if_pos hroom] at hcalled
    have hrecord : p.record w.breaker (.callAllowed now : BreakerCall Value) =
        ⟨p.openedByCall, p.asked + 1, p.admitted + 1, p.successes, p.failures⟩ := by
      simp [HalfOpenPhase.record, BreakerCall.asks, BreakerCall.admits, BreakerCall.succeeds, BreakerCall.fails, hcalled]
    have hrun : BreakerCall.run w.breaker (.callAllowed now) = { w.breaker with halfOpenCalls := w.breaker.halfOpenCalls + 1 } :=
      congrArg Prod.snd hcalled
    refine exact_of_stays hmax hstate hphase (by rw [hrun]; exact hstate) (by rw [hrun]; exact hmax) ?_ ?_
    · rw [hapart, hrecord]
      dsimp only
      cases hby : p.openedByCall <;> rw [hby] at hadmitted <;> simp at hadmitted ⊢ <;> omega
    · rw [hrun, hrecord]
      intro hle
      refine ⟨?_, ?_, hle, hunfinished, hfailures⟩
      · dsimp only
        omega
      · dsimp only
        omega
  · rw [if_neg hroom] at hcalled
    have hrecord : p.record w.breaker (.callAllowed now : BreakerCall Value) =
        ⟨p.openedByCall, p.asked + 1, p.admitted, p.successes, p.failures⟩ := by
      simp [HalfOpenPhase.record, BreakerCall.asks, BreakerCall.admits, BreakerCall.succeeds, BreakerCall.fails, hcalled]
    have hrun : BreakerCall.run w.breaker (.callAllowed now) = w.breaker := congrArg Prod.snd hcalled
    refine exact_of_stays hmax hstate hphase (by rw [hrun]; exact hstate) (by rw [hrun]; exact hmax) ?_ ?_
    · rw [hapart, hrecord]
      dsimp only
      cases hby : p.openedByCall <;> rw [hby] at hadmitted <;> simp at hadmitted ⊢ <;> omega
    · rw [hrun, hrecord]
      intro hle
      refine ⟨?_, hadmitted, hle, hunfinished, hfailures⟩
      dsimp only
      omega

/-- A call that leaves the breaker alone and counts for nothing. -/
theorem exact_of_same (hmax : w.breaker.halfOpenMaxCalls = limit) (hstate : w.breaker.state = .halfOpen) (hphase : w.phase = some p)
    (h : Counted limit w.breaker p) (hrun : c.run w.breaker = w.breaker) (hrecord : p.record w.breaker c = p)
    (hasks : c.asks = false) (hsucceeds : c.succeeds = false) : Exact limit w c := by
  refine exact_of_stays hmax hstate hphase (by rw [hrun]; exact hstate) (by rw [hrun]; exact hmax) ?_ ?_
  · rw [hrecord]
    exact iff_of_true h.atMost (countsApart_of_quiet hasks hsucceeds)
  · rw [hrun, hrecord]
    exact fun _ => h

theorem exact_failure (hmax : w.breaker.halfOpenMaxCalls = limit) (hstate : w.breaker.state = .halfOpen) (hphase : w.phase = some p)
    (h : Counted limit w.breaker p) (hopened : (c.run w.breaker).state = .opened) (hconfig : (c.run w.breaker).halfOpenMaxCalls = limit)
    (hasks : c.asks = false) (hsucceeds : c.succeeds = false) : Exact limit w c := by
  have hno : ¬c.succeeds = true := Bool.eq_false_iff.mp hsucceeds
  have hleaves : (c.run w.breaker).state ≠ .halfOpen := by
    rw [hopened]
    decide
  have hclosed : (c.run w.breaker).state = .closed ↔ c.succeeds = true := by
    rw [hopened]
    exact iff_of_false (by decide) hno
  exact exact_of_leaves hmax hphase hleaves hconfig hasks hclosed (fun hs => absurd hs hno) h.failures
    (fun hs => absurd hs hno) hstate

theorem exact_success (hmax : w.breaker.halfOpenMaxCalls = limit) (hstate : w.breaker.state = .halfOpen) (hphase : w.phase = some p)
    (h : Counted limit w.breaker p) {metric : String} {value threshold : Value} {now tripped : Int} (hvalue : ¬threshold < value) :
    Exact limit w (.checkAnomaly metric value threshold now tripped) := by
  obtain ⟨hcounter, hadmitted, hatMost, hunfinished, hfailures⟩ := h
  have hrun : BreakerCall.run w.breaker (.checkAnomaly metric value threshold now tripped) = w.breaker.recordSuccess := by
    rw [BreakerCall.run, CircuitBreaker.checkAnomaly, if_neg hvalue]
  have hsucceeds : (.checkAnomaly metric value threshold now tripped : BreakerCall Value).succeeds = true := decide_eq_true hvalue
  have hfails : (.checkAnomaly metric value threshold now tripped : BreakerCall Value).fails = false := decide_eq_false hvalue
  have hsuccess := CircuitBreaker.recordSuccess_halfOpen hstate
  by_cases hdone : w.breaker.halfOpenMaxCalls ≤ w.breaker.halfOpenCalls + 1
  · rw [if_pos hdone] at hsuccess
    have hafter : (w.breaker.recordSuccess).state = .closed := by rw [hsuccess]; rfl
    refine exact_of_leaves hmax hphase ?_ ?_ rfl ?_ ?_ hfailures (fun _ => hfails) hstate
    · rw [hrun, hafter]
      decide
    · rw [hrun, hsuccess]
      exact hmax
    · rw [hrun, hafter]
      exact iff_of_true rfl hsucceeds
    · intro _
      omega
  · rw [if_neg hdone] at hsuccess
    have hrecord : p.record w.breaker (.checkAnomaly metric value threshold now tripped : BreakerCall Value) =
        ⟨p.openedByCall, p.asked, p.admitted, p.successes + 1, p.failures⟩ := by
      rw [HalfOpenPhase.record, hsucceeds, hfails]
      rfl
    refine exact_of_stays hmax hstate hphase (by rw [hrun, hsuccess]; exact hstate) (by rw [hrun, hsuccess]; exact hmax) ?_ ?_
    · rw [hrecord]
      refine iff_of_true hatMost ⟨fun _ _ hasks => absurd hasks Bool.false_ne_true, fun q hq _ hsum => ?_⟩
      obtain rfl := Option.some.inj (hphase.symm.trans hq)
      omega
    · rw [hrun, hsuccess, hrecord]
      intro hle
      refine ⟨?_, ?_, hle, ?_, hfailures⟩ <;> dsimp only <;> omega

end HalfOpen

section Elsewhere

variable {limit : Int} {w : WatchedBreaker Value} {c : BreakerCall Value}

/-- A call outside the half-open state either opens a phase, or does not lead there. -/
theorem run_elsewhere {b : CircuitBreaker Value} (h : b.state ≠ .halfOpen) (c : BreakerCall Value) :
    (c.run b = b.toHalfOpen ∧ c.admits b = c.asks) ∨
      ((c.run b).state ≠ .halfOpen ∧ (c.run b).halfOpenMaxCalls = b.halfOpenMaxCalls) := by
  cases c with
  | callAllowed now =>
    cases hstate : b.state with
    | closed =>
      have hcalled : b.callAllowed now = (true, b) := by rw [CircuitBreaker.callAllowed, hstate]
      refine .inr ?_
      rw [BreakerCall.run, hcalled]
      exact ⟨h, rfl⟩
    | opened =>
      by_cases hmay : b.mayRecover now = true
      · have hcalled : b.callAllowed now = (true, b.toHalfOpen) := by simp [CircuitBreaker.callAllowed, hstate, hmay]
        refine .inl ⟨congrArg Prod.snd hcalled, ?_⟩
        rw [BreakerCall.admits, hcalled]
        rfl
      · have hcalled : b.callAllowed now = (false, b) := by simp [CircuitBreaker.callAllowed, hstate, hmay]
        refine .inr ?_
        rw [BreakerCall.run, hcalled]
        exact ⟨h, rfl⟩
    | halfOpen => exact absurd hstate h
  | isOpen now =>
    rcases b.isOpen_cases now with hsame | ⟨_, hopens⟩
    · refine .inr ?_
      rw [BreakerCall.run, hsame]
      exact ⟨h, rfl⟩
    · exact .inl ⟨hopens, rfl⟩
  | getState now =>
    rcases b.isOpen_cases now with hsame | ⟨_, hopens⟩
    · refine .inr ?_
      rw [BreakerCall.run, CircuitBreaker.getState, hsame]
      exact ⟨h, rfl⟩
    · exact .inl ⟨hopens, rfl⟩
  | checkAnomaly metric value threshold now tripped =>
    refine .inr ?_
    rw [BreakerCall.run, CircuitBreaker.checkAnomaly]
    split
    · obtain ⟨hconfig, hopened | ⟨_, hsame⟩⟩ := b.recordFailure_cases metric value threshold now tripped
      · refine ⟨?_, hconfig⟩
        dsimp only
        rw [hopened]
        decide
      · refine ⟨?_, hconfig⟩
        dsimp only
        rw [hsame]
        exact h
    · obtain ⟨hsame, hconfig⟩ := CircuitBreaker.recordSuccess_elsewhere h
      refine ⟨?_, hconfig⟩
      dsimp only
      rw [hsame]
      exact h
  | triggerBreaker reason now =>
    have hopened : CircuitState.opened ≠ .halfOpen := by decide
    exact .inr ⟨hopened, rfl⟩

theorem exact_elsewhere (h : Tracked limit w) (hlimit : 1 ≤ limit) (hstate : w.breaker.state ≠ .halfOpen) (c : BreakerCall Value) :
    Exact limit w c := by
  have hnone := h.elsewhere hstate
  have hapart : CountsApart w c := by
    constructor
    · rw [hnone]
      exact fun _ hp => absurd hp (Option.not_mem_none _)
    · rw [hnone]
      exact fun _ hp => absurd hp (Option.not_mem_none _)
  rcases run_elsewhere hstate c with ⟨hrun, hadmits⟩ | ⟨hout, hconfig⟩
  · have hopen : (c.run w.breaker).state = .halfOpen := by rw [hrun]; rfl
    have hnext : (w.apply c).phase = some ⟨c.asks, 0, c.asks.toNat, 0, 0⟩ := by
      simp [apply, hopen, hstate, HalfOpenPhase.openedBy, hadmits]
    have hone : (c.asks.toNat : Int) ≤ limit := by
      have := Bool.toNat_le c.asks
      omega
    have hcalls : (c.run w.breaker).halfOpenCalls = 0 := by rw [hrun]; rfl
    refine ⟨iff_of_true ⟨?_, fun hbefore => absurd hbefore hstate⟩ hapart, fun _ => ⟨?_, fun _ => ⟨_, hnext, ?_⟩, ?_⟩⟩
    · intro q hq
      rw [hnext] at hq
      obtain rfl := Option.some.inj hq
      rw [h.config]
      exact hone
    · rw [show (w.apply c).breaker = c.run w.breaker from rfl, hrun]
      exact h.config
    · refine ⟨?_, ?_, hone, hlimit, rfl⟩
      · rw [show (w.apply c).breaker = c.run w.breaker from rfl, hcalls]
        dsimp only
        omega
      · rw [show (w.apply c).breaker = c.run w.breaker from rfl, hcalls]
        dsimp only
        omega
    · exact fun hne => absurd hopen hne
  · have hnext : (w.apply c).phase = none := if_neg hout
    refine ⟨iff_of_true ⟨?_, fun hbefore => absurd hbefore hstate⟩ hapart, fun _ => ⟨?_, fun hopen => absurd hopen hout, fun _ => hnext⟩⟩
    · intro q hq
      cases hnext.symm.trans hq
    · exact hconfig.trans h.config

end Elsewhere

theorem Tracked.exact {limit : Int} {w : WatchedBreaker Value} (h : Tracked limit w) (hlimit : 1 ≤ limit) (c : BreakerCall Value) :
    Exact limit w c := by
  by_cases hstate : w.breaker.state = .halfOpen
  · obtain ⟨p, hphase, hcounted⟩ := h.halfOpen hstate
    have hmax := h.config
    have hsame : ∀ now, (w.breaker.isOpen now).2 = w.breaker := by
      intro now
      refine (w.breaker.isOpen_cases now).resolve_right ?_
      rintro ⟨hopened, _⟩
      cases hstate.symm.trans hopened
    cases c with
    | callAllowed now => exact exact_callAllowed hmax hstate hphase hcounted now
    | isOpen now => exact exact_of_same hmax hstate hphase hcounted (hsame now) rfl rfl rfl
    | getState now => exact exact_of_same hmax hstate hphase hcounted (hsame now) rfl rfl rfl
    | checkAnomaly metric value threshold now tripped =>
      by_cases hvalue : threshold < value
      · have hrun : BreakerCall.run w.breaker (.checkAnomaly metric value threshold now tripped) =
            w.breaker.recordFailure metric value threshold now tripped := by
          rw [BreakerCall.run, CircuitBreaker.checkAnomaly, if_pos hvalue]
        obtain ⟨hconfig, hopened | ⟨hne, _⟩⟩ := w.breaker.recordFailure_cases metric value threshold now tripped
        · refine exact_failure hmax hstate hphase hcounted ?_ ?_ rfl (decide_eq_false (not_not.mpr hvalue))
          · rw [hrun]
            exact hopened
          · rw [hrun]
            exact hconfig.trans hmax
        · exact absurd hstate hne
      · exact exact_success hmax hstate hphase hcounted hvalue
    | triggerBreaker reason now => exact exact_failure hmax hstate hphase hcounted rfl hmax rfl rfl
  · exact exact_elsewhere h hlimit hstate c

end WatchedBreaker

open WatchedBreaker in
/-- Recovery is tested throughout a run as long as the calls of each half-open phase are
not counted for successes, nor the call that opens it left out. -/
theorem recovery_is_tested_iff (failureThreshold recoveryTimeout : Int) {halfOpenMaxCalls : Int} (h : 1 ≤ halfOpenMaxCalls)
    (calls : List (BreakerCall Value)) :
    (∀ e ∈ stepsOf apply (.init failureThreshold recoveryTimeout halfOpenMaxCalls) calls, Tests e.1 e.2.1 e.2.2) ↔
      ∀ e ∈ stepsOf apply (.init failureThreshold recoveryTimeout halfOpenMaxCalls) calls, CountsApart e.1 e.2.1 := by
  have hrun : Trace (fun w c w' => w' = apply w c) (.init failureThreshold recoveryTimeout halfOpenMaxCalls)
      (stepsOf apply (.init failureThreshold recoveryTimeout halfOpenMaxCalls) calls)
      (calls.foldl apply (.init failureThreshold recoveryTimeout halfOpenMaxCalls)) := .ofCalls stepsOf_call
  have hclosed : CircuitState.closed ≠ .halfOpen := by decide
  have hstart : Tracked halfOpenMaxCalls (WatchedBreaker.init failureThreshold recoveryTimeout halfOpenMaxCalls : WatchedBreaker Value) :=
    ⟨rfl, fun hopen => absurd hopen hclosed, fun _ => rfl⟩
  refine @Trace.forall_iff _ _ _ _ _ _ CountsApart (Tracked halfOpenMaxCalls) (fun w c w' => Tests w c w') hrun hstart ?_ ?_
  · rintro w c w' htracked hok rfl
    exact (htracked.exact h c).2 hok
  · rintro w c w' htracked rfl
    exact (htracked.exact h c).1

/-- A trip, and the first call after the timeout. -/
def reopened : List (BreakerCall Int) := [.triggerBreaker "Test" 0, .callAllowed 60000000]

theorem recovery_is_tested_iff_reopened :
    (∀ e ∈ stepsOf WatchedBreaker.apply (.init 5 60 3) reopened, WatchedBreaker.Tests e.1 e.2.1 e.2.2) ↔
      ∀ e ∈ stepsOf WatchedBreaker.apply (.init 5 60 3) reopened, WatchedBreaker.CountsApart e.1 e.2.1 :=
  recovery_is_tested_iff 5 60 (by decide) reopened

def fourCalls : List (BreakerCall Int) := reopened ++ [.callAllowed 60000001, .callAllowed 60000002, .callAllowed 60000003]

/-- Three calls are let through after the one that opens the phase. -/
theorem fourth_call_admitted :
    ¬∀ e ∈ stepsOf WatchedBreaker.apply (.init 5 60 3) fourCalls, WatchedBreaker.Tests e.1 e.2.1 e.2.2 := by
  intro h
  have hlast := h _ (@List.getElem_mem _ (stepsOf WatchedBreaker.apply (.init 5 60 3) fourCalls) 4 (by decide))
  have hadmitted := hlast.admitted ⟨true, 3, 4, 0, 0⟩ rfl
  exact absurd hadmitted (by decide)

end AgentNetwork.Marketplace
