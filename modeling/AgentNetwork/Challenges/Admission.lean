import AgentNetwork.Library.Double
import AgentNetwork.Library.Program
import AgentNetwork.Library.Table

namespace AgentNetwork.Challenges

open Relational Transactional Transactional.Prog

variable {ε σ : Type}

/-- A row of `challenge_windows`; the task is its key. -/
structure WindowInfo where
  openedAtNs : Int
  durationSeconds : Int
  extendedCount : Int
  deriving DecidableEq

def WindowInfo.getRemainingTime (w : WindowInfo) : Prog ε σ ℚ := do
  let now ← timeNs
  let elapsedSeconds := Double.nearest (Double.nearest (now - w.openedAtNs : Int) / 1000000000)
  let remaining := Double.nearest (Double.nearest w.durationSeconds - elapsedSeconds)
  pure (max 0 remaining)

def WindowInfo.isOpen (w : WindowInfo) : Prog ε σ Bool := do
  let remaining ← w.getRemainingTime
  pure (decide (0 < remaining))

abbrev ChallengeWindow := Table String WindowInfo

namespace ChallengeWindow

def getRemainingTime (windows : ChallengeWindow) (taskId : String) : Prog ε σ (Option ℚ) :=
  match windows.get? taskId with
  | none => pure none
  | some w => do
    let remaining ← w.getRemainingTime
    pure (some remaining)

def isWindowOpen (windows : ChallengeWindow) (taskId : String) : Prog ε σ Bool :=
  match windows.get? taskId with
  | none => pure false
  | some w => w.isOpen

end ChallengeWindow

/-- What a challenger has submitted so far; the challenger is its key. The counts
of its outcomes only lead to a warning and are left out. -/
structure ChallengerStats where
  totalChallenges : Int
  lastChallengeNs : Int
  challengesInWindow : List Int
  deriving DecidableEq

def ChallengerStats.new : ChallengerStats := ⟨0, 0, []⟩

/-- `current_time_ns - (seconds * 1e9)`. -/
def secondsBefore (seconds currentTimeNs : Int) : ℚ := Double.nearest (Double.nearest currentTimeNs - seconds * 1000000000)

/-- The challenges that `challenges_in_window` has of the last `seconds`. -/
def ChallengerStats.since (stats : ChallengerStats) (seconds currentTimeNs : Int) : List Int :=
  stats.challengesInWindow.filter fun ts => (ts : ℚ) > secondsBefore seconds currentTimeNs

abbrev AbuseDetector := Table String ChallengerStats

namespace AbuseDetector

def maxChallengesPerHour : Nat := 10

def maxChallengesPerDay : Nat := 50

def spamDetectionWindowSeconds : Int := 60

def spamThresholdCount : Nat := 5

def recordChallenge (detector : AbuseDetector) (challengerId : String) : Prog ε σ AbuseDetector := do
  let stats := (detector.get? challengerId).getD .new
  let currentTimeNs ← timeNs
  let stats := { stats with
    totalChallenges := stats.totalChallenges + 1
    lastChallengeNs := currentTimeNs
    challengesInWindow := stats.challengesInWindow ++ [currentTimeNs] }
  pure (detector.upsert challengerId { stats with challengesInWindow := stats.since 3600 currentTimeNs })

/-- The message of the limit that is exceeded. A new challenger is let through
without a look at the clock. -/
def checkRateLimit (detector : AbuseDetector) (challengerId : String) : Prog ε σ (Option String) :=
  match detector.get? challengerId with
  | none => pure none
  | some stats => do
    let currentTimeNs ← timeNs
    let lastHour := (stats.since 3600 currentTimeNs).length
    let lastDay := (stats.since (24 * 3600) currentTimeNs).length
    pure <|
      if lastHour ≥ maxChallengesPerHour then
        some s!"Rate limit exceeded: {lastHour} challenges in last hour (max: {maxChallengesPerHour})"
      else if lastDay ≥ maxChallengesPerDay then
        some s!"Rate limit exceeded: {lastDay} challenges in last 24h (max: {maxChallengesPerDay})"
      else none

def checkSpamPattern (detector : AbuseDetector) (challengerId : String) : Prog ε σ (Option String) :=
  match detector.get? challengerId with
  | none => pure none
  | some stats => do
    let currentTimeNs ← timeNs
    let recent := (stats.since spamDetectionWindowSeconds currentTimeNs).length
    pure <|
      if recent ≥ spamThresholdCount then some s!"Spam detected: {recent} challenges in {spamDetectionWindowSeconds}s"
      else none

end AbuseDetector

end AgentNetwork.Challenges
