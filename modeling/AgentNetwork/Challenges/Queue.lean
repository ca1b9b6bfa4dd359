import AgentNetwork.Library.Double
import AgentNetwork.Library.JsonWriter
import AgentNetwork.Library.StableSort
import AgentNetwork.Library.Table
import Mathlib.Data.Prod.Lex

namespace AgentNetwork.Challenges

open Relational

inductive QueueStatus
  | queued
  | verifying
  | verified
  | failed
  deriving DecidableEq

/-- A row of the queue; the challenge it is about is its key. -/
structure QueueRow where
  taskId : String
  commitId : String
  challengerId : String
  proofDataJson : String
  bondAmount : Int
  queuedAtNs : Int
  priorityScore : ℚ
  status : QueueStatus
  verifiedAtNs : Option Int
  verificationResultJson : Option String
  deriving DecidableEq

structure QueuedChallenge where
  challengeId : String
  taskId : String
  commitId : String
  challengerId : String
  proofData : Json
  bondAmount : Int
  queuedAtNs : Int
  priorityScore : ℚ
  status : QueueStatus
  deriving DecidableEq

inductive QueueError
  | integrityError (message : String)
  | jsonDecodeError (text : String)
  deriving DecidableEq

structure ChallengeQueue where
  rows : Table String QueueRow
  deriving DecidableEq

def resultText (result : List (String × Json)) : String := Json.write Json.defaultStyle (.obj result)

namespace ChallengeQueue

def new : ChallengeQueue := ⟨.empty⟩

/-- The bond, and ten for every hour that the challenge is old. -/
def calculatePriority (bondAmount queuedAtNs currentTimeNs : Int) : ℚ :=
  let ageHours := Double.nearest (Double.nearest (currentTimeNs - queuedAtNs : Int) / 3600000000000)
  Double.nearest (Double.nearest bondAmount + Double.nearest (ageHours * 10))

/-- `queuedAtNs` and `currentTimeNs` are the two readings of the clock that a call takes. -/
def addChallenge (q : ChallengeQueue) (queuedAtNs currentTimeNs : Int) (challengeId taskId commitId challengerId : String)
    (proofData : List (String × Json)) (bondAmount : Int) : Except QueueError QueuedChallenge × ChallengeQueue :=
  let priorityScore := calculatePriority bondAmount queuedAtNs currentTimeNs
  match q.rows.insert? challengeId ⟨taskId, commitId, challengerId, resultText proofData, bondAmount, queuedAtNs,
      priorityScore, .queued, none, none⟩ with
  | none => (.error (.integrityError "UNIQUE constraint failed: challenge_queue.challenge_id"), q)
  | some rows =>
    (.ok ⟨challengeId, taskId, commitId, challengerId, .obj proofData, bondAmount, queuedAtNs, priorityScore, .queued⟩, ⟨rows⟩)

/-- The queued row with the greatest priority, the oldest of them. -/
def next (q : ChallengeQueue) : Option (String × QueueRow) :=
  StableSort.firstLeast (fun e => toLex (-e.2.priorityScore, e.2.queuedAtNs))
    (q.rows.entries.filter fun e => e.2.status = .queued)

def getNextChallenge (q : ChallengeQueue) : Except QueueError (Option QueuedChallenge) :=
  match q.next with
  | none => .ok none
  | some (challengeId, row) =>
    match Json.loads row.proofDataJson with
    | none => .error (.jsonDecodeError row.proofDataJson)
    | some proofData =>
      .ok (some ⟨challengeId, row.taskId, row.commitId, row.challengerId, proofData, row.bondAmount, row.queuedAtNs,
        row.priorityScore, row.status⟩)

def markVerifying (q : ChallengeQueue) (challengeId : String) : Bool × ChallengeQueue :=
  match q.rows.get? challengeId with
  | none => (false, q)
  | some row =>
    if row.status = .queued then (true, ⟨q.rows.set challengeId { row with status := .verifying }⟩) else (false, q)

/-- The update of both completions: the row under the key, whatever its status. -/
def complete (q : ChallengeQueue) (status : QueueStatus) (verifiedAtNs : Int) (challengeId : String)
    (result : List (String × Json)) : Bool × ChallengeQueue :=
  match q.rows.get? challengeId with
  | none => (false, q)
  | some row =>
    (true, ⟨q.rows.set challengeId { row with
      status := status, verifiedAtNs := some verifiedAtNs, verificationResultJson := some (resultText result) }⟩)

def markVerified (q : ChallengeQueue) (verifiedAtNs : Int) (challengeId : String) (result : List (String × Json)) :
    Bool × ChallengeQueue :=
  q.complete .verified verifiedAtNs challengeId result

def markFailed (q : ChallengeQueue) (verifiedAtNs : Int) (challengeId error : String) : Bool × ChallengeQueue :=
  q.complete .failed verifiedAtNs challengeId [("error", .str error)]

section Effects

variable {q : ChallengeQueue} {challengeId : String} {row : QueueRow}

theorem markVerifying_of_queued (found : q.rows.get? challengeId = some row) (queued : row.status = .queued) :
    q.markVerifying challengeId = (true, ⟨q.rows.set challengeId { row with status := .verifying }⟩) := by
  simp [markVerifying, found, queued]

theorem markVerifying_of_not_queued (h : ∀ row, q.rows.get? challengeId = some row → row.status ≠ .queued) :
    q.markVerifying challengeId = (false, q) := by
  unfold markVerifying
  split
  next => rfl
  next row found => rw [if_neg (h row found)]

theorem complete_of_found (found : q.rows.get? challengeId = some row) (status : QueueStatus) (verifiedAtNs : Int)
    (result : List (String × Json)) :
    q.complete status verifiedAtNs challengeId result = (true, ⟨q.rows.set challengeId { row with
      status := status, verifiedAtNs := some verifiedAtNs, verificationResultJson := some (resultText result) }⟩) := by
  simp [complete, found]

theorem complete_of_missing (missing : q.rows.get? challengeId = none) (status : QueueStatus) (verifiedAtNs : Int)
    (result : List (String × Json)) : q.complete status verifiedAtNs challengeId result = (false, q) := by
  simp [complete, missing]

end Effects

end ChallengeQueue

end AgentNetwork.Challenges
