import AgentNetwork.Challenges.Queue
import AgentNetwork.Library.Traces

namespace AgentNetwork.Challenges

open Relational Transition

/-- A step of some worker or challenger: each takes the lock of the queue. -/
inductive QueueCall
  | addChallenge (queuedAtNs currentTimeNs : Int) (challengeId taskId commitId challengerId : String)
    (proofData : List (String × Json)) (bondAmount : Int)
  | getNextChallenge
  | markVerifying (challengeId : String)
  | markVerified (verifiedAtNs : Int) (challengeId : String) (result : List (String × Json))
  | markFailed (verifiedAtNs : Int) (challengeId error : String)

/-- A queue and the challenges that `mark_verifying` has handed out, in order. -/
structure QueueHistory where
  queue : ChallengeQueue
  claims : List String
  deriving DecidableEq

namespace QueueHistory

def new : QueueHistory := ⟨.new, []⟩

def call (h : QueueHistory) : QueueCall → QueueHistory
  | .addChallenge queuedAtNs currentTimeNs challengeId taskId commitId challengerId proofData bondAmount =>
    { h with queue := (h.queue.addChallenge queuedAtNs currentTimeNs challengeId taskId commitId challengerId proofData bondAmount).2 }
  | .getNextChallenge => h
  | .markVerifying challengeId =>
    let (claimed, queue) := h.queue.markVerifying challengeId
    ⟨queue, if claimed then h.claims ++ [challengeId] else h.claims⟩
  | .markVerified verifiedAtNs challengeId result => { h with queue := (h.queue.markVerified verifiedAtNs challengeId result).2 }
  | .markFailed verifiedAtNs challengeId error => { h with queue := (h.queue.markFailed verifiedAtNs challengeId error).2 }

end QueueHistory

/-- VERIFIED or FAILED. -/
def QueueStatus.decided : QueueStatus → Bool
  | .verified | .failed => true
  | .queued | .verifying => false

/-- A challenge is claimed once, decided only by who verifies it, and its verdict is final. -/
structure Verdicts (h h' : QueueHistory) : Prop where
  once : h'.claims.Nodup
  verifying : ∀ challengeId row', h'.queue.rows.get? challengeId = some row' → row'.status.decided = true →
    ∃ row, h.queue.rows.get? challengeId = some row ∧ (row.status = .verifying ∨ row.status = row'.status)
  final : ∀ challengeId row, h.queue.rows.get? challengeId = some row → row.status.decided = true →
    ∃ row', h'.queue.rows.get? challengeId = some row' ∧ row'.status = row.status ∧
      row'.verificationResultJson = row.verificationResultJson

/-- A completion comes for a challenge in VERIFYING, or says again what was said. -/
def Completes (q : ChallengeQueue) (challengeId : String) (status : QueueStatus) (result : List (String × Json)) : Prop :=
  ∀ row, q.rows.get? challengeId = some row →
    row.status = .verifying ∨ (row.status = status ∧ row.verificationResultJson = some (resultText result))

def Claimed (h : QueueHistory) : QueueCall → Prop
  | .markVerified _ challengeId result => Completes h.queue challengeId .verified result
  | .markFailed _ challengeId error => Completes h.queue challengeId .failed [("error", .str error)]
  | .addChallenge _ _ _ _ _ _ _ _ | .getNextChallenge | .markVerifying _ => True

/-- The claims so far are of different challenges, none of them queued any more. -/
structure Distinct (h : QueueHistory) : Prop where
  nodup : h.claims.Nodup
  claimed : ∀ challengeId ∈ h.claims, ∃ row, h.queue.rows.get? challengeId = some row ∧ row.status ≠ .queued

section Steps

variable {h : QueueHistory} {challengeId : String}

/-- Rows whose status and result stay as they are. -/
theorem verdicts_of_kept {h' : QueueHistory} (once : h'.claims.Nodup)
    (forward : ∀ id row, h.queue.rows.get? id = some row → row.status.decided = true → h'.queue.rows.get? id = some row)
    (backward : ∀ id row', h'.queue.rows.get? id = some row' → row'.status.decided = true → h.queue.rows.get? id = some row') :
    Verdicts h h' where
  once := once
  verifying id row' hget hdecided := ⟨row', backward id row' hget hdecided, Or.inr rfl⟩
  final id row hget hdecided := ⟨row, forward id row hget hdecided, rfl, rfl⟩

/-- A completion does no harm just when it comes for who verifies, or repeats itself. -/
theorem complete_verdicts (hd : Distinct h) {status : QueueStatus} (hstatus : status.decided = true) (verifiedAtNs : Int)
    (challengeId : String) (result : List (String × Json)) :
    Verdicts h { h with queue := (h.queue.complete status verifiedAtNs challengeId result).2 } ↔
      Completes h.queue challengeId status result := by
  cases hget : h.queue.rows.get? challengeId with
  | none =>
    rw [ChallengeQueue.complete_of_missing hget]
    constructor
    · exact fun _ row hrow => absurd (hrow.symm.trans hget) (Option.some_ne_none row)
    · exact fun _ => verdicts_of_kept hd.nodup (fun _ _ h _ => h) fun _ _ h _ => h
  | some row =>
    rw [ChallengeQueue.complete_of_found hget]
    have hself : ∀ new : QueueRow, (h.queue.rows.set challengeId new).get? challengeId = some new := by
      intro new
      rw [Table.get?_set, if_pos rfl, hget, Option.map_some]
    constructor
    · intro hv row₀ hrow₀
      cases hget.symm.trans hrow₀
      obtain ⟨old, hold, hverifying | hsame⟩ := hv.verifying challengeId _ (hself _) hstatus
      · cases hget.symm.trans hold
        exact Or.inl hverifying
      · cases hget.symm.trans hold
        have hsame' : row.status = status := hsame
        obtain ⟨row', hrow', _, hresult⟩ := hv.final challengeId row hget (hsame'.symm ▸ hstatus)
        cases (hself _).symm.trans hrow'
        exact Or.inr ⟨hsame', hresult.symm⟩
    · intro hc
      have hrow := hc row hget
      refine ⟨hd.nodup, ?_, ?_⟩
      · intro id row' hget' hdecided
        rw [Table.get?_set] at hget'
        split at hget'
        next heq =>
          subst heq
          rw [hget, Option.map_some] at hget'
          cases hget'
          exact ⟨row, hget, hrow.imp_right And.left⟩
        next => exact ⟨row', hget', Or.inr rfl⟩
      · intro id old hold hdecided
        by_cases hid : id = challengeId
        · subst hid
          cases hget.symm.trans hold
          rcases hrow with hverifying | ⟨hsame, hresult⟩
          · rw [hverifying] at hdecided
            cases hdecided
          · exact ⟨_, hself _, hsame.symm, hresult.symm⟩
        · refine ⟨old, ?_, rfl, rfl⟩
          rw [Table.get?_set, if_neg hid]
          exact hold

/-- A new challenge is queued. -/
theorem addChallenge_verdicts (hd : Distinct h) (queuedAtNs currentTimeNs : Int) (challengeId taskId commitId challengerId : String)
    (proofData : List (String × Json)) (bondAmount : Int) :
    Verdicts h (h.call (.addChallenge queuedAtNs currentTimeNs challengeId taskId commitId challengerId proofData bondAmount)) := by
  simp only [QueueHistory.call, ChallengeQueue.addChallenge]
  split
  next => exact verdicts_of_kept hd.nodup (fun _ _ h _ => h) fun _ _ h _ => h
  next rows hinsert =>
    obtain ⟨fresh, rfl⟩ := Table.insert?_eq_some_iff.mp hinsert
    refine verdicts_of_kept hd.nodup ?_ ?_
    · intro id row hget _
      have hne : id ≠ challengeId := by
        rintro rfl
        exact absurd (hget.symm.trans fresh) (Option.some_ne_none _)
      rw [Table.get?_insert, if_neg hne]
      exact hget
    · intro id row hget hdecided
      rw [Table.get?_insert] at hget
      split at hget
      next =>
        cases hget
        cases hdecided
      next => exact hget

/-- Only a queued challenge is claimed, and then no longer queued. -/
theorem markVerifying_verdicts (hd : Distinct h) (challengeId : String) : Verdicts h (h.call (.markVerifying challengeId)) := by
  by_cases hqueued : ∃ row, h.queue.rows.get? challengeId = some row ∧ row.status = .queued
  · obtain ⟨row, hget, hstatus⟩ := hqueued
    simp only [QueueHistory.call, ChallengeQueue.markVerifying_of_queued hget hstatus, if_true]
    have hnew : challengeId ∉ h.claims := by
      intro hm
      obtain ⟨row', hget', hne⟩ := hd.claimed challengeId hm
      cases hget.symm.trans hget'
      exact hne hstatus
    refine verdicts_of_kept ?_ ?_ ?_
    · refine List.nodup_append.mpr ⟨hd.nodup, List.nodup_singleton _, ?_⟩
      rintro id hm _ hm' rfl
      exact hnew (List.mem_singleton.mp hm' ▸ hm)
    · intro id old hold hdecided
      have hne : id ≠ challengeId := by
        rintro rfl
        cases hget.symm.trans hold
        rw [hstatus] at hdecided
        cases hdecided
      rw [Table.get?_set, if_neg hne]
      exact hold
    · intro id row' hget' hdecided
      rw [Table.get?_set] at hget'
      split at hget'
      next =>
        rw [hget, Option.map_some] at hget'
        cases hget'
        cases hdecided
      next => exact hget'
  · have hrefused := ChallengeQueue.markVerifying_of_not_queued fun row hget hstatus => hqueued ⟨row, hget, hstatus⟩
    simp only [QueueHistory.call, hrefused, Bool.false_eq_true, if_false]
    exact verdicts_of_kept hd.nodup (fun _ _ h _ => h) fun _ _ h _ => h

theorem set_leaves {rows : Table String QueueRow} {row row₀ new : QueueRow} {id : String} (hset : rows.get? id = some row₀)
    (hnew : new.status ≠ .queued) (hget : rows.get? challengeId = some row) (hrow : row.status ≠ .queued) :
    ∃ row', (rows.set id new).get? challengeId = some row' ∧ row'.status ≠ .queued := by
  rw [Table.get?_set]
  split
  · exact ⟨new, by rw [hset, Option.map_some], hnew⟩
  · exact ⟨row, hget, hrow⟩

theorem complete_leaves {row : QueueRow} (hget : h.queue.rows.get? challengeId = some row) (hrow : row.status ≠ .queued)
    {status : QueueStatus} (hstatus : status ≠ .queued) (verifiedAtNs : Int) (id : String) (result : List (String × Json)) :
    ∃ row', (h.queue.complete status verifiedAtNs id result).2.rows.get? challengeId = some row' ∧ row'.status ≠ .queued := by
  cases hid : h.queue.rows.get? id with
  | none =>
    rw [ChallengeQueue.complete_of_missing hid]
    exact ⟨row, hget, hrow⟩
  | some row₀ =>
    rw [ChallengeQueue.complete_of_found hid]
    exact set_leaves hid hstatus hget hrow

/-- A challenge that has left QUEUED stays in the queue and never comes back to it. -/
theorem call_leaves (c : QueueCall) {row : QueueRow} (hget : h.queue.rows.get? challengeId = some row) (hrow : row.status ≠ .queued) :
    ∃ row', (h.call c).queue.rows.get? challengeId = some row' ∧ row'.status ≠ .queued := by
  cases c with
  | addChallenge queuedAtNs currentTimeNs id taskId commitId challengerId proofData bondAmount =>
    simp only [QueueHistory.call, ChallengeQueue.addChallenge]
    split
    next => exact ⟨row, hget, hrow⟩
    next rows hinsert =>
      obtain ⟨fresh, rfl⟩ := Table.insert?_eq_some_iff.mp hinsert
      have hne : challengeId ≠ id := by
        rintro rfl
        exact absurd (hget.symm.trans fresh) (Option.some_ne_none _)
      exact ⟨row, by rw [Table.get?_insert, if_neg hne]; exact hget, hrow⟩
  | getNextChallenge => exact ⟨row, hget, hrow⟩
  | markVerifying id =>
    by_cases hqueued : ∃ row, h.queue.rows.get? id = some row ∧ row.status = .queued
    · obtain ⟨row₀, hid, hstatus⟩ := hqueued
      simp only [QueueHistory.call, ChallengeQueue.markVerifying_of_queued hid hstatus]
      exact set_leaves hid (show QueueStatus.verifying ≠ .queued by decide) hget hrow
    · have hrefused := ChallengeQueue.markVerifying_of_not_queued fun row hget hstatus => hqueued ⟨row, hget, hstatus⟩
      simp only [QueueHistory.call, hrefused]
      exact ⟨row, hget, hrow⟩
  | markVerified verifiedAtNs id result => exact complete_leaves hget hrow (show QueueStatus.verified ≠ .queued by decide) verifiedAtNs id result
  | markFailed verifiedAtNs id error => exact complete_leaves hget hrow (show QueueStatus.failed ≠ .queued by decide) verifiedAtNs id _

theorem Distinct.call (hd : Distinct h) (c : QueueCall) : Distinct (h.call c) := by
  have hold : ∀ id ∈ h.claims, ∃ row, (h.call c).queue.rows.get? id = some row ∧ row.status ≠ .queued := by
    intro id hm
    obtain ⟨row, hget, hrow⟩ := hd.claimed id hm
    exact call_leaves c hget hrow
  cases c with
  | addChallenge queuedAtNs currentTimeNs id taskId commitId challengerId proofData bondAmount => exact ⟨hd.nodup, hold⟩
  | getNextChallenge => exact ⟨hd.nodup, hold⟩
  | markVerifying challengeId =>
    refine ⟨(markVerifying_verdicts hd challengeId).once, ?_⟩
    intro id hm
    by_cases hqueued : ∃ row, h.queue.rows.get? challengeId = some row ∧ row.status = .queued
    · obtain ⟨row, hget, hstatus⟩ := hqueued
      simp only [QueueHistory.call, ChallengeQueue.markVerifying_of_queued hget hstatus, if_true] at hm hold ⊢
      rcases List.mem_append.mp hm with hm | hm
      · exact hold id hm
      · rw [List.mem_singleton.mp hm, Table.get?_set, if_pos rfl, hget]
        exact ⟨_, rfl, show QueueStatus.verifying ≠ .queued by decide⟩
    · have hrefused := ChallengeQueue.markVerifying_of_not_queued fun row hget hstatus => hqueued ⟨row, hget, hstatus⟩
      simp only [QueueHistory.call, hrefused, Bool.false_eq_true, if_false] at hm hold ⊢
      exact hold id hm
  | markVerified verifiedAtNs id result => exact ⟨hd.nodup, hold⟩
  | markFailed verifiedAtNs id error => exact ⟨hd.nodup, hold⟩

theorem verdicts_iff_claimed (hd : Distinct h) (c : QueueCall) : Verdicts h (h.call c) ↔ Claimed h c := by
  cases c with
  | addChallenge queuedAtNs currentTimeNs challengeId taskId commitId challengerId proofData bondAmount =>
    exact ⟨fun _ => trivial, fun _ => addChallenge_verdicts hd ..⟩
  | getNextChallenge => exact ⟨fun _ => trivial, fun _ => verdicts_of_kept hd.nodup (fun _ _ h _ => h) fun _ _ h _ => h⟩
  | markVerifying challengeId => exact ⟨fun _ => trivial, fun _ => markVerifying_verdicts hd challengeId⟩
  | markVerified verifiedAtNs challengeId result => exact complete_verdicts hd rfl verifiedAtNs challengeId result
  | markFailed verifiedAtNs challengeId error => exact complete_verdicts hd rfl verifiedAtNs challengeId _

end Steps

/-- In a run of any workers each challenge is claimed once, only a verified one is decided,
and no verdict changes, just when every completion comes for a challenge in VERIFYING or
repeats the verdict there is. -/
theorem challenges_decided_once {steps : List (QueueHistory × QueueCall × QueueHistory)} {h : QueueHistory}
    (run : Trace (fun h c h' => h' = h.call c) .new steps h) :
    (∀ e ∈ steps, Verdicts e.1 e.2.2) ↔ ∀ e ∈ steps, Claimed e.1 e.2.1 := by
  refine run.forall_iff (P := fun h _ h' => Verdicts h h') (I := Distinct) ⟨List.nodup_nil, List.forall_mem_nil _⟩ ?_ ?_
  · rintro h c _ hd _ rfl
    exact hd.call c
  · rintro h c _ hd rfl
    exact verdicts_iff_claimed hd c

section Workers

/-- Two workers look for a challenge and claim the same one; who gets it reports the verdict. -/
def workerCalls : List QueueCall :=
  [.addChallenge 0 0 "c1" "t" "k" "carol" [] 10, .getNextChallenge, .getNextChallenge, .markVerifying "c1", .markVerifying "c1",
    .markVerified 1 "c1" []]

def workerHistory : QueueHistory := workerCalls.foldl QueueHistory.call .new

/-- What a completion depends on. -/
def verdictOf (h : QueueHistory) (challengeId : String) : Option (QueueStatus × Option String) :=
  (h.queue.rows.get? challengeId).map fun row => (row.status, row.verificationResultJson)

theorem verdictOf_some {h : QueueHistory} {challengeId : String} {row : QueueRow} {status : QueueStatus} {result : Option String}
    (hget : h.queue.rows.get? challengeId = some row) (hv : verdictOf h challengeId = some (status, result)) :
    row.status = status ∧ row.verificationResultJson = result := by
  rw [verdictOf, hget, Option.map_some, Option.some.injEq] at hv
  exact Prod.mk.inj hv

/-- The verdict is reported twice. -/
theorem challenges_decided_once_repeated :
    let steps := stepsOf QueueHistory.call .new (workerCalls ++ [.markVerified 2 "c1" []])
    (∃ h, Trace (fun (h : QueueHistory) c h' => h' = h.call c) .new steps h) ∧ ∀ e ∈ steps, Verdicts e.1 e.2.2 := by
  refine ⟨⟨_, Trace.ofCalls stepsOf_call⟩, (challenges_decided_once (Trace.ofCalls stepsOf_call)).mpr ?_⟩
  simp only [workerCalls, List.cons_append, List.nil_append, stepsOf, List.forall_mem_cons]
  refine ⟨trivial, trivial, trivial, trivial, trivial, ?_, ?_, List.forall_mem_nil _⟩
  · intro row hget
    have hverdict : row.status = .verifying ∧ row.verificationResultJson = none := verdictOf_some hget (by decide +kernel)
    exact Or.inl hverdict.1
  · intro row hget
    exact Or.inr (verdictOf_some hget (by decide +kernel))

/-- The worker that did not get the challenge reports a failure all the same. -/
theorem late_failure_overwrites : ¬∀ steps h, Trace (fun (h : QueueHistory) c h' => h' = h.call c) .new steps h →
    ∀ e ∈ steps, Verdicts e.1 e.2.2 := by
  intro hall
  have h := hall _ _ (Trace.ofCalls stepsOf_call) _ (last_mem_stepsOf QueueHistory.call .new workerCalls (.markFailed 2 "c1" "timeout"))
  obtain ⟨row, hget⟩ : ∃ row, workerHistory.queue.rows.get? "c1" = some row := Table.contains_eq_true_iff.mp (by decide +kernel)
  have hrow : row.status = .verified ∧ row.verificationResultJson = some (resultText []) := verdictOf_some hget (by decide +kernel)
  obtain ⟨row', hget', hstatus, _⟩ := h.final "c1" row hget (by rw [hrow.1]; rfl)
  have hrow' : row'.status = .failed ∧ row'.verificationResultJson = some (resultText [("error", .str "timeout")]) :=
    verdictOf_some hget' (by decide +kernel)
  rw [hrow.1, hrow'.1] at hstatus
  cases hstatus

end Workers

end AgentNetwork.Challenges
