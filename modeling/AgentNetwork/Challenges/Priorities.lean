import AgentNetwork.Challenges.Verdicts
import Mathlib.Tactic.Linarith

/-! The order in which challenges are verified, with scores as exact numbers. -/

namespace AgentNetwork.Challenges

open Relational StableSort Transition

/-- `_calculate_priority`: the bond, and ten for every hour between two readings of the clock. -/
def exactPriority (bondAmount queuedAtNs currentTimeNs : Int) : ℚ :=
  bondAmount + ((currentTimeNs - queuedAtNs : Int) : ℚ) / 3600000000000 * 10

/-- What an INTEGER column holds; `sqlite3` raises OverflowError for the rest. -/
def FitsInteger (n : Int) : Prop := -2 ^ 63 ≤ n ∧ n < 2 ^ 63

instance (n : Int) : Decidable (FitsInteger n) := inferInstanceAs (Decidable (_ ∧ _))

namespace ChallengeQueue

/-- `add_challenge` with any score. -/
def addScored (priority : Int → Int → Int → ℚ) (q : ChallengeQueue) (queuedAtNs currentTimeNs : Int)
    (challengeId taskId commitId challengerId : String) (proofData : List (String × Json)) (bondAmount : Int) :
    Except QueueError QueuedChallenge × ChallengeQueue :=
  let priorityScore := priority bondAmount queuedAtNs currentTimeNs
  match q.rows.insert? challengeId ⟨taskId, commitId, challengerId, resultText proofData, bondAmount, queuedAtNs,
      priorityScore, .queued, none, none⟩ with
  | none => (.error (.integrityError "UNIQUE constraint failed: challenge_queue.challenge_id"), q)
  | some rows =>
    (.ok ⟨challengeId, taskId, commitId, challengerId, .obj proofData, bondAmount, queuedAtNs, priorityScore, .queued⟩, ⟨rows⟩)

theorem addChallenge_eq_addScored (q : ChallengeQueue) (queuedAtNs currentTimeNs : Int)
    (challengeId taskId commitId challengerId : String) (proofData : List (String × Json)) (bondAmount : Int) :
    q.addChallenge queuedAtNs currentTimeNs challengeId taskId commitId challengerId proofData bondAmount =
      q.addScored calculatePriority queuedAtNs currentTimeNs challengeId taskId commitId challengerId proofData bondAmount :=
  rfl

def decode (e : String × QueueRow) : Except QueueError QueuedChallenge :=
  match Json.loads e.2.proofDataJson with
  | none => .error (.jsonDecodeError e.2.proofDataJson)
  | some proofData =>
    .ok ⟨e.1, e.2.taskId, e.2.commitId, e.2.challengerId, proofData, e.2.bondAmount, e.2.queuedAtNs, e.2.priorityScore, e.2.status⟩

def queued (q : ChallengeQueue) : List (String × QueueRow) := q.rows.entries.filter fun e => e.2.status = .queued

/-- `bond_amount DESC, queued_at_ns ASC`. -/
def bondOrder (e : String × QueueRow) : Lex (Int × Int) := toLex (-e.2.bondAmount, e.2.queuedAtNs)

/-- `priority_score DESC, queued_at_ns ASC`. -/
def scoreOrder (e : String × QueueRow) : Lex (ℚ × Int) := toLex (-e.2.priorityScore, e.2.queuedAtNs)

def prioritizeByBond (q : ChallengeQueue) : Except QueueError (List QueuedChallenge) := (sortOn bondOrder q.queued).mapM decode

/-- The next challenge is one of those by bond, with the bond and the time of the first. -/
def FollowsBonds (q : ChallengeQueue) : Prop :=
  ∃ byBond next, q.prioritizeByBond = .ok byBond ∧ q.getNextChallenge = .ok next ∧ (∀ c ∈ next, c ∈ byBond) ∧
    next.map (fun c => (c.bondAmount, c.queuedAtNs)) = byBond.head?.map fun c => (c.bondAmount, c.queuedAtNs)

end ChallengeQueue

/-- A queue, the last reading of the clock, and the time that passed between the two
readings of the call that added a challenge. -/
structure TimedQueue where
  queue : ChallengeQueue
  clock : Int
  gap : String → Int

namespace TimedQueue

open ChallengeQueue

def new (clock : Int) : TimedQueue := ⟨.new, clock, fun _ => 0⟩

/-- A call; one that adds a challenge computes the exact score. -/
def call (t : TimedQueue) : QueueCall → TimedQueue
  | .addChallenge queuedAtNs currentTimeNs challengeId taskId commitId challengerId proofData bondAmount =>
    if FitsInteger bondAmount then
      match t.queue.addScored exactPriority queuedAtNs currentTimeNs challengeId taskId commitId challengerId proofData bondAmount with
      | (.ok _, queue) => ⟨queue, currentTimeNs, Function.update t.gap challengeId (currentTimeNs - queuedAtNs)⟩
      | (.error _, queue) => ⟨queue, currentTimeNs, t.gap⟩
    else { t with clock := currentTimeNs }
  | .getNextChallenge => t
  | .markVerifying challengeId => { t with queue := (t.queue.markVerifying challengeId).2 }
  | .markVerified verifiedAtNs challengeId result =>
    ⟨(t.queue.markVerified verifiedAtNs challengeId result).2, verifiedAtNs, t.gap⟩
  | .markFailed verifiedAtNs challengeId error => ⟨(t.queue.markFailed verifiedAtNs challengeId error).2, verifiedAtNs, t.gap⟩

/-- The clock never goes back, and proof data can be written. -/
def Timely (t : TimedQueue) : QueueCall → Prop
  | .addChallenge queuedAtNs currentTimeNs _ _ _ _ proofData _ =>
    t.clock ≤ queuedAtNs ∧ queuedAtNs ≤ currentTimeNs ∧ Json.wellFormedFields proofData = true
  | .markVerified verifiedAtNs _ _ | .markFailed verifiedAtNs _ _ => t.clock ≤ verifiedAtNs
  | .getNextChallenge | .markVerifying _ => True

/-- A challenge comes before another by score: six minutes between the readings are worth
a bond of one. -/
def Outranks (gap : String → Int) (b a : String × QueueRow) : Prop :=
  360000000000 * (a.2.bondAmount - b.2.bondAmount) < gap b.1 - gap a.1 ∨
    360000000000 * (a.2.bondAmount - b.2.bondAmount) = gap b.1 - gap a.1 ∧ b.2.queuedAtNs < a.2.queuedAtNs

/-- Unless nothing is queued, one of those that come first by bond is outranked by none
that comes later. -/
def BondsDecide (t : TimedQueue) : Prop :=
  ∀ e ∈ t.queue.queued, ∃ a ∈ t.queue.queued, (∀ b ∈ t.queue.queued, bondOrder a ≤ bondOrder b) ∧
    ∀ b ∈ t.queue.queued, bondOrder a < bondOrder b → ¬Outranks t.gap b a

/-- What no call changes about a row. -/
def stamp (row : QueueRow) : Int × Int × ℚ × String := (row.bondAmount, row.queuedAtNs, row.priorityScore, row.proofDataJson)

def stamps (t : Table String QueueRow) : List (String × Int × Int × ℚ × String) := t.entries.map fun e => (e.1, stamp e.2)

/-- Scores are exact, proof data can be read, and challenges are added one after the other. -/
structure Recorded (gap : String → Int) (clock : Int) (l : List (String × Int × Int × ℚ × String)) : Prop where
  score : ∀ e ∈ l, e.2.2.2.1 = exactPriority e.2.1 e.2.2.1 (e.2.2.1 + gap e.1)
  readable : ∀ e ∈ l, ∃ proofData, Json.loads e.2.2.2.2 = some proofData
  forward : ∀ e ∈ l, 0 ≤ gap e.1
  past : ∀ e ∈ l, e.2.2.1 + gap e.1 ≤ clock
  ordered : l.Pairwise fun e e' => e.2.2.1 + gap e.1 ≤ e'.2.2.1

theorem stamps_set {t : Table String QueueRow} {k : String} {row : QueueRow} (found : t.get? k = some row) (row' : QueueRow)
    (h : stamp row' = stamp row) : stamps (t.set k row') = stamps t := by
  refine Table.map_entries_eq_iff.mpr ⟨?_, fun j _ => ?_⟩
  · rw [Table.keys, Table.set, List.map_map, Table.keys]
    apply List.map_congr_left
    intro e _
    by_cases he : e.1 = k <;> simp [he]
  · rw [Table.get?_set]
    by_cases hj : j = k
    · rw [if_pos hj, hj, found]
      exact congrArg some h
    · rw [if_neg hj]

section Runs

variable {gap : String → Int} {clock clock' : Int} {l : List (String × Int × Int × ℚ × String)} {t t' : TimedQueue} {c : QueueCall}

theorem Recorded.later (h : Recorded gap clock l) (hle : clock ≤ clock') : Recorded gap clock' l :=
  ⟨h.score, h.readable, h.forward, fun e he => (h.past e he).trans hle, h.ordered⟩

/-- A challenge that is new comes last. -/
theorem Recorded.add (h : Recorded gap clock l) {challengeId : String} (bondAmount : Int) {queuedAtNs currentTimeNs : Int}
    {proofData : List (String × Json)} (fresh : ∀ e ∈ l, e.1 ≠ challengeId) (hclock : clock ≤ queuedAtNs)
    (hforward : queuedAtNs ≤ currentTimeNs) (hw : Json.wellFormedFields proofData = true) :
    Recorded (Function.update gap challengeId (currentTimeNs - queuedAtNs)) currentTimeNs
      (l ++ [(challengeId, bondAmount, queuedAtNs, exactPriority bondAmount queuedAtNs currentTimeNs, resultText proofData)]) := by
  have hold : ∀ e ∈ l, Function.update gap challengeId (currentTimeNs - queuedAtNs) e.1 = gap e.1 :=
    fun e he => Function.update_of_ne (fresh e he) _ _
  have hnew : Function.update gap challengeId (currentTimeNs - queuedAtNs) challengeId = currentTimeNs - queuedAtNs :=
    Function.update_self _ _ _
  have hsum : queuedAtNs + (currentTimeNs - queuedAtNs) = currentTimeNs := by omega
  have hread : Json.loads (resultText proofData) = some (.obj proofData) :=
    Json.loads_write rfl Json.defaultStyle_readable _ hw
  refine ⟨?_, ?_, ?_, ?_, ?_⟩
  · refine List.forall_mem_append.mpr ⟨fun e he => ?_, List.forall_mem_singleton.mpr ?_⟩
    · rw [hold e he]
      exact h.score e he
    · rw [hnew, hsum]
  · exact List.forall_mem_append.mpr ⟨h.readable, List.forall_mem_singleton.mpr ⟨_, hread⟩⟩
  · refine List.forall_mem_append.mpr ⟨fun e he => ?_, List.forall_mem_singleton.mpr ?_⟩
    · rw [hold e he]
      exact h.forward e he
    · rw [hnew]
      omega
  · refine List.forall_mem_append.mpr ⟨fun e he => ?_, List.forall_mem_singleton.mpr ?_⟩
    · rw [hold e he]
      have hpast := h.past e he
      omega
    · rw [hnew, hsum]
  · refine List.pairwise_append.mpr ⟨h.ordered.imp_of_mem fun he _ hle => ?_, List.pairwise_singleton _ _, fun e he e' he' => ?_⟩
    · rw [hold _ he]
      exact hle
    · rw [List.mem_singleton.mp he', hold e he]
      have hpast := h.past e he
      dsimp only
      omega

def Good (t : TimedQueue) : Prop := Recorded t.gap t.clock (stamps t.queue.rows)

theorem good_new (clock : Int) : Good (.new clock) :=
  ⟨List.forall_mem_nil _, List.forall_mem_nil _, List.forall_mem_nil _, List.forall_mem_nil _, List.Pairwise.nil⟩

theorem Good.complete (h : Good t) (status : QueueStatus) {verifiedAtNs : Int} (challengeId : String) (result : List (String × Json))
    (hle : t.clock ≤ verifiedAtNs) : Good ⟨(t.queue.complete status verifiedAtNs challengeId result).2, verifiedAtNs, t.gap⟩ := by
  cases found : t.queue.rows.get? challengeId with
  | none =>
    rw [complete_of_missing found]
    exact h.later hle
  | some row =>
    have hstamps := stamps_set found { row with
      status := status, verifiedAtNs := some verifiedAtNs, verificationResultJson := some (resultText result) } rfl
    rw [complete_of_found found, Good]
    dsimp only
    rw [hstamps]
    exact h.later hle

theorem Good.markVerifying (h : Good t) (challengeId : String) :
    Good { t with queue := (t.queue.markVerifying challengeId).2 } := by
  unfold ChallengeQueue.markVerifying
  split
  next => exact h
  next row found =>
    split
    · have hstamps := stamps_set found { row with status := .verifying } rfl
      rw [Good]
      dsimp only
      rw [hstamps]
      exact h
    · exact h

theorem Good.call (h : Good t) (ok : t.Timely c) : Good (t.call c) := by
  cases c with
  | addChallenge queuedAtNs currentTimeNs challengeId taskId commitId challengerId proofData bondAmount =>
    obtain ⟨hclock, hforward, hw⟩ := ok
    have hlater := h.later (hclock.trans hforward)
    unfold TimedQueue.call addScored
    dsimp only
    split
    · cases hinsert : t.queue.rows.insert? challengeId ⟨taskId, commitId, challengerId, resultText proofData, bondAmount,
          queuedAtNs, exactPriority bondAmount queuedAtNs currentTimeNs, .queued, none, none⟩ with
      | none => exact hlater
      | some rows =>
        obtain ⟨fresh, rfl⟩ := Table.insert?_eq_some_iff.mp hinsert
        have hfresh : ∀ e ∈ stamps t.queue.rows, e.1 ≠ challengeId := by
          intro e he hid
          obtain ⟨e', he', rfl⟩ := List.mem_map.mp he
          refine Table.get?_eq_none_iff.mp fresh ?_
          rw [← hid]
          exact List.mem_map_of_mem he'
        have hstamps := h.add bondAmount hfresh hclock hforward hw
        rw [Good, stamps, Table.insert, List.map_append]
        exact hstamps
    · exact hlater
  | getNextChallenge => exact h
  | markVerifying challengeId => exact h.markVerifying challengeId
  | markVerified verifiedAtNs challengeId result => exact h.complete .verified challengeId result ok
  | markFailed verifiedAtNs challengeId error => exact h.complete .failed challengeId _ ok

theorem Good.row_score (h : Good t) {e : String × QueueRow} (he : e ∈ t.queue.queued) :
    e.2.priorityScore = e.2.bondAmount + (t.gap e.1 : ℚ) / 360000000000 := by
  have hmem : (e.1, stamp e.2) ∈ stamps t.queue.rows := List.mem_map_of_mem (List.mem_filter.mp he).1
  have hscore : e.2.priorityScore = exactPriority e.2.bondAmount e.2.queuedAtNs (e.2.queuedAtNs + t.gap e.1) := h.score _ hmem
  rw [hscore, exactPriority, add_sub_cancel_left]
  ring

theorem Good.outranks_iff (h : Good t) {a b : String × QueueRow} (ha : a ∈ t.queue.queued) (hb : b ∈ t.queue.queued) :
    Outranks t.gap b a ↔ scoreOrder b < scoreOrder a := by
  have hlead : a.2.priorityScore - b.2.priorityScore =
      (360000000000 * (a.2.bondAmount - b.2.bondAmount) - (t.gap b.1 - t.gap a.1) : Int) / 360000000000 := by
    rw [h.row_score ha, h.row_score hb]
    push_cast
    ring
  have hlt : -b.2.priorityScore < -a.2.priorityScore ↔ 360000000000 * (a.2.bondAmount - b.2.bondAmount) < t.gap b.1 - t.gap a.1 := by
    rw [neg_lt_neg_iff, ← sub_neg, hlead, div_lt_iff₀ (by norm_num), zero_mul, Int.cast_lt_zero, sub_neg]
  have heq : -b.2.priorityScore = -a.2.priorityScore ↔ 360000000000 * (a.2.bondAmount - b.2.bondAmount) = t.gap b.1 - t.gap a.1 := by
    rw [neg_inj, eq_comm, ← sub_eq_zero, hlead, div_eq_zero_iff, or_iff_left (by norm_num), Int.cast_eq_zero, sub_eq_zero]
  rw [scoreOrder, scoreOrder, Prod.Lex.toLex_lt_toLex, hlt, heq]
  rfl

theorem Good.decode (h : Good t) {e : String × QueueRow} (he : e ∈ t.queue.queued) :
    ∃ c, ChallengeQueue.decode e = .ok c ∧ c.bondAmount = e.2.bondAmount ∧ c.queuedAtNs = e.2.queuedAtNs := by
  have hmem : (e.1, stamp e.2) ∈ stamps t.queue.rows := List.mem_map_of_mem (List.mem_filter.mp he).1
  obtain ⟨proofData, hread⟩ := h.readable _ hmem
  have hread' : Json.loads e.2.proofDataJson = some proofData := hread
  exact ⟨_, by rw [ChallengeQueue.decode, hread'], rfl, rfl⟩

theorem mapM_decode {l : List (String × QueueRow)} (h : ∀ e ∈ l, ∃ c, ChallengeQueue.decode e = .ok c) :
    ∃ cs, l.mapM ChallengeQueue.decode = .ok cs ∧ cs.map Except.ok = l.map ChallengeQueue.decode := by
  induction l with
  | nil => exact ⟨[], rfl, rfl⟩
  | cons e rest ih =>
    obtain ⟨⟨c, hc⟩, hrest⟩ := List.forall_mem_cons.mp h
    obtain ⟨cs, hcs, hmap⟩ := ih hrest
    refine ⟨c :: cs, ?_, ?_⟩
    · rw [List.mapM_cons, hc, hcs]
      rfl
    · rw [List.map_cons, List.map_cons, hc, hmap]

theorem getNextChallenge_eq (q : ChallengeQueue) :
    q.getNextChallenge = match q.next with
      | none => .ok none
      | some e => (ChallengeQueue.decode e).map some := by
  unfold getNextChallenge
  cases q.next with
  | none => rfl
  | some e =>
    unfold ChallengeQueue.decode
    dsimp only
    cases Json.loads e.2.proofDataJson <;> rfl

theorem Good.followsBonds_iff (h : Good t) :
    t.queue.FollowsBonds ↔ ∀ e, t.queue.next = some e → ∀ b ∈ t.queue.queued, bondOrder e ≤ bondOrder b := by
  have hdecodes : ∀ e ∈ sortOn bondOrder t.queue.queued, ∃ c, ChallengeQueue.decode e = .ok c := by
    intro e he
    obtain ⟨c, hc, -⟩ := h.decode ((mem_sortOn _).mp he)
    exact ⟨c, hc⟩
  obtain ⟨byBond, hbyBond, hmap⟩ := mapM_decode hdecodes
  have hhead : byBond.head?.map Except.ok = (firstLeast bondOrder t.queue.queued).map ChallengeQueue.decode := by
    rw [← List.head?_map, hmap, List.head?_map, head?_sortOn]
  cases hnext : t.queue.next with
  | none =>
    have hnil : t.queue.queued = [] := firstLeast_eq_none.mp hnext
    rw [hnil] at hhead
    have hbyBond' : byBond.head? = none := Option.map_eq_none_iff.mp hhead
    constructor
    · intro _ e he
      cases he
    · intro _
      refine ⟨byBond, none, hbyBond, ?_, fun c hc => ?_, ?_⟩
      · rw [getNextChallenge_eq, hnext]
      · cases hc
      · rw [hbyBond', Option.map_none]
  | some e =>
    obtain ⟨hem, hes, -⟩ := firstLeast_filter_some hnext
    have he : e ∈ t.queue.queued := List.mem_filter.mpr ⟨hem, hes⟩
    obtain ⟨c, hc, hbond, htime⟩ := h.decode he
    have hget : t.queue.getNextChallenge = .ok (some c) := by
      rw [getNextChallenge_eq, hnext]
      dsimp only
      rw [hc]
      rfl
    obtain ⟨first, hfirst⟩ : ∃ first, firstLeast bondOrder t.queue.queued = some first := by
      refine Option.ne_none_iff_exists'.mp fun hnone => ?_
      rw [firstLeast_eq_none.mp hnone] at he
      cases he
    have hmin : first ∈ t.queue.queued ∧ ∀ b ∈ t.queue.queued, bondOrder first ≤ bondOrder b :=
      ⟨List.argmin_mem hfirst, fun b hb => List.le_of_mem_argmin hb hfirst⟩
    obtain ⟨c₀, hc₀, hbond₀, htime₀⟩ := h.decode hmin.1
    rw [hfirst, Option.map_some, hc₀] at hhead
    obtain ⟨c₁, hc₁, hsame⟩ := Option.map_eq_some_iff.mp hhead
    have hhead₀ : byBond.head? = some c₀ := hc₁.trans (congrArg some (Except.ok.inj hsame))
    have hmem : c ∈ byBond := by
      have hin : ChallengeQueue.decode e ∈ byBond.map Except.ok := by
        rw [hmap]
        exact List.mem_map_of_mem ((mem_sortOn _).mpr he)
      obtain ⟨c', hc', hsame'⟩ := List.mem_map.mp hin
      rw [hc] at hsame'
      rwa [← Except.ok.inj hsame']
    constructor
    · intro hfollows e' he' b hb
      obtain ⟨byBond', next, hbyBond', hnext', -, hkeys⟩ := hfollows
      cases Except.ok.inj (hbyBond.symm.trans hbyBond')
      cases Except.ok.inj (hget.symm.trans hnext')
      cases he'
      rw [hhead₀, Option.map_some, Option.map_some, hbond, htime, hbond₀, htime₀] at hkeys
      obtain ⟨hb', ht'⟩ := Prod.mk.inj (Option.some.inj hkeys)
      have horder : bondOrder e = bondOrder first := by rw [bondOrder, bondOrder, hb', ht']
      rw [horder]
      exact hmin.2 b hb
    · intro hfirstByBond
      have horder : bondOrder e = bondOrder first := le_antisymm (hfirstByBond e rfl first hmin.1) (hmin.2 e he)
      obtain ⟨hb', ht'⟩ := Prod.mk.inj (toLex_inj.mp horder)
      refine ⟨byBond, some c, hbyBond, hget, ?_, ?_⟩
      · rintro c' hc'
        rwa [← Option.some.inj hc']
      · rw [hhead₀, Option.map_some, Option.map_some, hbond, htime, hbond₀, htime₀, neg_inj.mp hb', ht']

theorem Good.follows_iff (h : Good t) : t.queue.FollowsBonds ↔ t.BondsDecide := by
  rw [h.followsBonds_iff]
  constructor
  · intro hfollows e he
    cases hnext : t.queue.next with
    | none =>
      have hnil : t.queue.queued = [] := firstLeast_eq_none.mp hnext
      rw [hnil] at he
      cases he
    | some a =>
      obtain ⟨ham, has, hleast⟩ := firstLeast_filter_some hnext
      have ha : a ∈ t.queue.queued := List.mem_filter.mpr ⟨ham, has⟩
      refine ⟨a, ha, hfollows a hnext, fun b hb _ => ?_⟩
      obtain ⟨hbm, hbs⟩ := List.mem_filter.mp hb
      rw [h.outranks_iff ha hb]
      exact not_lt.mpr (hleast b hbm hbs)
  · intro hdecide e hnext b hb
    obtain ⟨hem, hes, hleast⟩ := firstLeast_filter_some hnext
    have he : e ∈ t.queue.queued := List.mem_filter.mpr ⟨hem, hes⟩
    obtain ⟨a, ha, hfirst, hnone⟩ := hdecide e he
    refine le_trans ?_ (hfirst b hb)
    by_contra hlater
    have hae : bondOrder a < bondOrder e := not_le.mp hlater
    obtain ⟨ham, has⟩ := List.mem_filter.mp ha
    -- neither comes before the other by score, so `e` was added earlier
    have hscore : scoreOrder a = scoreOrder e := by
      have hnot := hnone e he hae
      rw [h.outranks_iff ha he, not_lt] at hnot
      exact le_antisymm hnot (hleast a ham has)
    have hne : a ≠ e := fun heq => absurd hae (by rw [heq]; exact lt_irrefl _)
    have hordered : t.queue.queued.Pairwise fun e e' => e.2.queuedAtNs + t.gap e.1 ≤ e'.2.queuedAtNs :=
      (List.pairwise_map.mp h.ordered).filter _
    have hbefore : e.2.queuedAtNs + t.gap e.1 ≤ a.2.queuedAtNs := by
      have hrel := firstLeast_before hnext hordered ha (le_of_eq hscore) hne
      exact hrel
    have htime : a.2.queuedAtNs = e.2.queuedAtNs := congrArg (fun p => (ofLex p).2) hscore
    have hscores : a.2.priorityScore = e.2.priorityScore := neg_inj.mp (congrArg (fun p => (ofLex p).1) hscore)
    have hforward : ∀ e ∈ t.queue.queued, 0 ≤ t.gap e.1 := fun e he =>
      h.forward (e.1, stamp e.2) (List.mem_map_of_mem (List.mem_filter.mp he).1)
    have hgape := hforward e he
    have hgapa := hforward a ha
    have hgap : t.gap e.1 = 0 := by omega
    rw [h.row_score ha, h.row_score he, hgap] at hscores
    have hbonds : a.2.bondAmount ≤ e.2.bondAmount := by
      have hpos : (0 : ℚ) ≤ (t.gap a.1 : ℚ) / 360000000000 := div_nonneg (by exact_mod_cast hgapa) (by norm_num)
      have hle : (a.2.bondAmount : ℚ) ≤ e.2.bondAmount := by
        push_cast at hscores
        linarith
      exact_mod_cast hle
    rcases Prod.Lex.toLex_lt_toLex.mp hae with hlt | ⟨-, hlt⟩
    · have hlt' : -a.2.bondAmount < -e.2.bondAmount := hlt
      omega
    · have hlt' : a.2.queuedAtNs < e.2.queuedAtNs := hlt
      omega

/-- In every run the next challenge follows the bonds just when no time between two
readings of the clock outweighs them. -/
theorem next_follows_bonds_iff {start : Int} (h : Visits (fun t c t' => t' = t.call c) Timely (.new start) t) :
    t.queue.FollowsBonds ↔ t.BondsDecide := by
  refine Good.follows_iff (h.invariant (good_new start) fun hI ok hstep => ?_)
  rw [hstep]
  exact hI.call ok

/-- Two challenges with the same bond; the second takes longer between its readings. -/
def olderChallenge : QueueCall := .addChallenge 1000 1100 "c1" "task" "commit" "alice" [] 10

def youngerChallenge : QueueCall := .addChallenge 5000 5200 "c2" "task" "commit" "bob" [] 10

theorem visits_older :
    Visits (fun t c t' => t' = t.call c) Timely (.new 0) ((TimedQueue.new 0).call olderChallenge) :=
  @Visits.next _ _ _ _ _ _ _ olderChallenge .start ⟨by decide, by decide, rfl⟩ rfl

theorem next_follows_bonds_iff_older :
    ((TimedQueue.new 0).call olderChallenge).queue.FollowsBonds ↔ ((TimedQueue.new 0).call olderChallenge).BondsDecide :=
  next_follows_bonds_iff visits_older

/-- The younger of two challenges with the same bond is the next one. -/
theorem younger_is_next : ¬∀ t, Visits (fun t c t' => t' = t.call c) Timely (.new 0) t → t.queue.FollowsBonds := by
  intro h
  have hclock : ((TimedQueue.new 0).call olderChallenge).clock ≤ 5000 := by decide +kernel
  have hvisits := @Visits.next _ _ _ _ _ _ _ youngerChallenge visits_older ⟨hclock, by decide, rfl⟩ rfl
  obtain ⟨byBond, next, hbyBond, hnext, -, hkeys⟩ := h _ hvisits
  have hkeys' : (((TimedQueue.new 0).call olderChallenge).call youngerChallenge).queue.getNextChallenge.map
      (Option.map fun c => (c.bondAmount, c.queuedAtNs)) =
    (((TimedQueue.new 0).call olderChallenge).call youngerChallenge).queue.prioritizeByBond.map
      fun l => l.head?.map fun c => (c.bondAmount, c.queuedAtNs) := by
    rw [hnext, hbyBond]
    exact congrArg Except.ok hkeys
  exact absurd hkeys' (by decide +kernel)

end Runs

end TimedQueue

end AgentNetwork.Challenges
