import AgentNetwork.Challenges.Admission
import AgentNetwork.Library.SlidingWindow
import AgentNetwork.Library.Traces
import Mathlib.Data.Int.ConditionallyCompleteOrder
import Mathlib.Data.Real.Basic
import Mathlib.Tactic.Linarith

/-! The limits on the challenges of a challenger, an hour's and a day's. Both checks
count the list of the last hour. -/

namespace AgentNetwork.Challenges

open Relational Transactional Transactional.Prog SlidingWindow Transition

variable {ε σ : Type}

theorem secondsBefore_mono (seconds : Int) {checked now : Int} (h : checked ≤ now) :
    secondsBefore seconds checked ≤ secondsBefore seconds now :=
  Double.nearest_mono (sub_le_sub_right (Double.nearest_mono (by exact_mod_cast h)) _)

namespace ChallengerStats

/-- What `record_challenge` makes of the statistics. -/
def record (stats : ChallengerStats) (now : Int) : ChallengerStats :=
  let stats : ChallengerStats := ⟨stats.totalChallenges + 1, now, stats.challengesInWindow ++ [now]⟩
  { stats with challengesInWindow := stats.since 3600 now }

/-- Both comparisons of `check_rate_limit`. -/
def Allows (stats : ChallengerStats) (now : Int) : Prop :=
  (stats.since 3600 now).length < AbuseDetector.maxChallengesPerHour ∧
    (stats.since (24 * 3600) now).length < AbuseDetector.maxChallengesPerDay

instance (stats : ChallengerStats) (now : Int) : Decidable (stats.Allows now) := inferInstanceAs (Decidable (_ ∧ _))

end ChallengerStats

namespace AbuseDetector

/-- `check_rate_limit`, and right after it `record_challenge` where it allows. The time
that is recorded comes back with the detector. -/
def submit (detector : AbuseDetector) (challengerId : String) : Prog ε σ (AbuseDetector × Option Int) := do
  let refused ← detector.checkRateLimit challengerId
  match refused with
  | some _ => pure (detector, none)
  | none => do
    let detector ← detector.recordChallenge challengerId
    pure (detector, (detector.get? challengerId).map ChallengerStats.lastChallengeNs)

variable {env : Env} {s : Session σ} {detector : AbuseDetector} {challengerId : String} {stats : ChallengerStats}

theorem recordChallenge_apply : (detector.recordChallenge challengerId : Prog ε σ AbuseDetector) env s =
    (.returns (detector.upsert challengerId (((detector.get? challengerId).getD .new).record (env.timeNs s.ticks))),
      { s with ticks := s.ticks + 1 }) := rfl

theorem checkRateLimit_known (h : detector.get? challengerId = some stats) : ∃ refused,
    (detector.checkRateLimit challengerId : Prog ε σ (Option String)) env s = (.returns refused, { s with ticks := s.ticks + 1 }) ∧
      (refused = none ↔ stats.Allows (env.timeNs s.ticks)) := by
  unfold checkRateLimit
  rw [h]
  refine ⟨_, rfl, ?_⟩
  rw [ChallengerStats.Allows]
  split
  next hhour => exact iff_of_false nofun fun hok => absurd hok.1 (by omega)
  next hhour =>
    split
    next hday => exact iff_of_false nofun fun hok => absurd hok.2 (by omega)
    next hday => exact iff_of_true rfl ⟨by omega, by omega⟩

theorem submit_new (h : detector.get? challengerId = none) : (detector.submit challengerId : Prog ε σ _) env s =
    (.returns (detector.upsert challengerId (ChallengerStats.new.record (env.timeNs s.ticks)), some (env.timeNs s.ticks)),
      { s with ticks := s.ticks + 1 }) := by
  have hcheck : (detector.checkRateLimit challengerId : Prog ε σ _) env s = (.returns none, s) := by
    rw [checkRateLimit, h]
    rfl
  rw [submit, bind_of_returns hcheck]
  dsimp only
  rw [bind_of_returns recordChallenge_apply, h, pure_apply, Table.get?_upsert, if_pos rfl]
  rfl

theorem submit_known (h : detector.get? challengerId = some stats) : (detector.submit challengerId : Prog ε σ _) env s =
    if stats.Allows (env.timeNs s.ticks) then
      (.returns (detector.upsert challengerId (stats.record (env.timeNs (s.ticks + 1))), some (env.timeNs (s.ticks + 1))),
        { s with ticks := s.ticks + 2 })
    else (.returns (detector, none), { s with ticks := s.ticks + 1 }) := by
  obtain ⟨refused, hcheck, hiff⟩ := @checkRateLimit_known ε σ env s detector challengerId stats h
  rw [submit, bind_of_returns hcheck]
  cases refused with
  | none =>
    rw [if_pos (hiff.mp rfl)]
    dsimp only
    rw [bind_of_returns recordChallenge_apply, h, pure_apply, Table.get?_upsert, if_pos rfl]
    rfl
  | some message =>
    rw [if_neg fun hok => nomatch hiff.mpr hok]
    rfl

end AbuseDetector

/-- The detector, the clock of its process and what has been recorded for each challenger. -/
structure Submissions where
  session : Session Unit
  detector : AbuseDetector
  recorded : String → List Int

namespace Submissions

def init (session : Session Unit) : Submissions := ⟨session, .empty, fun _ => []⟩

def submit (env : Env) (w : Submissions) (challengerId : String) : Submissions :=
  match (w.detector.submit challengerId : Prog Unit Unit _) env w.session with
  | (.returns (detector, time), session) =>
    ⟨session, detector, fun id => if id = challengerId then w.recorded id ++ time.toList else w.recorded id⟩
  | (.raises _, session) => { w with session }
  | (.blocks, session) => { w with session }

/-- The recorded challenges of the hour up to `now` that the cutoff of a check does not
let it see: it is a rounded one. -/
def hidden (w : Submissions) (challengerId : String) (checked now : Int) : List Int :=
  (w.recorded challengerId).filter fun t => now - 3600 * 10 ^ 9 < t ∧ (t : ℚ) ≤ secondsBefore 3600 checked

/-- The recorded challenges of the day up to `now` that `record_challenge` has dropped
when it last kept the last hour. -/
def dropped (w : Submissions) (challengerId : String) (stats : ChallengerStats) (now : Int) : List Int :=
  (w.recorded challengerId).filter fun t =>
    now - 24 * 3600 * 10 ^ 9 < t ∧ (t : ℚ) ≤ secondsBefore 3600 stats.lastChallengeNs

/-- A submission for which the list has fewer challenges of the last hour than there may
be: with those that it does not show there are still fewer than there may be in an hour
and in a day. -/
structure QuotasLeft (env : Env) (w : Submissions) (challengerId : String) : Prop where
  hour : ∀ stats, w.detector.get? challengerId = some stats → ∀ checked now,
    checked = env.timeNs w.session.ticks → now = env.timeNs (w.session.ticks + 1) →
    (stats.since 3600 checked).length < AbuseDetector.maxChallengesPerHour →
    ((stats.since 3600 checked).filter fun t => now - 3600 * 10 ^ 9 < t).length + (w.hidden challengerId checked now).length <
      AbuseDetector.maxChallengesPerHour
  day : ∀ stats, w.detector.get? challengerId = some stats → ∀ checked now,
    checked = env.timeNs w.session.ticks → now = env.timeNs (w.session.ticks + 1) →
    (stats.since 3600 checked).length < AbuseDetector.maxChallengesPerHour →
    (stats.challengesInWindow.filter fun t => now - 24 * 3600 * 10 ^ 9 < t).length + (w.dropped challengerId stats now).length <
      AbuseDetector.maxChallengesPerDay

open Classical in
/-- In no interval of the width, open at the one end or at the other, lie more. -/
def WithinRate (width : Int) (limit : Nat) (times : List Int) : Prop :=
  ∀ a : ℝ, (times.filter fun t : Int => a < (t : ℝ) ∧ (t : ℝ) ≤ a + width).length ≤ limit ∧
    (times.filter fun t : Int => a ≤ (t : ℝ) ∧ (t : ℝ) < a + width).length ≤ limit

structure RatesHold (w : Submissions) : Prop where
  hourly : ∀ challengerId, WithinRate (3600 * 10 ^ 9) AbuseDetector.maxChallengesPerHour (w.recorded challengerId)
  daily : ∀ challengerId, WithinRate (24 * 3600 * 10 ^ 9) AbuseDetector.maxChallengesPerDay (w.recorded challengerId)

theorem withinRate_iff {width : Int} {limit : Nat} {times : List Int} (hwidth : 0 < width) (sorted : times.Pairwise (· ≤ ·)) :
    WithinRate width limit times ↔ Admitted width limit times := by
  constructor
  · intro h
    refine (admitted_iff_length_Ioc_le hwidth sorted).mpr fun a => ?_
    refine le_of_eq_of_le (congrArg List.length (List.filter_congr fun t _ => ?_)) (h a).1
    rw [decide_eq_decide]
    exact_mod_cast Iff.rfl
  · intro h a
    constructor
    · refine h.length_le _ fun t ht s hs => ?_
      obtain ⟨_, ht⟩ := of_decide_eq_true ht
      obtain ⟨hs, _⟩ := of_decide_eq_true hs
      have hnear : (t : ℝ) - width < s := by linarith
      exact_mod_cast hnear
    · refine h.length_le _ fun t ht s hs => ?_
      obtain ⟨_, ht⟩ := of_decide_eq_true ht
      obtain ⟨hs, _⟩ := of_decide_eq_true hs
      have hnear : (t : ℝ) - width < s := by linarith
      exact_mod_cast hnear

def after (cut : ℚ) (times : List Int) : List Int := times.filter fun t : Int => (t : ℚ) > cut

theorem after_after {cut later : ℚ} (h : cut ≤ later) (times : List Int) : after later (after cut times) = after later times := by
  unfold after
  rw [List.filter_filter]
  refine List.filter_congr ?_
  intro t _
  have hlater : (t : ℚ) > later → (t : ℚ) > cut := fun ht => h.trans_lt ht
  simpa using hlater

theorem length_after_le {cut later : ℚ} (h : cut ≤ later) (times : List Int) : (after later times).length ≤ (after cut times).length := by
  rw [← after_after h]
  exact List.length_filter_le ..

/-- The list of a challenger has what was recorded after the last cutoff. -/
structure Kept (stats : ChallengerStats) (recorded : List Int) : Prop where
  list : stats.challengesInWindow = after (secondsBefore 3600 stats.lastChallengeNs) recorded
  sorted : recorded.Pairwise (· ≤ ·)
  latest : ∀ t ∈ recorded, t ≤ stats.lastChallengeNs
  few : stats.challengesInWindow.length ≤ AbuseDetector.maxChallengesPerHour

variable {stats : ChallengerStats} {recorded : List Int} {checked now : Int}

theorem since_eq {cut : ℚ} (hlist : stats.challengesInWindow = after cut recorded) (hcut : cut ≤ secondsBefore 3600 checked) :
    stats.since 3600 checked = after (secondsBefore 3600 checked) recorded := by
  rw [ChallengerStats.since, hlist]
  exact after_after hcut recorded

theorem kept_record {cut : ℚ} (hlist : stats.challengesInWindow = after cut recorded)
    (hcut : cut ≤ secondsBefore 3600 checked) (hnow : checked ≤ now) (sorted : recorded.Pairwise (· ≤ ·))
    (before : ∀ t ∈ recorded, t ≤ now) (few : (stats.since 3600 checked).length < AbuseDetector.maxChallengesPerHour) :
    Kept (stats.record now) (recorded ++ [now]) := by
  have hmono := secondsBefore_mono 3600 hnow
  have hkept : (stats.record now).challengesInWindow = after (secondsBefore 3600 now) recorded ++ after (secondsBefore 3600 now) [now] := by
    rw [← after_after (hcut.trans hmono), ← hlist]
    exact List.filter_append ..
  refine ⟨hkept.trans (List.filter_append ..).symm, ?_, ?_, ?_⟩
  · refine List.pairwise_append.mpr ⟨sorted, List.pairwise_singleton .., fun t ht u hu => ?_⟩
    rw [List.mem_singleton.mp hu]
    exact before t ht
  · exact List.forall_mem_append.mpr ⟨before, List.forall_mem_singleton.mpr le_rfl⟩
  · have hfewer := length_after_le hmono recorded
    have hone : (after (secondsBefore 3600 now) [now]).length ≤ 1 := List.length_filter_le ..
    rw [since_eq hlist hcut] at few
    rw [hkept, List.length_append]
    omega

/-- What lies in a window is what a cutoff shows of it and what it does not. -/
theorem length_recent (width cut : _) (now : Int) (times : List Int) : (recent width now times).length =
    ((after cut times).filter fun t => now - width < t).length + (times.filter fun t : Int => now - width < t ∧ (t : ℚ) ≤ cut).length := by
  rw [List.length_eq_length_filter_add (l := recent width now times) fun t : Int => (t : ℚ) > cut]
  unfold recent after
  simp only [List.filter_filter]
  congr 2
  · refine List.filter_congr ?_
    intro t _
    exact Bool.and_comm ..
  · refine List.filter_congr ?_
    intro t _
    have hnot : (!decide ((t : ℚ) > cut)) = decide ((t : ℚ) ≤ cut) := by simp [← not_lt]
    rw [hnot, Bool.and_comm, ← Bool.decide_and]

structure Tracked (env : Env) (w : Submissions) : Prop where
  new : ∀ id, w.detector.get? id = none → w.recorded id = []
  known : ∀ id stats, w.detector.get? id = some stats →
    Kept stats (w.recorded id) ∧ stats.lastChallengeNs ≤ env.timeNs w.session.ticks

def Admits (w : Submissions) : Prop :=
  ∀ id, Admitted (3600 * 10 ^ 9) AbuseDetector.maxChallengesPerHour (w.recorded id) ∧
    Admitted (24 * 3600 * 10 ^ 9) AbuseDetector.maxChallengesPerDay (w.recorded id)

/-- A challenge is recorded. -/
def recordedAt (w : Submissions) (challengerId : String) (stats : ChallengerStats) (now : Int) (ticks : Nat) : Submissions :=
  ⟨{ w.session with ticks }, w.detector.upsert challengerId (stats.record now),
    fun id => if id = challengerId then w.recorded id ++ [now] else w.recorded id⟩

variable {env : Env} {w : Submissions} {challengerId id : String} {ticks : Nat}

theorem recorded_self : (w.recordedAt challengerId stats now ticks).recorded challengerId = w.recorded challengerId ++ [now] := if_pos rfl

theorem recorded_other (h : id ≠ challengerId) : (w.recordedAt challengerId stats now ticks).recorded id = w.recorded id := if_neg h

theorem submit_new (h : w.detector.get? challengerId = none) : w.submit env challengerId =
    w.recordedAt challengerId .new (env.timeNs w.session.ticks) (w.session.ticks + 1) := by
  rw [submit, AbuseDetector.submit_new h]
  rfl

/-- The check of the day never refuses: the list is too short for it. -/
theorem submit_known (h : w.detector.get? challengerId = some stats) (few : stats.challengesInWindow.length ≤ AbuseDetector.maxChallengesPerHour) :
    w.submit env challengerId =
      if (stats.since 3600 (env.timeNs w.session.ticks)).length < AbuseDetector.maxChallengesPerHour then
        w.recordedAt challengerId stats (env.timeNs (w.session.ticks + 1)) (w.session.ticks + 2)
      else { w with session := { w.session with ticks := w.session.ticks + 1 } } := by
  have hday : (stats.since (24 * 3600) (env.timeNs w.session.ticks)).length < AbuseDetector.maxChallengesPerDay := by
    have hle : (stats.since (24 * 3600) (env.timeNs w.session.ticks)).length ≤ stats.challengesInWindow.length := List.length_filter_le ..
    exact (hle.trans few).trans_lt (by decide)
  have hiff : stats.Allows (env.timeNs w.session.ticks) ↔
      (stats.since 3600 (env.timeNs w.session.ticks)).length < AbuseDetector.maxChallengesPerHour := and_iff_left hday
  rw [submit, AbuseDetector.submit_known h]
  by_cases hok : stats.Allows (env.timeNs w.session.ticks)
  · rw [if_pos hok, if_pos (hiff.mp hok)]
    rfl
  · rw [if_neg hok, if_neg (mt hiff.mpr hok)]
    simp

theorem Tracked.recordedAt (h : Tracked env w) (clock : Monotone env.timeNs) (hticks : w.session.ticks ≤ ticks)
    (hnow : now ≤ env.timeNs ticks) (hkept : Kept (stats.record now) (w.recorded challengerId ++ [now])) :
    Tracked env (w.recordedAt challengerId stats now ticks) := by
  have hget : ∀ id, (w.recordedAt challengerId stats now ticks).detector.get? id =
      if id = challengerId then some (stats.record now) else w.detector.get? id := fun id => Table.get?_upsert ..
  refine ⟨fun id hid => ?_, fun id stats' hid => ?_⟩
  · by_cases hsame : id = challengerId
    · rw [hget, if_pos hsame] at hid
      cases hid
    · rw [hget, if_neg hsame] at hid
      exact (recorded_other hsame).trans (h.new id hid)
  · by_cases hsame : id = challengerId
    · subst hsame
      rw [hget, if_pos rfl] at hid
      cases hid
      rw [recorded_self]
      exact ⟨hkept, hnow⟩
    · rw [hget, if_neg hsame] at hid
      obtain ⟨hold, hpast⟩ := h.known id stats' hid
      rw [recorded_other hsame]
      exact ⟨hold, hpast.trans (clock hticks)⟩

theorem Tracked.submit (h : Tracked env w) (clock : Monotone env.timeNs) (challengerId : String) :
    Tracked env (w.submit env challengerId) := by
  cases hget : w.detector.get? challengerId with
  | none =>
    have hnone := h.new challengerId hget
    rw [submit_new hget]
    refine h.recordedAt clock (Nat.le_succ _) (clock (Nat.le_succ _)) ?_
    rw [hnone]
    exact kept_record rfl le_rfl le_rfl .nil (List.forall_mem_nil _) (Nat.zero_lt_succ _)
  | some stats =>
    obtain ⟨hkept, hpast⟩ := h.known challengerId stats hget
    have hnext : env.timeNs w.session.ticks ≤ env.timeNs (w.session.ticks + 1) := clock (Nat.le_succ _)
    rw [submit_known hget hkept.few]
    by_cases hfew : (stats.since 3600 (env.timeNs w.session.ticks)).length < AbuseDetector.maxChallengesPerHour
    · rw [if_pos hfew]
      refine h.recordedAt clock (by omega) (clock (by omega)) ?_
      have hbefore : ∀ t ∈ w.recorded challengerId, t ≤ env.timeNs (w.session.ticks + 1) :=
        fun t ht => ((hkept.latest t ht).trans hpast).trans hnext
      exact kept_record hkept.list (secondsBefore_mono 3600 hpast) hnext hkept.sorted hbefore hfew
    · rw [if_neg hfew]
      exact ⟨h.new, fun id stats' hid => ⟨(h.known id stats' hid).1, (h.known id stats' hid).2.trans hnext⟩⟩

theorem admits_recordedAt_iff : Admits (w.recordedAt challengerId stats now ticks) ↔ Admits w ∧
    (recent (3600 * 10 ^ 9) now (w.recorded challengerId)).length < AbuseDetector.maxChallengesPerHour ∧
    (recent (24 * 3600 * 10 ^ 9) now (w.recorded challengerId)).length < AbuseDetector.maxChallengesPerDay := by
  constructor
  · intro h
    have hself := h challengerId
    rw [recorded_self, admitted_append_iff, admitted_append_iff] at hself
    refine ⟨fun id => ?_, hself.1.2, hself.2.2⟩
    by_cases hsame : id = challengerId
    · rw [hsame]
      exact ⟨hself.1.1, hself.2.1⟩
    · have hother := h id
      rwa [recorded_other hsame] at hother
  · rintro ⟨h, hhour, hday⟩ id
    by_cases hsame : id = challengerId
    · subst hsame
      rw [recorded_self]
      exact ⟨admitted_append_iff.mpr ⟨(h id).1, hhour⟩, admitted_append_iff.mpr ⟨(h id).2, hday⟩⟩
    · rw [recorded_other hsame]
      exact h id

/-- A submission keeps the limits just when quotas are left for it. -/
theorem admits_submit_iff (h : Tracked env w) (challengerId : String) :
    Admits (w.submit env challengerId) ↔ Admits w ∧ QuotasLeft env w challengerId := by
  cases hget : w.detector.get? challengerId with
  | none =>
    have hnone := h.new challengerId hget
    have hquotas : QuotasLeft env w challengerId :=
      ⟨fun _ hsome => absurd (hget.symm.trans hsome) nofun, fun _ hsome => absurd (hget.symm.trans hsome) nofun⟩
    rw [submit_new hget, admits_recordedAt_iff, hnone]
    exact and_congr_right fun _ => iff_of_true ⟨Nat.zero_lt_succ _, Nat.zero_lt_succ _⟩ hquotas
  | some stats =>
    obtain ⟨hkept, hpast⟩ := h.known challengerId stats hget
    rw [submit_known hget hkept.few]
    by_cases hfew : (stats.since 3600 (env.timeNs w.session.ticks)).length < AbuseDetector.maxChallengesPerHour
    · have hsince := since_eq hkept.list (secondsBefore_mono 3600 hpast)
      have hhour := length_recent (3600 * 10 ^ 9) (secondsBefore 3600 (env.timeNs w.session.ticks))
        (env.timeNs (w.session.ticks + 1)) (w.recorded challengerId)
      have hday := length_recent (24 * 3600 * 10 ^ 9) (secondsBefore 3600 stats.lastChallengeNs)
        (env.timeNs (w.session.ticks + 1)) (w.recorded challengerId)
      rw [← hsince] at hhour
      rw [← hkept.list] at hday
      rw [if_pos hfew, admits_recordedAt_iff, hhour, hday]
      refine and_congr_right fun _ => ⟨fun hboth => ⟨?_, ?_⟩, fun hquotas => ⟨?_, ?_⟩⟩
      · rintro stats' hsome checked now rfl rfl _
        obtain rfl := Option.some.inj (hget.symm.trans hsome)
        exact hboth.1
      · rintro stats' hsome checked now rfl rfl _
        obtain rfl := Option.some.inj (hget.symm.trans hsome)
        exact hboth.2
      · exact hquotas.hour stats hget _ _ rfl rfl hfew
      · exact hquotas.day stats hget _ _ rfl rfl hfew
    · rw [if_neg hfew]
      refine (and_iff_left ⟨?_, ?_⟩).symm
      · rintro stats' hsome checked now rfl rfl hfew'
        obtain rfl := Option.some.inj (hget.symm.trans hsome)
        exact absurd hfew' hfew
      · rintro stats' hsome checked now rfl rfl hfew'
        obtain rfl := Option.some.inj (hget.symm.trans hsome)
        exact absurd hfew' hfew

theorem admits_run_iff (clock : Monotone env.timeNs) (h : Tracked env w) (challengers : List String) :
    (Tracked env (challengers.foldl (submit env) w)) ∧ (Admits (challengers.foldl (submit env) w) ↔
      Admits w ∧ ∀ e ∈ stepsOf (submit env) w challengers, QuotasLeft env e.1 e.2.1) := by
  induction challengers generalizing w with
  | nil => exact ⟨h, (and_iff_left (List.forall_mem_nil _)).symm⟩
  | cons challengerId rest ih =>
    obtain ⟨htracked, hrest⟩ := ih (h.submit clock challengerId)
    refine ⟨htracked, hrest.trans ?_⟩
    rw [admits_submit_iff h, stepsOf, List.forall_mem_cons, and_assoc]

theorem ratesHold_iff (h : Tracked env w) : RatesHold w ↔ Admits w := by
  have hsorted : ∀ id, (w.recorded id).Pairwise (· ≤ ·) := by
    intro id
    cases hget : w.detector.get? id with
    | none =>
      rw [h.new id hget]
      exact .nil
    | some stats => exact (h.known id stats hget).1.sorted
  constructor
  · intro hrates id
    exact ⟨(withinRate_iff (by norm_num) (hsorted id)).mp (hrates.hourly id), (withinRate_iff (by norm_num) (hsorted id)).mp (hrates.daily id)⟩
  · intro hadmits
    exact ⟨fun id => (withinRate_iff (by norm_num) (hsorted id)).mpr (hadmits id).1,
      fun id => (withinRate_iff (by norm_num) (hsorted id)).mpr (hadmits id).2⟩

theorem tracked_init (session : Session Unit) : Tracked env (init session) := ⟨fun _ _ => rfl, fun _ _ h => nomatch h⟩

end Submissions

open Submissions in
/-- In a run of submissions both limits hold in every interval just when at each of them
quotas were left beyond what the list shows. -/
theorem rate_limits_hold_iff {env : Env} (clock : Monotone env.timeNs) (session : Session Unit) (challengers : List String) :
    RatesHold (challengers.foldl (submit env) (init session)) ↔
      ∀ e ∈ stepsOf (submit env) (init session) challengers, QuotasLeft env e.1 e.2.1 := by
  obtain ⟨htracked, hadmits⟩ := admits_run_iff clock (tracked_init session) challengers
  exact (ratesHold_iff htracked).trans (hadmits.trans (and_iff_right fun _ => ⟨.nil, .nil⟩))

namespace Submissions

/-- A clock that is read every 200 seconds. -/
def steadyClock : Env := ⟨false, fun tick => tick * 200000000000, fun _ => ""⟩

theorem steadyClock_monotone : Monotone steadyClock.timeNs := fun m n h =>
  mul_le_mul_of_nonneg_right (by exact_mod_cast h) (by norm_num)

theorem secondsBefore_exact {seconds now : Int} (hnow : |now| < 2 ^ 53) (hbefore : |now - seconds * 1000000000| < 2 ^ 53) :
    secondsBefore seconds now = (now - seconds * 1000000000 : Int) := by
  rw [secondsBefore, Double.nearest_intCast hnow, ← Double.nearest_intCast hbefore]
  push_cast
  rfl

/-- The times of submissions 400 seconds apart. -/
def steadyTimes (n : Nat) : List Int := (List.range n).map fun i : Nat => (i : Int) * 400000000000

theorem steady_few : ∀ n < 51, ((steadyTimes n).filter fun t =>
    (2 * n - 1 : Int) * 200000000000 - 3600 * 1000000000 < t).length < AbuseDetector.maxChallengesPerHour := by
  decide +kernel

theorem steadyTimes_succ (n : Nat) : steadyTimes (n + 1) = steadyTimes n ++ [(n * 400000000000 : Int)] := by
  rw [steadyTimes, List.range_succ, List.map_append]
  rfl

/-- At this pace all are recorded. -/
theorem steady_run (n : Nat) (h : n < 51) : ∃ w stats, w = (List.replicate (n + 1) "a").foldl (submit steadyClock) (init ⟨(), (), false, 0, 0⟩) ∧
    w.session.ticks = 2 * n + 1 ∧ w.recorded "a" = steadyTimes (n + 1) ∧ w.detector.get? "a" = some stats := by
  induction n with
  | zero => exact ⟨_, _, rfl, rfl, rfl, rfl⟩
  | succ n ih =>
    obtain ⟨w, stats, hw, hticks, hrecorded, hget⟩ := ih (by omega)
    have htracked : Tracked steadyClock w := by
      rw [hw]
      exact (admits_run_iff steadyClock_monotone (tracked_init _) _).1
    obtain ⟨hkept, hpast⟩ := htracked.known "a" stats hget
    have hchecked : steadyClock.timeNs w.session.ticks = (2 * (n + 1 : Nat) - 1 : Int) * 200000000000 := by
      rw [hticks, steadyClock]
      push_cast
      ring
    have hnow : steadyClock.timeNs (w.session.ticks + 1) = (n + 1 : Nat) * 400000000000 := by
      rw [hticks, steadyClock]
      push_cast
      ring
    have hcut : secondsBefore 3600 (steadyClock.timeNs w.session.ticks) =
        ((2 * (n + 1 : Nat) - 1 : Int) * 200000000000 - 3600 * 1000000000 : Int) := by
      rw [hchecked]
      refine secondsBefore_exact ?_ ?_
      · rw [abs_lt]
        omega
      · rw [abs_lt]
        omega
    have hfew : (stats.since 3600 (steadyClock.timeNs w.session.ticks)).length < AbuseDetector.maxChallengesPerHour := by
      rw [since_eq hkept.list (secondsBefore_mono 3600 hpast), hcut, hrecorded]
      have hsame : after ((2 * (n + 1 : Nat) - 1 : Int) * 200000000000 - 3600 * 1000000000 : Int) (steadyTimes (n + 1)) =
          (steadyTimes (n + 1)).filter fun t => (2 * (n + 1 : Nat) - 1 : Int) * 200000000000 - 3600 * 1000000000 < t := by
        refine List.filter_congr fun t _ => ?_
        rw [decide_eq_decide]
        exact Int.cast_lt
      rw [hsame]
      exact steady_few (n + 1) h
    have hsubmit : w.submit steadyClock "a" =
        w.recordedAt "a" stats (steadyClock.timeNs (w.session.ticks + 1)) (w.session.ticks + 2) :=
      (submit_known hget hkept.few).trans (if_pos hfew)
    have hfold : (List.replicate (n + 1 + 1) "a").foldl (submit steadyClock) (init ⟨(), (), false, 0, 0⟩) = w.submit steadyClock "a" := by
      rw [List.replicate_succ', List.foldl_append, ← hw]
      rfl
    refine ⟨w.submit steadyClock "a", stats.record (steadyClock.timeNs (w.session.ticks + 1)), hfold.symm, ?_, ?_, ?_⟩
    · rw [hsubmit, recordedAt, hticks]
      dsimp only
      omega
    · rw [hsubmit, recorded_self, hrecorded, hnow, ← steadyTimes_succ]
    · rw [hsubmit]
      exact (Table.get?_upsert ..).trans (if_pos rfl)

/-- Fifty-one challenges within six hours, of which no hour has more than ten. -/
theorem fifty_one_in_a_day :
    ¬RatesHold ((List.replicate 51 "a").foldl (submit steadyClock) (init ⟨(), (), false, 0, 0⟩)) := by
  obtain ⟨w, _, hw, _, hrecorded, _⟩ := steady_run 50 (by omega)
  rw [← hw]
  intro hrates
  have hday := (hrates.daily "a" (-1)).1
  rw [hrecorded, List.filter_eq_self.mpr] at hday
  · exact absurd hday (by decide)
  · intro t ht
    obtain ⟨i, hi, rfl⟩ := List.mem_map.mp ht
    have hlt : (i : ℝ) < 51 := by exact_mod_cast List.mem_range.mp hi
    have hnonneg : (0 : ℝ) ≤ i := Nat.cast_nonneg i
    refine decide_eq_true ⟨?_, ?_⟩
    · push_cast
      linarith
    · push_cast
      linarith

end Submissions

open Submissions in
theorem rate_limits_hold_iff_two :
    RatesHold (["a", "b", "a"].foldl (submit steadyClock) (init ⟨(), (), false, 0, 0⟩)) ↔
      ∀ e ∈ stepsOf (submit steadyClock) (init ⟨(), (), false, 0, 0⟩) ["a", "b", "a"], QuotasLeft steadyClock e.1 e.2.1 :=
  rate_limits_hold_iff steadyClock_monotone ⟨(), (), false, 0, 0⟩ ["a", "b", "a"]

end AgentNetwork.Challenges
