import AgentNetwork.Consensus.Quorum
import AgentNetwork.Library.Traces
import Mathlib.Data.List.Destutter

namespace AgentNetwork.Consensus

structure BootstrapManager where
  bootstrapThreshold : Int
  bootstrapStableHours : Int
  kTarget : Int

/-- The global `bootstrap_manager`, with every default. -/
def bootstrapManager : BootstrapManager := ⟨10, 24, 5⟩

namespace BootstrapManager

def isBootstrapMode (activeVerifiers : Int) (manager : BootstrapManager) : Bool := activeVerifiers < manager.bootstrapThreshold

def calculateKResult (activeVerifiers : Int) (bootstrapMode : Option Bool) (manager : BootstrapManager) : Int :=
  if bootstrapMode.getD (manager.isBootstrapMode activeVerifiers) then 1
  else
    let progressiveK := max 2 (Double.trunc (Double.scale activeVerifiers (Double.nearest (3 / 10))))
    min manager.kTarget progressiveK

def shouldExitBootstrap (activeVerifiers hoursAboveThreshold : Int) (manager : BootstrapManager) : Bool :=
  activeVerifiers ≥ manager.bootstrapThreshold && hoursAboveThreshold ≥ manager.bootstrapStableHours

end BootstrapManager

namespace QuorumTracker

/-- `get_k_plan_with_bootstrap`; it never reads `alpha` and `k_target`. -/
def getKPlanWithBootstrap (activeVerifiers : Int) (_alpha : Rat) (_kTarget : Int) : Int :=
  let bootstrapMode := bootstrapManager.isBootstrapMode activeVerifiers
  bootstrapManager.calculateKResult activeVerifiers (some bootstrapMode)

/-- Three tenths of the verifiers, as a float rounds them down. -/
def threeTenths (activeVerifiers : Int) : Int := Double.trunc (Double.scale activeVerifiers (Double.nearest (3 / 10)))

theorem threeTenths_mono {m n : Int} (h : m ≤ n) : threeTenths m ≤ threeTenths n :=
  Double.trunc_mono (Double.scale_mono h (Double.nearest_nonneg (by norm_num)))

theorem threeTenths_values : threeTenths 6 = 1 ∧ threeTenths 7 = 2 ∧ threeTenths 9 = 2 ∧ threeTenths 10 = 3 ∧ threeTenths 13 = 3 ∧
    threeTenths 14 = 4 ∧ threeTenths 16 = 4 ∧ threeTenths 17 = 5 := by
  decide +kernel

theorem getKPlan_default (activeVerifiers : Int) :
    getKPlan activeVerifiers (Double.nearest (3 / 10)) 5 = min 5 (max 1 (threeTenths activeVerifiers)) := rfl

theorem getKPlanWithBootstrap_eq (activeVerifiers : Int) (alpha : Rat) (kTarget : Int) :
    getKPlanWithBootstrap activeVerifiers alpha kTarget =
      if activeVerifiers < 10 then 1 else min 5 (max 2 (threeTenths activeVerifiers)) := by
  show (if decide (activeVerifiers < 10) = true then 1 else min 5 (max 2 (threeTenths activeVerifiers))) = _
  simp only [decide_eq_true_eq]

/-- The quorum of a network in bootstrap is one attestation; after it, from three to five
of them, whatever fraction and target are asked for. It is the quorum that plans need by
default unless there are seven to nine verifiers, where that is two. -/
theorem k_plan_with_bootstrap_exact (activeVerifiers : Int) (alpha : Rat) (kTarget : Int) :
    getKPlanWithBootstrap activeVerifiers alpha kTarget =
      (if activeVerifiers < 10 then 1 else if activeVerifiers < 14 then 3 else if activeVerifiers < 17 then 4 else 5) ∧
    (getKPlan activeVerifiers (Double.nearest (3 / 10)) 5 = getKPlanWithBootstrap activeVerifiers alpha kTarget ↔
      activeVerifiers < 7 ∨ 10 ≤ activeVerifiers) := by
  rw [getKPlanWithBootstrap_eq, getKPlan_default]
  obtain ⟨h6, h7, h9, h10, h13, h14, h16, h17⟩ := threeTenths_values
  have hle : ∀ n, activeVerifiers ≤ n → threeTenths activeVerifiers ≤ threeTenths n := fun n h => threeTenths_mono h
  have hge : ∀ n, n ≤ activeVerifiers → threeTenths n ≤ threeTenths activeVerifiers := fun n h => threeTenths_mono h
  have hle6 := hle 6
  have hge7 := hge 7
  have hle9 := hle 9
  have hge10 := hge 10
  have hle13 := hle 13
  have hge14 := hge 14
  have hle16 := hle 16
  have hge17 := hge 17
  constructor
  · split
    · rfl
    · split
      · omega
      · split
        · omega
        · omega
  · split
    · omega
    · omega

end QuorumTracker

/-- What the monitor logs above the debug level. -/
inductive BootstrapNotice
  | entered (activeVerifiers bootstrapThreshold : Int)
  | exited (activeVerifiers kValue : Int)
  | exitCriteriaMet (activeVerifiers hoursAboveThreshold bootstrapStableHours : Int)
  | error (e : String)

/-- The mode that a notice announces. -/
def BootstrapNotice.mode : BootstrapNotice → Option Bool
  | entered .. => some true
  | exited .. => some false
  | _ => none

structure BootstrapMonitor where
  hoursAboveThreshold : Int
  lastBootstrapStatus : Bool

structure BootstrapStatus where
  bootstrapMode : Bool
  activeVerifiers : Int
  kValue : Int
  hoursAboveThreshold : Int
  shouldExit : Bool

namespace BootstrapMonitor

def init : BootstrapMonitor := ⟨0, true⟩

section Checks

variable (manager : BootstrapManager)

/-- `_check_bootstrap_status`, with the count that `get_active_verifiers` gives. -/
def checkBootstrapStatus (activeVerifiers : Int) (monitor : BootstrapMonitor) : List BootstrapNotice × BootstrapMonitor :=
  let isBootstrap := manager.isBootstrapMode activeVerifiers
  let kValue := manager.calculateKResult activeVerifiers (some isBootstrap)
  let hoursAboveThreshold := if activeVerifiers ≥ manager.bootstrapThreshold then monitor.hoursAboveThreshold + 1 else 0
  let changes :=
    if isBootstrap ≠ monitor.lastBootstrapStatus then
      if isBootstrap then [.entered activeVerifiers manager.bootstrapThreshold]
      else [.exited activeVerifiers kValue]
    else []
  let shouldExit := manager.shouldExitBootstrap activeVerifiers hoursAboveThreshold
  let criteria :=
    if shouldExit && isBootstrap then
      [.exitCriteriaMet activeVerifiers hoursAboveThreshold manager.bootstrapStableHours]
    else []
  (changes ++ criteria, ⟨hoursAboveThreshold, isBootstrap⟩)

/-- `_monitor_loop`, over what the callback gives or raises at each turn. -/
def monitorLoop : List (Except String Int) → BootstrapMonitor → List BootstrapNotice × BootstrapMonitor
  | [], monitor => ([], monitor)
  | .error e :: turns, monitor =>
    let (later, monitor) := monitorLoop turns monitor
    (.error e :: later, monitor)
  | .ok activeVerifiers :: turns, monitor =>
    let (notices, monitor) := monitor.checkBootstrapStatus manager activeVerifiers
    let (later, monitor) := monitorLoop turns monitor
    (notices ++ later, monitor)

def getStatus (activeVerifiers : Int) (monitor : BootstrapMonitor) : BootstrapStatus :=
  let isBootstrap := manager.isBootstrapMode activeVerifiers
  let kValue := manager.calculateKResult activeVerifiers (some isBootstrap)
  ⟨isBootstrap, activeVerifiers, kValue, monitor.hoursAboveThreshold,
    manager.shouldExitBootstrap activeVerifiers monitor.hoursAboveThreshold⟩

end Checks

/-- The counts of the turns at which the callback did not raise. -/
def countsOf (turns : List (Except String Int)) : List Int := turns.filterMap Except.toOption

variable {manager : BootstrapManager} {activeVerifiers : Int} {monitor : BootstrapMonitor}

theorem isBootstrapMode_iff : manager.isBootstrapMode activeVerifiers = true ↔ activeVerifiers < manager.bootstrapThreshold :=
  decide_eq_true_iff

/-- A check announces a change of the mode at most: where the criteria for an exit are met
the network is not in bootstrap any more. -/
theorem check_notices : (monitor.checkBootstrapStatus manager activeVerifiers).1 =
    if manager.isBootstrapMode activeVerifiers = monitor.lastBootstrapStatus then []
    else if manager.isBootstrapMode activeVerifiers then [.entered activeVerifiers manager.bootstrapThreshold]
    else [.exited activeVerifiers (manager.calculateKResult activeVerifiers (some false))] := by
  have hnever : ∀ hours, (manager.shouldExitBootstrap activeVerifiers hours && manager.isBootstrapMode activeVerifiers) = false := by
    intro hours
    by_cases h : activeVerifiers < manager.bootstrapThreshold
    · have hbelow : ¬activeVerifiers ≥ manager.bootstrapThreshold := by omega
      rw [BootstrapManager.shouldExitBootstrap, decide_eq_false hbelow, Bool.false_and, Bool.false_and]
    · rw [BootstrapManager.isBootstrapMode, decide_eq_false h, Bool.and_false]
  unfold checkBootstrapStatus
  dsimp only
  rw [hnever, if_neg Bool.false_ne_true, List.append_nil, ite_not]
  cases manager.isBootstrapMode activeVerifiers <;> rfl

theorem check_modes : (monitor.checkBootstrapStatus manager activeVerifiers).1.filterMap BootstrapNotice.mode =
    if manager.isBootstrapMode activeVerifiers = monitor.lastBootstrapStatus then []
    else [manager.isBootstrapMode activeVerifiers] := by
  rw [check_notices]
  split
  next => rfl
  next => cases manager.isBootstrapMode activeVerifiers <;> rfl

/-- The modes announced are those of the counts, with what repeats left out. -/
theorem monitorLoop_modes (turns : List (Except String Int)) (monitor : BootstrapMonitor) :
    monitor.lastBootstrapStatus :: (monitorLoop manager turns monitor).1.filterMap BootstrapNotice.mode =
      ((countsOf turns).map (manager.isBootstrapMode ·)).destutter' (· ≠ ·) monitor.lastBootstrapStatus := by
  induction turns generalizing monitor with
  | nil => rfl
  | cons turn turns ih =>
    cases turn with
    | error e => exact ih monitor
    | ok activeVerifiers =>
      have hlater := ih (monitor.checkBootstrapStatus manager activeVerifiers).2
      show monitor.lastBootstrapStatus :: ((monitor.checkBootstrapStatus manager activeVerifiers).1 ++
        (monitorLoop manager turns (monitor.checkBootstrapStatus manager activeVerifiers).2).1).filterMap BootstrapNotice.mode =
        (manager.isBootstrapMode activeVerifiers :: (countsOf turns).map (manager.isBootstrapMode ·)).destutter' (· ≠ ·)
          monitor.lastBootstrapStatus
      rw [List.filterMap_append, check_modes]
      by_cases h : manager.isBootstrapMode activeVerifiers = monitor.lastBootstrapStatus
      · rw [if_pos h, List.nil_append, List.destutter'_cons_neg _ fun hne => hne h.symm, ← h]
        exact hlater
      · rw [if_neg h, List.singleton_append, List.destutter'_cons_pos _ fun he => h he.symm]
        exact congrArg _ hlater

/-- What a notice of a run says of the counts. -/
def Announced (manager : BootstrapManager) (turns : List (Except String Int)) : BootstrapNotice → Prop
  | .entered activeVerifiers threshold =>
    .ok activeVerifiers ∈ turns ∧ activeVerifiers < threshold ∧ threshold = manager.bootstrapThreshold
  | .exited activeVerifiers kValue => .ok activeVerifiers ∈ turns ∧ manager.bootstrapThreshold ≤ activeVerifiers ∧
    kValue = min manager.kTarget (max 2 (QuorumTracker.threeTenths activeVerifiers))
  | .exitCriteriaMet .. => False
  | .error e => .error e ∈ turns

theorem Announced.mono {turns turns' : List (Except String Int)} {notice : BootstrapNotice} (h : Announced manager turns notice)
    (hturns : turns ⊆ turns') : Announced manager turns' notice := by
  cases notice with
  | entered | exited => exact ⟨hturns h.1, h.2⟩
  | exitCriteriaMet => exact h
  | error e => exact hturns h

theorem check_announced {notice : BootstrapNotice} (h : notice ∈ (monitor.checkBootstrapStatus manager activeVerifiers).1) :
    Announced manager [.ok activeVerifiers] notice := by
  rw [check_notices] at h
  split at h
  next => cases h
  next =>
    split at h
    next hmode =>
      cases List.mem_singleton.mp h
      exact ⟨List.mem_cons_self, isBootstrapMode_iff.mp hmode, rfl⟩
    next hmode =>
      cases List.mem_singleton.mp h
      exact ⟨List.mem_cons_self, not_lt.mp fun hlt => hmode (isBootstrapMode_iff.mpr hlt), rfl⟩

theorem monitorLoop_announced (turns : List (Except String Int)) (monitor : BootstrapMonitor) :
    ∀ notice ∈ (monitorLoop manager turns monitor).1, Announced manager turns notice := by
  induction turns generalizing monitor with
  | nil => exact nofun
  | cons turn turns ih =>
    intro notice h
    cases turn with
    | error e =>
      rcases List.mem_cons.mp h with rfl | hlater
      · exact List.mem_cons_self
      · exact (ih monitor notice hlater).mono (List.subset_cons_self _ _)
    | ok activeVerifiers =>
      rcases List.mem_append.mp h with hnow | hlater
      · exact (check_announced hnow).mono (List.cons_subset_cons _ (List.nil_subset _))
      · exact (ih _ notice hlater).mono (List.subset_cons_self _ _)

theorem monitorLoop_hours (turns : List (Except String Int)) (monitor : BootstrapMonitor) :
    (monitorLoop manager turns monitor).2.hoursAboveThreshold = (countsOf turns).foldl
      (fun hours activeVerifiers => if activeVerifiers ≥ manager.bootstrapThreshold then hours + 1 else 0) monitor.hoursAboveThreshold := by
  induction turns generalizing monitor with
  | nil => rfl
  | cons turn turns ih =>
    cases turn with
    | error e => exact ih monitor
    | ok activeVerifiers => exact ih (monitor.checkBootstrapStatus manager activeVerifiers).2

theorem foldl_hours (threshold : Int) (counts : List Int) :
    counts.foldl (fun hours activeVerifiers => if activeVerifiers ≥ threshold then hours + 1 else 0) (0 : Int) =
      Transition.streak (fun activeVerifiers => decide (activeVerifiers ≥ threshold)) counts := by
  induction counts using List.reverseRecOn with
  | nil => rfl
  | append_singleton counts activeVerifiers ih =>
    rw [List.foldl_append, List.foldl_cons, List.foldl_nil, ih, Transition.streak_concat]
    by_cases h : activeVerifiers ≥ threshold
    · rw [if_pos h, if_pos (decide_eq_true h), Int.natCast_add, Int.natCast_one]
    · rw [if_neg h, if_neg fun hd => h (of_decide_eq_true hd), Int.natCast_zero]

/-- The status says to leave bootstrap just when the network is at the threshold or above
now, and was at each of the last checks that answered, for as many as the hours asked for. -/
theorem status_should_exit_iff (manager : BootstrapManager) (turns : List (Except String Int)) (activeVerifiers : Int) :
    (getStatus manager activeVerifiers (monitorLoop manager turns .init).2).shouldExit = true ↔
      manager.bootstrapThreshold ≤ activeVerifiers ∧ ∃ before recent, countsOf turns = before ++ recent ∧
        manager.bootstrapStableHours ≤ recent.length ∧ ∀ n ∈ recent, manager.bootstrapThreshold ≤ n := by
  have hhours : (monitorLoop manager turns .init).2.hoursAboveThreshold =
      Transition.streak (fun n => decide (n ≥ manager.bootstrapThreshold)) (countsOf turns) := by
    rw [monitorLoop_hours]
    exact foldl_hours ..
  have hlong := @Transition.le_streak_iff _ (fun n => decide (n ≥ manager.bootstrapThreshold)) (countsOf turns)
    manager.bootstrapStableHours.toNat
  simp only [Int.toNat_le, decide_eq_true_eq, ge_iff_le] at hlong
  rw [getStatus, BootstrapManager.shouldExitBootstrap, Bool.and_eq_true, decide_eq_true_eq, decide_eq_true_eq, hhours]
  exact and_congr_right fun _ => hlong

end BootstrapMonitor

end AgentNetwork.Consensus
