import AgentNetwork.Library.Double
import AgentNetwork.Library.StableSort
import AgentNetwork.Library.Table

namespace AgentNetwork.Routing

open Relational StableSort

structure ArmStats where
  successes : Nat
  failures : Nat
  contextsSeen : List (List ℚ)
  totalReward : ℚ
  pulls : Nat
  deriving DecidableEq

def ArmStats.new : ArmStats := ⟨0, 0, [], 0, 0⟩

/-- The reward from which on a pull is a success. -/
def successThreshold : ℚ := Double.nearest (7 / 10)

def ArmStats.updated (reward : ℚ) (context : List ℚ) (stats : ArmStats) : ArmStats where
  successes := if successThreshold ≤ reward then stats.successes + 1 else stats.successes
  failures := if successThreshold ≤ reward then stats.failures else stats.failures + 1
  contextsSeen :=
    let seen := stats.contextsSeen ++ [context]
    seen.drop (seen.length - 100)
  totalReward := Double.nearest (stats.totalReward + reward)
  pulls := stats.pulls + 1

structure ContextualBandit where
  arms : Table String ArmStats
  totalPulls : Nat
  deriving DecidableEq

/-- What the Beta distributions of the arms may give in one selection. -/
structure Samples where
  sample : String → ℚ
  inside : ∀ arm, 0 ≤ sample arm ∧ sample arm ≤ 1

/-- Samples for which one arm comes out on top. -/
def Samples.favoring (armId : String) : Samples where
  sample arm := if arm = armId then 3 / 4 else 1 / 4
  inside arm := by
    split
    · norm_num
    · norm_num

namespace ContextualBandit

def addArm (armId : String) (b : ContextualBandit) : ContextualBandit :=
  if b.arms.contains armId then b else { b with arms := b.arms.upsert armId .new }

def addArms (armIds : List String) (b : ContextualBandit) : ContextualBandit := armIds.foldl (fun b armId => b.addArm armId) b

/-- The first arm with the highest sample. -/
def thompsonSampling (samples : Samples) (b : ContextualBandit) : Option String :=
  firstGreatest samples.sample b.arms.keys

def update (agentId : String) (reward : ℚ) (context : List ℚ) (b : ContextualBandit) : ContextualBandit :=
  let b := b.addArm agentId
  ⟨b.arms.modify agentId (ArmStats.updated reward context), b.totalPulls + 1⟩

section Arms

variable {b : ContextualBandit} {armId j : String}

theorem mem_addArm : j ∈ (b.addArm armId).arms.keys ↔ j = armId ∨ j ∈ b.arms.keys := by
  unfold addArm
  split
  next h =>
    have hmem : armId ∈ b.arms.keys := by
      by_contra hnot
      rw [Table.contains, Table.get?_eq_none_iff.mpr hnot] at h
      cases h
    constructor
    · exact Or.inr
    · rintro (rfl | hj)
      · exact hmem
      · exact hj
  next => exact Table.mem_keys_upsert

theorem mem_addArms {armIds : List String} : j ∈ (b.addArms armIds).arms.keys ↔ j ∈ armIds ∨ j ∈ b.arms.keys := by
  induction armIds generalizing b with
  | nil => simp [addArms]
  | cons armId rest ih =>
    have hstep : j ∈ (b.addArms (armId :: rest)).arms.keys ↔ j ∈ rest ∨ j ∈ (b.addArm armId).arms.keys := ih
    rw [hstep, mem_addArm, List.mem_cons]
    tauto

theorem mem_update {reward : ℚ} {context : List ℚ} :
    j ∈ (b.update armId reward context).arms.keys ↔ j = armId ∨ j ∈ b.arms.keys := by
  rw [← mem_addArm]
  have hkeys (t : Table String ArmStats) : j ∈ t.keys ↔ t.get? j ≠ none := (not_iff_comm.mp Table.get?_eq_none_iff.symm).symm
  rw [hkeys, hkeys, update, Table.get?_modify]
  split
  next hj => simp [hj]
  next => exact Iff.rfl

theorem mem_of_thompsonSampling {samples : Samples} (h : b.thompsonSampling samples = some j) : j ∈ b.arms.keys :=
  List.argmax_mem h

/-- Any arm may be the selection. -/
theorem thompsonSampling_favoring (h : j ∈ b.arms.keys) : b.thompsonSampling (.favoring j) = some j := by
  cases hbest : b.thompsonSampling (.favoring j) with
  | none =>
    rw [List.argmax_eq_none.mp hbest] at h
    cases h
  | some best =>
    have hle := List.le_of_mem_argmax h hbest
    by_cases hsame : best = j
    · rw [hsame]
    · simp only [Samples.favoring, if_true, if_neg hsame] at hle
      exact absurd hle (by norm_num)

end Arms

end ContextualBandit

end AgentNetwork.Routing
