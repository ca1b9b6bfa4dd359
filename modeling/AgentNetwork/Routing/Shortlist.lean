import AgentNetwork.Routing.Filters
import AgentNetwork.Library.StableSort
import Mathlib.Data.Prod.Lex
import Mathlib.Data.String.Basic

/-! The scored shortlist and the canary tests of its first agents. -/

namespace AgentNetwork.Routing

open Relational Python StableSort

structure ScoredAgent where
  manifest : AgentManifest
  totalScore : ℚ
  deriving DecidableEq

namespace AgentScorer

/-- `score_agents`; what the formula gives for an agent, or raises, is an input. -/
def scoreAgents (score : AgentManifest → Except Exn ℚ) (manifests : List AgentManifest) : Except Exn (List ScoredAgent) :=
  manifests.mapM fun manifest => (score manifest).map fun total => ⟨manifest, total⟩

def zoneName (manifest : AgentManifest) : String := (manifest.zone.filter (· ≠ "")).getD "unknown"

def diversityBonus : ℚ := Double.nearest (1 / 10)

def adjustForDiversity (scoredAgents : List ScoredAgent) : List ScoredAgent :=
  scoredAgents.map fun scored =>
    let zoneCount := scoredAgents.countP fun other => zoneName other.manifest = zoneName scored.manifest
    let multiplier := Double.nearest (1 + Double.nearest (diversityBonus / zoneCount))
    { scored with totalScore := Double.nearest (scored.totalScore * multiplier) }

/-- Highest score first, ties by the id. -/
def selectTopK (scoredAgents : List ScoredAgent) (k : Nat) : List ScoredAgent :=
  (sortOn (fun scored : ScoredAgent => toLex (-scored.totalScore, scored.manifest.agentId)) scoredAgents).take k

def scoreAndSelect (score : AgentManifest → Except Exn ℚ) (manifests : List AgentManifest) (k : Nat) :
    Except Exn (List ScoredAgent) := do
  let scored ← scoreAgents score manifests
  .ok (selectTopK (adjustForDiversity scored) k)

variable {score : AgentManifest → Except Exn ℚ} {manifests : List AgentManifest} {scored : List ScoredAgent} {k : Nat}

theorem map_scoreAgents (h : scoreAgents score manifests = .ok scored) : scored.map ScoredAgent.manifest = manifests := by
  induction manifests generalizing scored with
  | nil =>
    cases h
    rfl
  | cons m rest ih =>
    unfold scoreAgents at h
    rw [List.mapM_cons] at h
    obtain ⟨first, hfirst, htail⟩ := Transactional.except_bind_ok.mp h
    obtain ⟨others, hothers, hlist⟩ := Transactional.except_bind_ok.mp htail
    cases hlist
    cases hm : score m with
    | error e =>
      rw [hm] at hfirst
      cases hfirst
    | ok total =>
      rw [hm] at hfirst
      cases hfirst
      rw [List.map_cons, ih hothers]

theorem map_adjustForDiversity : (adjustForDiversity scored).map ScoredAgent.manifest = scored.map ScoredAgent.manifest := by
  rw [adjustForDiversity, List.map_map]
  rfl

/-- The shortlist is of the agents given. -/
theorem mem_of_scoreAndSelect (h : scoreAndSelect score manifests k = .ok scored) {a : ScoredAgent} (ha : a ∈ scored) :
    a.manifest ∈ manifests := by
  obtain ⟨all, hall, hselect⟩ := Transactional.except_bind_ok.mp h
  cases hselect
  have hmem := (mem_sortOn _).mp (List.mem_of_mem_take ha)
  rw [← map_scoreAgents hall, ← map_adjustForDiversity]
  exact List.mem_map_of_mem hmem

theorem scoreAndSelect_ne_nil (h : scoreAndSelect score manifests k = .ok scored) (hm : manifests ≠ []) (hk : 0 < k) :
    scored ≠ [] := by
  obtain ⟨all, hall, hselect⟩ := Transactional.except_bind_ok.mp h
  cases hselect
  have hlength := congrArg List.length (map_scoreAgents hall)
  have hpos := List.length_pos_of_ne_nil hm
  rw [List.length_map] at hlength
  apply List.ne_nil_of_length_pos
  rw [selectTopK, List.length_take, sortOn, List.length_insertionSort, adjustForDiversity, List.length_map]
  omega

end AgentScorer

structure CanaryResult where
  agentId : String
  latencyMs : ℚ
  qualityScore : ℚ
  passed : Bool
  deriving DecidableEq

/-- How a canary test of one agent goes. -/
inductive Trial
  | answered (latencyMs qualityScore : ℚ)
  | failed (latencyMs : ℚ)

def runCanary (minQuality : ℚ) (agentId : String) : Trial → CanaryResult
  | .answered latencyMs qualityScore => ⟨agentId, latencyMs, qualityScore, minQuality ≤ qualityScore⟩
  | .failed latencyMs => ⟨agentId, latencyMs, 0, false⟩

def runCanaries (minQuality : ℚ) (trials : String → Trial) (agentIds : List String) : List CanaryResult :=
  agentIds.map fun agentId => runCanary minQuality agentId (trials agentId)

/-- The best quality that passes, ties by the latency. -/
def selectWinner (minQualityThreshold : ℚ) (results : List CanaryResult) : Option String :=
  let qualified := results.filter fun r => r.passed && minQualityThreshold ≤ r.qualityScore
  ((sortOn (fun r : CanaryResult => toLex (-r.qualityScore, r.latencyMs)) qualified).head?).map CanaryResult.agentId

theorem mem_of_selectWinner {minQuality threshold : ℚ} {trials : String → Trial} {agentIds : List String} {winner : String}
    (h : selectWinner threshold (runCanaries minQuality trials agentIds) = some winner) : winner ∈ agentIds := by
  obtain ⟨r, hr, rfl⟩ := Option.map_eq_some_iff.mp h
  have hsorted := (mem_sortOn _).mp (List.mem_of_mem_head? hr)
  obtain ⟨agentId, hmem, rfl⟩ := List.mem_map.mp (List.mem_of_mem_filter hsorted)
  cases htrial : trials agentId with
  | answered latencyMs qualityScore => exact hmem
  | failed latencyMs => exact hmem

end AgentNetwork.Routing
