import AgentNetwork.Library.Program
import AgentNetwork.Library.PythonValues
import AgentNetwork.Library.StableSort
import AgentNetwork.Library.Table
import AgentNetwork.Policy.Envelope
import Mathlib.Data.Prod.Lex
import Mathlib.Data.String.Basic

/-! The score of an agent over exact numbers, the bonus for rare zones and the shortlist. -/

namespace AgentNetwork.Routing.Scoring

open Relational Python StableSort
open AgentNetwork.Policy (Dict getOr)

/-- What is read of a manifest; `reputation` is `none` where it has no such attribute. -/
structure AgentManifest where
  agentId : String
  capabilities : List String
  tags : List String
  pricePerTask : ℚ
  avgLatencyMs : ℚ
  successRate : ℚ
  reputation : Option ℚ
  zone : Option String
  deriving DecidableEq

structure ScoredAgent where
  manifest : AgentManifest
  totalScore : ℚ
  scoreBreakdown : Table String ℚ
  deriving DecidableEq

/-- The scorer, with what its two helpers answer while a call lasts. -/
structure AgentScorer where
  weights : Table String ℚ
  computeFit : (taskTags taskCapabilities : Json) → (agentTags agentCapabilities : List String) → (agentId : String) → Except Exn ℚ
  getRecencyScore : (agentId : String) → Except Exn ℚ

/-- A value that is compared with zero: an exact number, or it raises. -/
def comparable (value : Json) : Except Exn ℚ :=
  match Number.ofJson? value with
  | some (.finite q) => .ok q
  | _ => .error (Comparison.greater.notSupported value (.int 0))

def limitAt (d : Dict) (key : String) (default : ℚ) : Except Exn ℚ :=
  match d.lookup key with
  | none => .ok default
  | some value => comparable value

/-- The more of the limit is used the less it is worth. -/
def inverseShare (value limit : ℚ) : ℚ := if 0 < limit then 1 - min (value / limit) 1 else 1 / 2

/-- A stake that is divided; where none is given it is zero. -/
def dividend : Option Json → Except Exn ℚ
  | none => .ok 0
  | some value =>
    match Number.ofJson? value with
    | some (.finite q) => .ok q
    | _ => .error (.typeError s!"unsupported operand type(s) for /: '{typeName value}' and 'float'")

def stakeScore (context : Dict) (agentId : String) : Except Exn ℚ := do
  let stakes ← asDict "get" (getOr context "agent_stakes" (.obj []))
  let maxStake ← limitAt context "max_stake" 1000
  if 0 < maxStake then
    let agentStake ← dividend (stakes.lookup agentId)
    .ok (min (agentStake / maxStake) 1)
  else .ok (1 / 2)

namespace AgentScorer

variable (scorer : AgentScorer)

def weigh (scores : Table String ℚ) : ℚ := (scores.entries.map fun e => (scorer.weights.get? e.1).getD 0 * e.2).sum

def scoreAgent (agentManifest : AgentManifest) (need : Dict) (context : Option Dict) : Except Exn ScoredAgent := do
  let context := context.getD []
  let reputation := agentManifest.reputation.getD agentManifest.successRate
  let maxPrice ← limitAt need "max_price" 100
  let maxLatency ← limitAt need "max_latency_ms" 5000
  let domainFit ← scorer.computeFit (getOr need "tags" (.arr [])) (getOr need "capabilities" (.arr []))
    agentManifest.tags agentManifest.capabilities agentManifest.agentId
  let stake ← stakeScore context agentManifest.agentId
  let recency ← scorer.getRecencyScore agentManifest.agentId
  let scores := ((((((Table.empty.upsert "reputation" reputation).upsert "price" (inverseShare agentManifest.pricePerTask maxPrice)).upsert
    "latency" (inverseShare agentManifest.avgLatencyMs maxLatency)).upsert "domain_fit" domainFit).upsert "stake" stake).upsert
    "recency" recency)
  .ok ⟨agentManifest, scorer.weigh scores, scores⟩

def scoreAgents (manifests : List AgentManifest) (need : Dict) (context : Option Dict) : Except Exn (List ScoredAgent) :=
  manifests.mapM fun manifest => scorer.scoreAgent manifest need context

end AgentScorer

/-- `scored.manifest.zone or "unknown"`. -/
def zoneOf (scored : ScoredAgent) : String := (scored.manifest.zone.filter (· ≠ "")).getD "unknown"

/-- The score of one agent with its bonus; the zone of every agent has been counted. -/
def withBonus (diversityBonus : ℚ) (zoneCounts : Table String Nat) (scored : ScoredAgent) : ScoredAgent :=
  let zoneCount := (zoneCounts.get? (zoneOf scored)).getD 0
  let diversityMultiplier := 1 + diversityBonus / zoneCount
  { manifest := scored.manifest
    totalScore := scored.totalScore * diversityMultiplier
    scoreBreakdown := scored.scoreBreakdown.upsert "diversity_bonus" (diversityMultiplier - 1) }

def adjustForDiversity (scoredAgents : List ScoredAgent) (diversityBonus : ℚ) : List ScoredAgent :=
  if scoredAgents = [] ∨ diversityBonus = 0 then scoredAgents
  else scoredAgents.map (withBonus diversityBonus (Table.tally (scoredAgents.map zoneOf)))

/-- Highest score first, ties by the id. -/
def rank (scored : ScoredAgent) : ℚ ×ₗ String := toLex (-scored.totalScore, scored.manifest.agentId)

/-- `sorted_agents[:k]`. -/
def sliceTo (k : Int) (l : List ScoredAgent) : List ScoredAgent := l.take (if k < 0 then l.length + k else k).toNat

def selectTopK (scoredAgents : List ScoredAgent) (k : Int) : List ScoredAgent :=
  if scoredAgents = [] then [] else sliceTo k (sortOn rank scoredAgents)

namespace AgentScorer

variable (scorer : AgentScorer) (need : Dict) (context : Option Dict) (diversityBonus : ℚ)

/-- What `score_and_select` selects from. -/
def adjustedAgents (manifests : List AgentManifest) : Except Exn (List ScoredAgent) := do
  let scored ← scorer.scoreAgents manifests need context
  .ok (if 0 < diversityBonus then adjustForDiversity scored diversityBonus else scored)

def scoreAndSelect (manifests : List AgentManifest) (k : Int) : Except Exn (List ScoredAgent) := do
  let scored ← scorer.adjustedAgents need context diversityBonus manifests
  .ok (selectTopK scored k)

end AgentScorer

/-- Before another in the shortlist: a higher score, or the same and the smaller id. -/
def Precedes (a b : ScoredAgent) : Prop :=
  b.totalScore < a.totalScore ∨ (a.totalScore = b.totalScore ∧ a.manifest.agentId < b.manifest.agentId)

theorem precedes_iff {a b : ScoredAgent} : Precedes a b ↔ rank a < rank b := by
  rw [rank, rank, Prod.Lex.toLex_lt_toLex, neg_lt_neg_iff, neg_inj]
  rfl

theorem agentIds_adjustForDiversity (scored : List ScoredAgent) (diversityBonus : ℚ) :
    (adjustForDiversity scored diversityBonus).map (·.manifest) = scored.map (·.manifest) := by
  unfold adjustForDiversity
  split
  · rfl
  · rw [List.map_map]
    rfl

/-- The zones are counted the same in any order. -/
theorem adjustForDiversity_perm {scored scored' : List ScoredAgent} (h : scored.Perm scored') (diversityBonus : ℚ) :
    (adjustForDiversity scored diversityBonus).Perm (adjustForDiversity scored' diversityBonus) := by
  have hempty : scored = [] ↔ scored' = [] := by
    rw [← List.length_eq_zero_iff, ← List.length_eq_zero_iff, h.length_eq]
  have hbonus : withBonus diversityBonus (Table.tally (scored.map zoneOf)) =
      withBonus diversityBonus (Table.tally (scored'.map zoneOf)) := by
    funext a
    rw [withBonus, withBonus, Table.get?_tally_perm (h.map zoneOf)]
  simp only [adjustForDiversity, hempty]
  split
  · exact h
  · rw [hbonus]
    exact h.map _

section Selection

variable {scored scored' : List ScoredAgent} {k : Int} {a b : ScoredAgent}

/-- Agents with distinct ids are selected in any order the same. -/
theorem selectTopK_perm (h : scored.Perm scored') (hids : (scored.map (·.manifest.agentId)).Nodup) (k : Int) :
    selectTopK scored k = selectTopK scored' k := by
  have hempty : scored = [] ↔ scored' = [] := by
    rw [← List.length_eq_zero_iff, ← List.length_eq_zero_iff, h.length_eq]
  have hkeys : (scored.map rank).Nodup := by
    refine List.Nodup.of_map (fun key : ℚ ×ₗ String => (ofLex key).2) ?_
    rw [List.map_map]
    exact hids
  rw [selectTopK, selectTopK, sortOn_eq_of_perm rank h hkeys]
  simp only [hempty]

theorem selectTopK_eq (scored : List ScoredAgent) (k : Int) : selectTopK scored k = sliceTo k (sortOn rank scored) := by
  unfold selectTopK
  split
  next hnone =>
    rw [hnone, sliceTo]
    exact List.take_nil.symm
  next => rfl

theorem not_precedes_of_selectTopK (ha : a ∈ selectTopK scored k) (hb : b ∈ scored) (hout : b ∉ selectTopK scored k) :
    ¬Precedes b a := by
  rw [selectTopK_eq, sliceTo] at ha hout
  generalize (if k < 0 then ((sortOn rank scored).length : Int) + k else k).toNat = n at ha hout
  have hsorted := pairwise_sortOn rank scored
  rw [← List.take_append_drop n (sortOn rank scored)] at hsorted
  have hrest : b ∈ (sortOn rank scored).drop n := by
    have hmem : b ∈ (sortOn rank scored).take n ++ (sortOn rank scored).drop n := by
      rw [List.take_append_drop]
      exact (mem_sortOn rank).mpr hb
    exact (List.mem_append.mp hmem).resolve_left hout
  rw [precedes_iff, not_lt]
  exact (List.pairwise_append.mp hsorted).2.2 a ha b hrest

theorem selectTopK_subset (h : a ∈ selectTopK scored k) : a ∈ scored := by
  rw [selectTopK_eq] at h
  exact (mem_sortOn rank).mp (List.mem_of_mem_take h)

end Selection

namespace AgentScorer

variable {scorer : AgentScorer} {need : Dict} {context : Option Dict} {diversityBonus : ℚ}
  {manifests manifests' : List AgentManifest} {scored adjusted : List ScoredAgent}

theorem manifest_of_scoreAgent {manifest : AgentManifest} {a : ScoredAgent} (h : scorer.scoreAgent manifest need context = .ok a) :
    a.manifest = manifest := by
  unfold scoreAgent at h
  obtain ⟨_, _, h⟩ := Transactional.except_bind_ok.mp h
  obtain ⟨_, _, h⟩ := Transactional.except_bind_ok.mp h
  obtain ⟨_, _, h⟩ := Transactional.except_bind_ok.mp h
  obtain ⟨_, _, h⟩ := Transactional.except_bind_ok.mp h
  obtain ⟨_, _, h⟩ := Transactional.except_bind_ok.mp h
  cases h
  rfl

theorem manifests_of_scoreAgents (h : scorer.scoreAgents manifests need context = .ok scored) :
    scored.map (·.manifest) = manifests := by
  unfold scoreAgents at h
  induction manifests generalizing scored with
  | nil =>
    cases h
    rfl
  | cons manifest rest ih =>
    rw [List.mapM_cons] at h
    obtain ⟨a, ha, h⟩ := Transactional.except_bind_ok.mp h
    obtain ⟨others, hothers, h⟩ := Transactional.except_bind_ok.mp h
    cases h
    rw [List.map_cons, manifest_of_scoreAgent ha, ih hothers]

theorem manifests_of_adjustedAgents (h : scorer.adjustedAgents need context diversityBonus manifests = .ok adjusted) :
    adjusted.map (·.manifest) = manifests := by
  obtain ⟨scored, hscored, h⟩ := Transactional.except_bind_ok.mp h
  cases h
  split
  · rw [agentIds_adjustForDiversity, manifests_of_scoreAgents hscored]
  · exact manifests_of_scoreAgents hscored

theorem adjustedAgents_perm (perm : manifests.Perm manifests')
    (h : scorer.adjustedAgents need context diversityBonus manifests = .ok adjusted) :
    ∃ adjusted', scorer.adjustedAgents need context diversityBonus manifests' = .ok adjusted' ∧ adjusted.Perm adjusted' := by
  obtain ⟨scored, hscored, h⟩ := Transactional.except_bind_ok.mp h
  cases h
  obtain ⟨scored', hscored', hperm⟩ := Transactional.mapM_perm perm hscored
  refine ⟨_, Transactional.except_bind_ok.mpr ⟨scored', hscored', rfl⟩, ?_⟩
  split
  · exact adjustForDiversity_perm hperm diversityBonus
  · exact hperm

theorem scoreAndSelect_perm {k : Int} {selected : List ScoredAgent} (ids : (manifests.map (·.agentId)).Nodup)
    (perm : manifests.Perm manifests') (h : scorer.scoreAndSelect need context diversityBonus manifests k = .ok selected) :
    scorer.scoreAndSelect need context diversityBonus manifests' k = .ok selected := by
  obtain ⟨adjusted, hadjusted, h⟩ := Transactional.except_bind_ok.mp h
  cases h
  obtain ⟨adjusted', hadjusted', hperm⟩ := adjustedAgents_perm perm hadjusted
  have hids : (adjusted.map (·.manifest.agentId)).Nodup := by
    rw [← manifests_of_adjustedAgents hadjusted, List.map_map] at ids
    exact ids
  refine Transactional.except_bind_ok.mpr ⟨adjusted', hadjusted', ?_⟩
  rw [selectTopK_perm hperm hids]

/-- The shortlist of agents with distinct ids is the same for every order of the manifests;
it is of the adjusted agents, and none that is left out precedes one that is not. -/
theorem shortlist_order_free (scorer : AgentScorer) (need : Dict) (context : Option Dict) (diversityBonus : ℚ) (k : Int)
    (ids : (manifests.map (·.agentId)).Nodup) :
    (∀ manifests', manifests.Perm manifests' → ∀ selected,
      scorer.scoreAndSelect need context diversityBonus manifests k = .ok selected ↔
        scorer.scoreAndSelect need context diversityBonus manifests' k = .ok selected) ∧
    ∀ selected, scorer.scoreAndSelect need context diversityBonus manifests k = .ok selected →
      ∃ adjusted, scorer.adjustedAgents need context diversityBonus manifests = .ok adjusted ∧ selected ⊆ adjusted ∧
        ∀ a ∈ selected, ∀ b ∈ adjusted, b ∉ selected → ¬Precedes b a := by
  constructor
  · intro manifests' perm selected
    have ids' : (manifests'.map (·.agentId)).Nodup := (perm.map _).nodup_iff.mp ids
    exact ⟨scoreAndSelect_perm ids perm, scoreAndSelect_perm ids' perm.symm⟩
  · intro selected h
    obtain ⟨adjusted, hadjusted, h⟩ := Transactional.except_bind_ok.mp h
    cases h
    exact ⟨adjusted, hadjusted, fun _ => selectTopK_subset, fun _ ha _ hb hout => not_precedes_of_selectTopK ha hb hout⟩

def sampleScorer : AgentScorer where
  weights := Table.empty.upsert "reputation" 1
  computeFit := fun _ _ _ _ _ => .ok 1
  getRecencyScore := fun _ => .ok 1

def sampleAgent (agentId : String) : AgentManifest := ⟨agentId, [], [], 1, 1, 1, none, some "eu"⟩

theorem shortlist_order_free_tied :
    (∀ manifests', [sampleAgent "b", sampleAgent "a"].Perm manifests' → ∀ selected,
      sampleScorer.scoreAndSelect [] none (1 / 10) [sampleAgent "b", sampleAgent "a"] 1 = .ok selected ↔
        sampleScorer.scoreAndSelect [] none (1 / 10) manifests' 1 = .ok selected) ∧
    ∀ selected, sampleScorer.scoreAndSelect [] none (1 / 10) [sampleAgent "b", sampleAgent "a"] 1 = .ok selected →
      ∃ adjusted, sampleScorer.adjustedAgents [] none (1 / 10) [sampleAgent "b", sampleAgent "a"] = .ok adjusted ∧ selected ⊆ adjusted ∧
        ∀ a ∈ selected, ∀ b ∈ adjusted, b ∉ selected → ¬Precedes b a :=
  shortlist_order_free sampleScorer [] none (1 / 10) 1 (by decide)

end AgentScorer

end AgentNetwork.Routing.Scoring
