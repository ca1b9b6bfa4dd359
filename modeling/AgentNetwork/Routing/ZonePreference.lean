import AgentNetwork.Routing.Filters

/-! The preference for a zone among the filters that eliminate. -/

namespace AgentNetwork.Routing

open Python
open AgentNetwork.Policy (Dict getOr getKey)

namespace CapabilityFilter

variable {filter : CapabilityFilter} {need : Dict} {manifests kept : List AgentManifest} {m : AgentManifest}

theorem pointwise_filterByIo : Pointwise (filter.filterByIo need) := by
  unfold filterByIo
  dsimp only
  split
  · exact pointwise_all
  · exact pointwise_keepWhere _

theorem pointwise_filterByConstraints : Pointwise (filter.filterByConstraints need) := by
  unfold filterByConstraints
  dsimp only
  split
  · exact pointwise_all
  · exact pointwise_keepWhere _

theorem pointwise_filterByBudget : Pointwise (filterByBudget need) := by
  unfold filterByBudget
  split
  · exact pointwise_all
  · exact pointwise_keepWhere _

theorem filterByZone_sublist : (filterByZone need manifests).Sublist manifests := by
  unfold filterByZone
  dsimp only
  split
  · exact List.Sublist.refl _
  · split
    · exact List.Sublist.refl _
    · exact List.filter_sublist

/-- Where a zone is preferred and somebody is in it, those outside are dropped. -/
theorem mem_filterByZone : m ∈ filterByZone need manifests ↔ m ∈ manifests ∧
    (truthy (getKey need "zone") = true → (∃ other ∈ manifests, inZone (getKey need "zone") other = true) →
      inZone (getKey need "zone") m = true) := by
  unfold filterByZone
  dsimp only
  cases htruthy : truthy (getKey need "zone") with
  | false => simp
  | true =>
    have hsomebody : (manifests.filter (inZone (getKey need "zone"))).isEmpty = false ↔
        ∃ other ∈ manifests, inZone (getKey need "zone") other = true := by
      rw [List.isEmpty_eq_false_iff, ne_eq, List.filter_eq_nil_iff]
      push Not
      rfl
    cases hempty : (manifests.filter (inZone (getKey need "zone"))).isEmpty with
    | true =>
      have hnobody := mt hsomebody.mpr (by rw [hempty]; exact Bool.noConfusion)
      simp [hnobody]
    | false => simp [hsomebody.mp hempty]

variable (filter need)

/-- An agent that each of the eliminating filters keeps. -/
structure Passes (m : AgentManifest) : Prop where
  io : filter.filterByIo need [m] = .ok [m]
  constraints : filter.filterByConstraints need [m] = .ok [m]
  budget : filterByBudget need [m] = .ok [m]

/-- A zone is preferred, and somebody in it gets as far as the preference. -/
def ZoneTaken (manifests : List AgentManifest) : Prop :=
  truthy (getKey need "zone") = true ∧ ∃ m ∈ manifests, filter.filterByIo need [m] = .ok [m] ∧
    filter.filterByConstraints need [m] = .ok [m] ∧ inZone (getKey need "zone") m = true

/-- What is kept passes, in the order of the list; nothing is kept only where nothing passes. -/
structure FindsUsable (manifests kept : List AgentManifest) : Prop where
  inOrder : kept.Sublist manifests
  passes : ∀ m ∈ kept, filter.Passes need m
  complete : kept = [] → ∀ m ∈ manifests, ¬filter.Passes need m

variable {filter need}

theorem mem_filterAll (h : filter.filterAll need manifests = .ok kept) :
    kept.Sublist manifests ∧ ∀ m, m ∈ kept ↔ m ∈ manifests ∧ filter.Passes need m ∧
      (filter.ZoneTaken need manifests → inZone (getKey need "zone") m = true) := by
  obtain ⟨first, hio, hrest⟩ := Transactional.except_bind_ok.mp h
  obtain ⟨second, hconstraints, hbudget⟩ := Transactional.except_bind_ok.mp hrest
  obtain ⟨hfirst, hioIff⟩ := pointwise_filterByIo _ _ hio
  obtain ⟨hsecond, hconstraintsIff⟩ := pointwise_filterByConstraints _ _ hconstraints
  obtain ⟨hkept, hbudgetIff⟩ := pointwise_filterByBudget _ _ hbudget
  have hcandidates : ∀ m, m ∈ second ↔ m ∈ manifests ∧ filter.filterByIo need [m] = .ok [m] ∧
      filter.filterByConstraints need [m] = .ok [m] := by
    intro m
    constructor
    · intro hm
      have hm' := hsecond.subset hm
      have hm'' := hfirst.subset hm'
      exact ⟨hm'', (hioIff m hm'').mp hm', (hconstraintsIff m hm').mp hm⟩
    · rintro ⟨hm, hfits, hmeets⟩
      exact (hconstraintsIff m ((hioIff m hm).mpr hfits)).mpr hmeets
  have htaken : filter.ZoneTaken need manifests ↔ truthy (getKey need "zone") = true ∧
      ∃ other ∈ second, inZone (getKey need "zone") other = true := by
    simp only [ZoneTaken, hcandidates, and_assoc]
  refine ⟨hkept.trans (filterByZone_sublist.trans (hsecond.trans hfirst)), fun m => ?_⟩
  have hzone : m ∈ filterByZone need second ↔ m ∈ second ∧
      (filter.ZoneTaken need manifests → inZone (getKey need "zone") m = true) := by
    rw [mem_filterByZone, htaken, and_imp]
  constructor
  · intro hm
    have hm' := hkept.subset hm
    obtain ⟨hcandidate, hinside⟩ := hzone.mp hm'
    obtain ⟨hgiven, hfits, hmeets⟩ := (hcandidates m).mp hcandidate
    exact ⟨hgiven, ⟨hfits, hmeets, (hbudgetIff m hm').mp hm⟩, hinside⟩
  · rintro ⟨hgiven, hpasses, hinside⟩
    have hm' := hzone.mpr ⟨(hcandidates m).mpr ⟨hgiven, hpasses.io, hpasses.constraints⟩, hinside⟩
    exact (hbudgetIff m hm').mpr hpasses.budget

/-- Every usable agent is found just when, where the preferred zone is taken, somebody in it
passes the budget too or nobody passes at all. -/
theorem finds_usable_iff (h : filter.filterAll need manifests = .ok kept) :
    filter.FindsUsable need manifests kept ↔ (filter.ZoneTaken need manifests → (∃ m ∈ manifests, filter.Passes need m) →
      ∃ m ∈ manifests, filter.Passes need m ∧ inZone (getKey need "zone") m = true) := by
  obtain ⟨hsub, hmem⟩ := mem_filterAll h
  constructor
  · rintro hfinds htaken ⟨usable, husable, hpasses⟩
    have hne : kept ≠ [] := fun hnone => hfinds.complete hnone usable husable hpasses
    obtain ⟨m, hm⟩ := List.exists_mem_of_ne_nil kept hne
    obtain ⟨hgiven, hpasses', hinside⟩ := (hmem m).mp hm
    exact ⟨m, hgiven, hpasses', hinside htaken⟩
  · intro hcondition
    refine ⟨hsub, fun m hm => ((hmem m).mp hm).2.1, fun hnone usable husable hpasses => ?_⟩
    have hnobody : ∀ m, m ∉ kept := by
      rw [hnone]
      exact fun m => List.not_mem_nil
    by_cases htaken : filter.ZoneTaken need manifests
    · obtain ⟨m, hgiven, hpasses', hinside⟩ := hcondition htaken ⟨usable, husable, hpasses⟩
      exact hnobody m ((hmem m).mpr ⟨hgiven, hpasses', fun _ => hinside⟩)
    · exact hnobody usable ((hmem usable).mpr ⟨husable, hpasses, fun hzone => absurd hzone htaken⟩)

/-- Ten credits at most, in the zone "eu" if possible. -/
def europeanNeed : Dict := [("zone", .str "eu"), ("max_price", .int 10)]

def agentIn (zone : String) (price : ℚ) : AgentManifest :=
  ⟨zone ++ "-agent", [], [], [], [], .finite price, .finite 0, .finite 1, some zone⟩

theorem finds_usable_iff_affordable_zone :
    CapabilityFilter.FindsUsable ⟨false⟩ europeanNeed [agentIn "eu" 5, agentIn "us" 5] [agentIn "eu" 5] ↔
      (CapabilityFilter.ZoneTaken ⟨false⟩ europeanNeed [agentIn "eu" 5, agentIn "us" 5] →
        (∃ m ∈ [agentIn "eu" 5, agentIn "us" 5], CapabilityFilter.Passes ⟨false⟩ europeanNeed m) →
        ∃ m ∈ [agentIn "eu" 5, agentIn "us" 5], CapabilityFilter.Passes ⟨false⟩ europeanNeed m ∧
          inZone (getKey europeanNeed "zone") m = true) := finds_usable_iff (by decide +kernel)

/-- The one agent in the zone is too expensive and the affordable one is outside: nobody is left. -/
theorem zone_eliminates_last_candidate :
    CapabilityFilter.filterAll ⟨false⟩ europeanNeed [agentIn "eu" 20, agentIn "us" 5] = .ok [] ∧
    ¬CapabilityFilter.FindsUsable ⟨false⟩ europeanNeed [agentIn "eu" 20, agentIn "us" 5] [] := by
  refine ⟨by decide +kernel, fun h => ?_⟩
  have hpasses : CapabilityFilter.Passes ⟨false⟩ europeanNeed (agentIn "us" 5) :=
    ⟨by decide +kernel, by decide +kernel, by decide +kernel⟩
  exact h.complete rfl (agentIn "us" 5) (List.mem_cons_of_mem _ (List.mem_singleton_self _)) hpasses

end CapabilityFilter

end AgentNetwork.Routing
