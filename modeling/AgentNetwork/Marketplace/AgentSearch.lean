import AgentNetwork.Marketplace.AgentRegistry

/-! Which agents the search of the registry finds. -/

namespace AgentNetwork.Marketplace

open Relational Python StableSort
open AgentNetwork.Policy (Dict)

namespace AgentRegistry

section Groups

variable {rows : ListSet (String × String)} {values : List String} {agentId : String}

/-- The values of an agent among those asked for. -/
def valuesOf (rows : ListSet (String × String)) (values : List String) (agentId : String) : List String :=
  (rows.elems.filter fun row => row.1 = agentId ∧ row.2 ∈ values).map Prod.snd

theorem mem_valuesOf {value : String} : value ∈ valuesOf rows values agentId ↔ value ∈ values ∧ (agentId, value) ∈ rows := by
  unfold valuesOf
  rw [List.mem_map]
  constructor
  · rintro ⟨⟨agent, v⟩, hrow, rfl⟩
    obtain ⟨hmem, hboth⟩ := List.mem_filter.mp hrow
    obtain ⟨rfl, hvalue⟩ := of_decide_eq_true hboth
    exact ⟨hvalue, hmem⟩
  · rintro ⟨hvalue, hmem⟩
    exact ⟨(agentId, value), List.mem_filter.mpr ⟨hmem, decide_eq_true ⟨rfl, hvalue⟩⟩, rfl⟩

theorem nodup_valuesOf : (valuesOf rows values agentId).Nodup := by
  refine List.Nodup.map_on ?_ (rows.nodup.filter _)
  intro row hrow other hother hsecond
  obtain ⟨hfirst, _⟩ := of_decide_eq_true (List.mem_filter.mp hrow).2
  obtain ⟨hfirst', _⟩ := of_decide_eq_true (List.mem_filter.mp hother).2
  exact Prod.ext (hfirst.trans hfirst'.symm) hsecond

/-- Counting the distinct matches against the values asked for finds the agents with all of
them, and none where a value is asked for twice. -/
theorem hasAllOf_iff (hne : values ≠ []) :
    hasAllOf rows values agentId = true ↔ values.Nodup ∧ ∀ value ∈ values, (agentId, value) ∈ rows := by
  have hgroup : hasAllOf rows values agentId = true ↔ (valuesOf rows values agentId).length = values.length := by
    have hdistinct : (valuesOf rows values agentId).dedup = valuesOf rows values agentId := nodup_valuesOf.dedup
    have hlength : 0 < values.length := List.length_pos_iff.mpr hne
    have hvalues : (rows.elems.filter fun row => row.1 = agentId ∧ row.2 ∈ values).map Prod.snd = valuesOf rows values agentId := rfl
    rw [hasAllOf, hvalues, hdistinct, decide_eq_true_eq]
    refine and_iff_right_of_imp fun hcount hnil => ?_
    rw [valuesOf, hnil] at hcount
    exact absurd hcount hlength.ne
  have hsubset : valuesOf rows values agentId ⊆ values := fun value hvalue => (mem_valuesOf.mp hvalue).1
  rw [hgroup]
  constructor
  · intro hcount
    have hperm := (List.subperm_of_subset nodup_valuesOf hsubset).perm_of_length_le hcount.ge
    exact ⟨hperm.nodup_iff.mp nodup_valuesOf, fun value hvalue => (mem_valuesOf.mp (hperm.mem_iff.mpr hvalue)).2⟩
  · rintro ⟨hnodup, hall⟩
    have hperm : (valuesOf rows values agentId).Perm values := by
      refine (List.perm_ext_iff_of_nodup nodup_valuesOf hnodup).mpr fun value => ?_
      rw [mem_valuesOf]
      exact and_iff_left_of_imp (hall value)
    exact hperm.length_eq

theorem hasOneOf_iff : hasOneOf rows values agentId = true ↔ ∃ value ∈ values, (agentId, value) ∈ rows := by
  rw [hasOneOf, List.any_eq_true]
  constructor
  · rintro ⟨⟨agent, value⟩, hmem, hboth⟩
    obtain ⟨rfl, hvalue⟩ := of_decide_eq_true hboth
    exact ⟨value, hvalue, hmem⟩
  · rintro ⟨value, hvalue, hmem⟩
    exact ⟨(agentId, value), hmem, decide_eq_true ⟨rfl, hvalue⟩⟩

end Groups

section Search

-- What it means for an agent with some manifest to keep to a greatest price; the registry never asks.
variable (affordable : Dict → Number → Prop)

variable (capabilities : Option (List String)) (filters : Option SearchFilters) (db : RegistryDb)

def HasAll (values : List String) (agent : AgentRecord) : Prop := ∀ value ∈ values, (agent.agentId, value) ∈ db.capabilities

/-- The agent has the capabilities that are required and meets the reputation, the status
and, where any are named, one of the tags. -/
structure MeetsApplied (agent : AgentRecord) : Prop where
  capabilities : ∀ values, capabilities = some values → HasAll db values agent
  minReputation : ∀ f r, filters = some f → f.minReputation = some r → atLeast agent.reputationScore (SqlReal.ofNumber r) = true
  status : ∀ f status, filters = some f → f.status = some status → agent.status = status
  tags : ∀ f values, filters = some f → given f.tags = some values → ∃ tag ∈ values, (agent.agentId, tag) ∈ db.tags

/-- The agent meets the two filters that the query has no condition for. -/
structure MeetsIgnored (agent : AgentRecord) : Prop where
  capabilities : ∀ f values, filters = some f → f.capabilities = some values → HasAll db values agent
  maxPrice : ∀ f price, filters = some f → f.maxPrice = some price → affordable agent.manifest price

/-- The search finds the registered agents that meet everything, each of them once, the
best reputation first. -/
structure SearchExact : Prop where
  once : ((searchAgents capabilities filters db).map (·.agentId)).Nodup
  ordered : (searchAgents capabilities filters db).Pairwise fun a b =>
    (b.reputationScore : WithBot SqlReal) ≤ (a.reputationScore : WithBot SqlReal)
  exact : ∀ agent, agent ∈ searchAgents capabilities filters db ↔
    agent ∈ registered db ∧ MeetsApplied capabilities filters db agent ∧ MeetsIgnored affordable filters db agent

variable {affordable capabilities filters db}

theorem given_eq_some_iff {values : List String} : given capabilities = some values ↔ capabilities = some values ∧ values ≠ [] := by
  rw [given, Option.filter_eq_some_iff, decide_eq_true_eq]

theorem selected_iff {agent : AgentRecord} : selected capabilities filters db agent = true ↔
    (capabilities.getD []).Nodup ∧ MeetsApplied capabilities filters db agent := by
  have hcapabilities : (given capabilities).all (fun values => hasAllOf db.capabilities values agent.agentId) = true ↔
      (capabilities.getD []).Nodup ∧ ∀ values, capabilities = some values → HasAll db values agent := by
    rw [Option.all_eq_true]
    cases capabilities with
    | none => simp [given]
    | some values =>
      by_cases hne : values = []
      · simp [given, hne, HasAll]
      · have hgiven : given (some values) = some values := given_eq_some_iff.mpr ⟨rfl, hne⟩
        simp only [hgiven, Option.some.injEq, forall_eq', Option.getD_some]
        exact hasAllOf_iff hne
  rw [selected, Bool.and_eq_true, hcapabilities, and_assoc]
  refine and_congr_right fun _ => ?_
  cases filters with
  | none =>
    constructor
    · rintro ⟨hall, _⟩
      refine ⟨hall, ?_, ?_, ?_⟩ <;> intro _ _ h <;> cases h
    · intro h
      exact ⟨h.capabilities, rfl⟩
  | some f =>
    simp only [Option.all_some, Bool.and_eq_true, Option.all_eq_true, decide_eq_true_eq, hasOneOf_iff]
    constructor
    · rintro ⟨hall, ⟨hreputation, hstatus⟩, htags⟩
      refine ⟨hall, ?_, ?_, ?_⟩
      · rintro f r ⟨⟩ hr
        exact hreputation r hr
      · rintro f status ⟨⟩ hs
        exact hstatus status hs
      · rintro f values ⟨⟩ hv
        exact htags values hv
    · intro h
      exact ⟨h.capabilities, ⟨fun r hr => h.minReputation f r rfl hr, fun status hs => h.status f status rfl hs⟩,
        fun values hv => h.tags f values rfl hv⟩

theorem agentIds_registered (db : RegistryDb) : (registered db).map (·.agentId) = db.registrations.keys := by
  rw [registered, List.map_map]
  rfl

theorem mem_searchAgents {agent : AgentRecord} : agent ∈ searchAgents capabilities filters db ↔
    agent ∈ registered db ∧ selected capabilities filters db agent = true := by
  rw [searchAgents, mem_sortOn, List.mem_dedup, List.mem_filter]

theorem searchAgents_once : ((searchAgents capabilities filters db).map (·.agentId)).Nodup := by
  have hall : ((registered db).map (·.agentId)).Nodup := by
    rw [agentIds_registered]
    exact db.registrations.keysNodup
  have hsome := hall.sublist (List.filter_sublist.map _ : (((registered db).filter (selected capabilities filters db)).map _).Sublist _)
  rw [searchAgents, (hsome.of_map _).dedup]
  exact ((perm_sortOn _ _).map _).nodup_iff.mpr hsome

theorem searchAgents_ordered : (searchAgents capabilities filters db).Pairwise fun a b =>
    (b.reputationScore : WithBot SqlReal) ≤ (a.reputationScore : WithBot SqlReal) := by
  refine (pairwise_sortOn searchOrder _).imp fun {a b} h => ?_
  rcases Prod.Lex.toLex_le_toLex.mp h with hlt | ⟨heq, _⟩
  · exact hlt.le
  · exact (OrderDual.toDual.injective heq).ge

/-- The search is exact just when, among the registered agents that meet what the query asks
for, those that also meet the two other filters are all (where no capability is required
twice) or none (where one is). -/
theorem search_exact_iff : SearchExact affordable capabilities filters db ↔
    ∀ agent ∈ registered db, MeetsApplied capabilities filters db agent →
      ((capabilities.getD []).Nodup ↔ MeetsIgnored affordable filters db agent) := by
  constructor
  · intro h agent hagent happlied
    have hexact := h.exact agent
    rw [mem_searchAgents, selected_iff] at hexact
    constructor
    · exact fun hnodup => (hexact.mp ⟨hagent, hnodup, happlied⟩).2.2
    · exact fun hignored => (hexact.mpr ⟨hagent, happlied, hignored⟩).2.1
  · intro h
    refine ⟨searchAgents_once, searchAgents_ordered, fun agent => ?_⟩
    rw [mem_searchAgents, selected_iff]
    refine and_congr_right fun hagent => ?_
    rw [and_comm]
    exact and_congr_right fun happlied => h agent hagent happlied

end Search

def sampleManifest : Manifest where
  fields := [("capabilities", .arr [.str "code_analysis"]), ("pricing", .obj [("base_rate", .int 10)])]
  wellFormed := by decide +kernel

/-- One agent, for ten credits. -/
def sampleDb : RegistryDb where
  registrations := Table.empty.upsert "agent1" ⟨"registration1", sampleManifest.stored, 0, .active, 1, 1⟩
  capabilities := ListSet.empty.add ("agent1", "code_analysis")
  tags := .empty
  stats := Table.empty.upsert "agent1" (newStats 1)

/-- The price taken to be the base rate. -/
def baseRateWithin (manifest : Dict) (price : Number) : Prop :=
  ∃ pricing rate number, manifest.lookup "pricing" = some (.obj pricing) ∧ pricing.lookup "base_rate" = some rate ∧
    Number.ofJson? rate = some number ∧ number.le price = true

def atMostFive : SearchFilters := ⟨none, none, some (.finite 5), none, none⟩

theorem search_misses_and_overcharges :
    ¬SearchExact baseRateWithin (some ["code_analysis", "code_analysis"]) none sampleDb ∧
    ¬SearchExact baseRateWithin none (some atMostFive) sampleDb := by
  have hcarries : ∀ values, (∀ value ∈ values, value = "code_analysis") →
      ∀ agent ∈ registered sampleDb, HasAll sampleDb values agent := by
    intro values hvalues agent hagent value hvalue
    rw [hvalues value hvalue, List.mem_singleton.mp hagent]
    exact List.mem_singleton_self _
  constructor
  · intro h
    obtain ⟨agent, hagent⟩ : ∃ agent, agent ∈ registered sampleDb := ⟨_, List.mem_cons_self⟩
    have happlied : MeetsApplied (some ["code_analysis", "code_analysis"]) none sampleDb agent := by
      refine ⟨?_, ?_, ?_, ?_⟩
      · rintro values ⟨⟩
        exact hcarries _ (by decide) agent hagent
      all_goals
        intro _ _ hnone
        cases hnone
    have hignored : MeetsIgnored baseRateWithin none sampleDb agent := by
      constructor <;>
        intro _ _ hnone <;>
        cases hnone
    have hfound := (h.exact agent).mpr ⟨hagent, happlied, hignored⟩
    have hnodup := (selected_iff.mp (mem_searchAgents.mp hfound).2).1
    revert hnodup
    decide
  · intro h
    have hfound : recordOf sampleDb "agent1" ⟨"registration1", sampleManifest.stored, 0, .active, 1, 1⟩ ∈
        searchAgents none (some atMostFive) sampleDb := mem_searchAgents.mpr ⟨List.mem_singleton_self _, rfl⟩
    obtain ⟨pricing, rate, number, hpricing, hrate, hnumber, hle⟩ := ((h.exact _).mp hfound).2.2.maxPrice atMostFive _ rfl rfl
    cases hpricing
    cases hrate
    cases hnumber
    revert hle
    decide +kernel

end AgentRegistry

end AgentNetwork.Marketplace
