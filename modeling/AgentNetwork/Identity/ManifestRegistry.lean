import AgentNetwork.Identity.Manifest
import AgentNetwork.Library.InvertedIndex

/-! The registry of signed manifests with its two indexes, and what they find. -/

namespace AgentNetwork.Identity

open Relational Python

structure ManifestRegistry where
  manifests : Table String AgentManifest
  capabilityIndex : InvertedIndex String String
  tagIndex : InvertedIndex String String
  keyed : ∀ e ∈ manifests.entries, e.1 = e.2.agentId

namespace ManifestRegistry

def new : ManifestRegistry := ⟨.empty, .empty, .empty, List.forall_mem_nil _⟩

def removeFromIndices (agentId : String) (r : ManifestRegistry) : ManifestRegistry :=
  { r with
    capabilityIndex := r.capabilityIndex.discardAll r.capabilityIndex.keys agentId
    tagIndex := r.tagIndex.discardAll r.tagIndex.keys agentId }

theorem keyed_upsert {manifests : Table String AgentManifest} (h : ∀ e ∈ manifests.entries, e.1 = e.2.agentId)
    (manifest : AgentManifest) : ∀ e ∈ (manifests.upsert manifest.agentId manifest).entries, e.1 = e.2.agentId := by
  intro e he
  rw [← Table.get?_eq_some_iff, Table.get?_upsert] at he
  split at he
  next hkey => rw [← Option.some.inj he, hkey]
  next => exact h e (Table.get?_eq_some_iff.mp he)

def register (manifest : AgentManifest) (r : ManifestRegistry) : ManifestRegistry :=
  let agentId := manifest.agentId
  let r := if r.manifests.contains agentId then r.removeFromIndices agentId else r
  { manifests := r.manifests.upsert agentId manifest
    capabilityIndex := r.capabilityIndex.addAll manifest.capabilities agentId
    tagIndex := r.tagIndex.addAll manifest.tags agentId
    keyed := keyed_upsert r.keyed manifest }

/-- `unregister`, with what it returns. -/
def unregister (agentId : String) (r : ManifestRegistry) : Bool × ManifestRegistry :=
  if r.manifests.contains agentId then
    let r := r.removeFromIndices agentId
    (true, { r with
      manifests := r.manifests.erase agentId
      keyed := fun e he => r.keyed e (List.mem_of_mem_filter he) })
  else (false, r)

/-- `none` where an index leads to an agent that is not registered. -/
def findByCapability (capability : String) (r : ManifestRegistry) : Option (List AgentManifest) :=
  r.manifests.getAll? (r.capabilityIndex.find capability).elems

def findByTag (tag : String) (r : ManifestRegistry) : Option (List AgentManifest) :=
  r.manifests.getAll? (r.tagIndex.find tag).elems

def getManifest (agentId : String) (r : ManifestRegistry) : Option AgentManifest := r.manifests.get? agentId

def listAll (r : ManifestRegistry) : List AgentManifest := r.manifests.entries.map Prod.snd

/-- The agents that have all of the required values; none required, all agents. -/
def requireAll (valuesOf : AgentManifest → List String) (required : Option (List String))
    (results : List AgentManifest) : List AgentManifest :=
  match required with
  | none => results
  | some required => results.filter fun m => required.all (· ∈ valuesOf m)

/-- `search`. -/
def search (capabilities tags : Option (List String)) (maxPrice : Option Number) (maxLatency : Option Int)
    (r : ManifestRegistry) : List AgentManifest :=
  let results := requireAll (·.capabilities) capabilities r.listAll
  let results := requireAll (·.tags) tags results
  let results :=
    match maxPrice with
    | none => results
    | some maxPrice => results.filter fun m => m.pricePerTask.number.le maxPrice
  match maxLatency with
  | none => results
  | some maxLatency => results.filter fun m => m.avgLatencyMs ≤ maxLatency

def getCapabilities (r : ManifestRegistry) : List String := r.capabilityIndex.keys

def getTags (r : ManifestRegistry) : List String := r.tagIndex.keys

end ManifestRegistry

inductive RegistryCall
  | register (manifest : AgentManifest)
  | unregister (agentId : String)

def RegistryCall.apply (r : ManifestRegistry) : RegistryCall → ManifestRegistry
  | register manifest => r.register manifest
  | unregister agentId => (r.unregister agentId).2

namespace ManifestRegistry

def afterCalls (calls : List RegistryCall) : ManifestRegistry := calls.foldl RegistryCall.apply new

structure Consistent (r : ManifestRegistry) : Prop where
  capabilities : InvertedIndex.Indexes r.manifests (·.capabilities) r.capabilityIndex
  tags : InvertedIndex.Indexes r.manifests (·.tags) r.tagIndex

variable {r : ManifestRegistry}

theorem Consistent.register (h : r.Consistent) (manifest : AgentManifest) : (r.register manifest).Consistent := by
  cases hknown : r.manifests.contains manifest.agentId with
  | true =>
    simp only [ManifestRegistry.register, hknown, if_true]
    exact ⟨.upsert (h.capabilities.others manifest.agentId), .upsert (h.tags.others manifest.agentId)⟩
  | false =>
    have hfresh := Table.contains_eq_false_iff.mp hknown
    simp only [ManifestRegistry.register, hknown, Bool.false_eq_true, if_false]
    exact ⟨.upsert (h.capabilities.fresh hfresh), .upsert (h.tags.fresh hfresh)⟩

theorem Consistent.unregister (h : r.Consistent) (agentId : String) : (r.unregister agentId).2.Consistent := by
  cases hknown : r.manifests.contains agentId with
  | true =>
    simp only [ManifestRegistry.unregister, hknown, if_true]
    exact ⟨h.capabilities.erase agentId, h.tags.erase agentId⟩
  | false =>
    simp only [ManifestRegistry.unregister, hknown, Bool.false_eq_true, if_false]
    exact h

theorem consistent_afterCalls (calls : List RegistryCall) : (afterCalls calls).Consistent := by
  have hrun : ∀ r : ManifestRegistry, r.Consistent → (calls.foldl RegistryCall.apply r).Consistent := by
    induction calls with
    | nil => exact fun _ h => h
    | cons call rest ih =>
      intro r h
      cases call with
      | register manifest => exact ih _ (h.register manifest)
      | unregister agentId => exact ih _ (h.unregister agentId)
  exact hrun new ⟨.empty, .empty⟩

theorem agentId_of_get? {agentId : String} {m : AgentManifest} (h : r.manifests.get? agentId = some m) : m.agentId = agentId :=
  (r.keyed _ (Table.get?_eq_some_iff.mp h)).symm

theorem nodup_listAll (r : ManifestRegistry) : r.listAll.Nodup := Table.nodup_rows fun _ _ => agentId_of_get?

theorem mem_listAll {m : AgentManifest} : m ∈ r.listAll ↔ r.manifests.get? m.agentId = some m := by
  rw [listAll, Table.mem_rows]
  constructor
  · rintro ⟨agentId, hm⟩
    rwa [agentId_of_get? hm]
  · exact fun h => ⟨_, h⟩

/-- What an index leads to is what a scan of the manifests finds. -/
theorem found_of_indexes {valuesOf : AgentManifest → List String} {index : InvertedIndex String String}
    (h : InvertedIndex.Indexes r.manifests valuesOf index) (value : String) :
    ∃ found, r.manifests.getAll? (index.find value).elems = some found ∧ found.Nodup ∧
      found.Perm (requireAll valuesOf (some [value]) r.listAll) := by
  obtain ⟨found, hfound, hnodup, hmem⟩ := (InvertedIndex.finds_getAll?_iff fun _ _ => agentId_of_get?).mpr (h value)
  refine ⟨found, hfound, hnodup, ?_⟩
  refine (List.perm_ext_iff_of_nodup hnodup (r.nodup_listAll.filter _)).mpr fun m => ?_
  rw [hmem, List.mem_filter, mem_listAll]
  simp only [List.all_cons, List.all_nil, Bool.and_true, decide_eq_true_eq]
  refine and_congr_left fun _ => ⟨?_, fun hm => ⟨m.agentId, hm⟩⟩
  rintro ⟨agentId, hm⟩
  rwa [agentId_of_get? hm]

theorem mem_keys_of_indexes {valuesOf : AgentManifest → List String} {index : InvertedIndex String String}
    (h : InvertedIndex.Indexes r.manifests valuesOf index) (value : String) :
    value ∈ index.keys ↔ ∃ m ∈ r.listAll, value ∈ valuesOf m := by
  rw [InvertedIndex.mem_keys]
  constructor
  · rintro ⟨agentId, hmem⟩
    obtain ⟨m, hm, hvalue⟩ := (h value agentId).mp hmem
    refine ⟨m, mem_listAll.mpr ?_, hvalue⟩
    rwa [agentId_of_get? hm]
  · rintro ⟨m, hm, hvalue⟩
    exact ⟨m.agentId, (h value m.agentId).mpr ⟨m, mem_listAll.mp hm, hvalue⟩⟩

/-- The indexes agree with a scan. -/
structure AgreesWithScan (r : ManifestRegistry) : Prop where
  byCapability : ∀ capability, ∃ found, r.findByCapability capability = some found ∧ found.Nodup ∧
    found.Perm (r.search (some [capability]) none none none)
  byTag : ∀ tag, ∃ found, r.findByTag tag = some found ∧ found.Nodup ∧ found.Perm (r.search none (some [tag]) none none)
  capabilities : r.getCapabilities.Nodup ∧
    ∀ capability, capability ∈ r.getCapabilities ↔ ∃ m ∈ r.listAll, capability ∈ m.capabilities
  tags : r.getTags.Nodup ∧ ∀ tag, tag ∈ r.getTags ↔ ∃ m ∈ r.listAll, tag ∈ m.tags

/-- After any registrations and removals. -/
theorem indexes_agree_with_scan (calls : List RegistryCall) : (afterCalls calls).AgreesWithScan := by
  have h := consistent_afterCalls calls
  refine ⟨found_of_indexes h.capabilities, found_of_indexes h.tags, ⟨InvertedIndex.nodup_keys _, mem_keys_of_indexes h.capabilities⟩,
    ⟨InvertedIndex.nodup_keys _, mem_keys_of_indexes h.tags⟩⟩

end ManifestRegistry

end AgentNetwork.Identity
