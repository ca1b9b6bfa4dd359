import AgentNetwork.Library.InvertedIndex
import AgentNetwork.Library.Traces
import AgentNetwork.Routing.Filters

/-! The indexes that the registry of the router keeps beside its manifests. -/

namespace AgentNetwork.Routing

open Relational Relational.InvertedIndex Transition

structure IndexedRegistry extends ManifestRegistry where
  capabilityIndex : InvertedIndex String String
  tagIndex : InvertedIndex String String
  zoneIndex : InvertedIndex String String

namespace IndexedRegistry

def new : IndexedRegistry := ⟨.empty, .empty, .empty, .empty⟩

/-- `if manifest.zone`. -/
def indexedZones (manifest : AgentManifest) : List String := (manifest.zone.filter (· ≠ "")).toList

/-- Adds to the indexes; what an earlier manifest of the agent has added stays there. -/
def register (manifest : AgentManifest) (r : IndexedRegistry) : IndexedRegistry where
  toManifestRegistry := r.toManifestRegistry.register manifest
  capabilityIndex := r.capabilityIndex.addAll manifest.capabilities manifest.agentId
  tagIndex := r.tagIndex.addAll manifest.tags manifest.agentId
  zoneIndex := r.zoneIndex.addAll (indexedZones manifest) manifest.agentId

def unregister (agentId : String) (r : IndexedRegistry) : IndexedRegistry :=
  match r.manifests.get? agentId with
  | none => r
  | some manifest =>
    { toManifestRegistry := r.toManifestRegistry.unregister agentId
      capabilityIndex := r.capabilityIndex.discardAll manifest.capabilities agentId
      tagIndex := r.tagIndex.discardAll manifest.tags agentId
      zoneIndex := r.zoneIndex.discardAll (indexedZones manifest) agentId }

/-- `none` where the index leads to an agent that is not registered. -/
def findByCapability (capability : String) (r : IndexedRegistry) : Option (List AgentManifest) :=
  r.manifests.getAll? (r.capabilityIndex.find capability).elems

def findByZone (zone : String) (r : IndexedRegistry) : Option (List AgentManifest) :=
  r.manifests.getAll? (r.zoneIndex.find zone).elems

/-- The agents under one of the tags. -/
def taggedIds (tags : List String) (r : IndexedRegistry) : ListSet String :=
  tags.foldl (fun ids tag => ids.addAll (r.tagIndex.find tag).elems) .empty

def findByTags (tags : List String) (matchAll : Bool) (r : IndexedRegistry) : Option (List AgentManifest) :=
  if tags = [] then some r.getAll
  else if matchAll then some (r.getAll.filter fun manifest => tags.all (· ∈ manifest.tags))
  else r.manifests.getAll? (r.taggedIds tags).elems

end IndexedRegistry

inductive IndexCall
  | register (manifest : AgentManifest)
  | unregister (agentId : String)

namespace IndexedRegistry

def call (r : IndexedRegistry) : IndexCall → IndexedRegistry
  | .register manifest => r.register manifest
  | .unregister agentId => r.unregister agentId

/-- No lookup raises, and each finds the registered manifests it is asked for, each once.
Without tags all are found. -/
structure Exact (r : IndexedRegistry) : Prop where
  capability : ∀ c, Finds r.manifests (fun m => c ∈ m.capabilities) (r.findByCapability c)
  zone : ∀ z, Finds r.manifests (fun m => m.zone = some z) (r.findByZone z)
  tags : ∀ ts ≠ [], Finds r.manifests (fun m => ∃ t ∈ ts, t ∈ m.tags) (r.findByTags ts false)
  noTags : Finds r.manifests (fun _ => True) (r.findByTags [] false)

/-- A manifest that is registered has a zone that is not empty, or none, and everything that
the manifest before it is indexed by. -/
def KeepsValues (r : IndexedRegistry) : IndexCall → Prop
  | .register manifest => manifest.zone ≠ some "" ∧ ∀ old, r.manifests.get? manifest.agentId = some old →
      old.capabilities ⊆ manifest.capabilities ∧ old.tags ⊆ manifest.tags ∧ ∀ z, old.zone = some z → manifest.zone = some z
  | .unregister _ => True

variable {r : IndexedRegistry}

theorem agentId_of_get? {agentId : String} {m : AgentManifest} (h : r.manifests.get? agentId = some m) : m.agentId = agentId :=
  (r.keyed _ (Table.get?_eq_some_iff.mp h)).symm

theorem mem_taggedIds {tags : List String} {agentId : String} :
    agentId ∈ r.taggedIds tags ↔ ∃ tag ∈ tags, agentId ∈ r.tagIndex.find tag := by
  have hfold : ∀ ids : ListSet String, agentId ∈ tags.foldl (fun ids tag => ids.addAll (r.tagIndex.find tag).elems) ids ↔
      agentId ∈ ids ∨ ∃ tag ∈ tags, agentId ∈ r.tagIndex.find tag := by
    induction tags with
    | nil => simp
    | cons tag rest ih =>
      intro ids
      rw [List.foldl_cons, ih, ListSet.mem_addAll, List.exists_mem_cons_iff, or_assoc]
      rfl
  rw [taggedIds, hfold .empty]
  simp

theorem finds_getAll : Finds r.manifests (fun _ => True) (some r.getAll) := by
  refine ⟨_, rfl, Table.nodup_rows fun _ _ => agentId_of_get?, fun m => ?_⟩
  rw [ManifestRegistry.getAll, Table.mem_rows, and_true]

/-- The lookups are exact just when the indexes are right. -/
theorem exact_iff : r.Exact ↔ Indexes r.manifests (·.capabilities) r.capabilityIndex ∧
    Indexes r.manifests (·.zone.toList) r.zoneIndex ∧ Indexes r.manifests (·.tags) r.tagIndex := by
  have hid : ∀ k m, r.manifests.get? k = some m → m.agentId = k := fun _ _ => agentId_of_get?
  constructor
  · intro h
    refine ⟨(indexes_iff_finds hid).mpr h.capability, (indexes_iff_finds hid).mpr fun z => ?_, (indexes_iff_finds hid).mpr fun t => ?_⟩
    · simpa only [Option.mem_toList, Option.mem_def, findByZone] using h.zone z
    · have htag := h.tags [t] (List.cons_ne_nil t [])
      rw [findByTags, if_neg (List.cons_ne_nil t []), if_neg Bool.false_ne_true, finds_getAll?_iff hid] at htag
      refine (finds_getAll?_iff hid).mpr fun k => ?_
      simpa only [mem_taggedIds, List.mem_singleton, exists_eq_left] using htag k
  · rintro ⟨hcapabilities, hzones, htags⟩
    refine ⟨(indexes_iff_finds hid).mp hcapabilities, fun z => ?_, fun ts hts => ?_, finds_getAll⟩
    · simpa only [Option.mem_toList, Option.mem_def, findByZone] using (indexes_iff_finds hid).mp hzones z
    · rw [findByTags, if_neg hts, if_neg Bool.false_ne_true]
      refine (finds_getAll?_iff hid).mpr fun k => ?_
      rw [mem_taggedIds]
      constructor
      · rintro ⟨t, ht, hk⟩
        obtain ⟨m, hm, htag⟩ := (htags t k).mp hk
        exact ⟨m, hm, t, ht, htag⟩
      · rintro ⟨m, hm, t, ht, htag⟩
        exact ⟨t, ht, (htags t k).mpr ⟨m, hm, htag⟩⟩

/-- The lookups are exact, and no zone that is registered is empty. -/
structure Sound (r : IndexedRegistry) : Prop where
  exact : r.Exact
  zoned : ∀ agentId m, r.manifests.get? agentId = some m → m.zone ≠ some ""

theorem sound_new : Sound new := by
  refine ⟨exact_iff.mpr ⟨.empty, .empty, .empty⟩, ?_⟩
  intro _ _ h
  cases h

theorem indexedZones_of_ne {m : AgentManifest} (h : m.zone ≠ some "") : indexedZones m = m.zone.toList := by
  unfold indexedZones
  cases hzone : m.zone with
  | none => rfl
  | some zone =>
    have hne : zone ≠ "" := by
      rintro rfl
      exact h hzone
    simp [Option.filter, hne]

theorem mem_indexedZones {m : AgentManifest} {zone : String} : zone ∈ indexedZones m ↔ m.zone = some zone ∧ zone ≠ "" := by
  rw [indexedZones, Option.mem_toList, Option.filter_eq_some_iff, decide_eq_true_eq]

theorem Sound.exact_register_iff (h : r.Sound) (manifest : AgentManifest) :
    (r.register manifest).Exact ↔ r.KeepsValues (.register manifest) := by
  obtain ⟨hcapabilities, hzones, htags⟩ := exact_iff.mp h.exact
  have hkeeps : ∀ valuesOf : AgentManifest → List String,
      (∀ v, v ∈ valuesOf manifest ↔ v ∈ valuesOf manifest ∨
        ∃ old, r.manifests.get? manifest.agentId = some old ∧ v ∈ valuesOf old) ↔
      ∀ old, r.manifests.get? manifest.agentId = some old → valuesOf old ⊆ valuesOf manifest := by
    intro valuesOf
    constructor
    · exact fun hv old hold v hmem => (hv v).mpr (.inr ⟨old, hold, hmem⟩)
    · intro hsub v
      refine ⟨.inl, ?_⟩
      rintro (hmem | ⟨old, hold, hmem⟩)
      · exact hmem
      · exact hsub old hold hmem
  have hzone : (∀ v, v ∈ manifest.zone.toList ↔ v ∈ indexedZones manifest ∨
        ∃ old, r.manifests.get? manifest.agentId = some old ∧ v ∈ old.zone.toList) ↔
      manifest.zone ≠ some "" ∧ ∀ old, r.manifests.get? manifest.agentId = some old → ∀ z, old.zone = some z → manifest.zone = some z := by
    simp only [Option.mem_toList, mem_indexedZones]
    constructor
    · intro hv
      refine ⟨fun hempty => ?_, fun old hold z hz => (hv z).mpr (.inr ⟨old, hold, hz⟩)⟩
      rcases (hv "").mp hempty with ⟨_, hne⟩ | ⟨old, hold, hz⟩
      · exact hne rfl
      · exact h.zoned _ old hold hz
    · rintro ⟨hne, hsame⟩ v
      constructor
      · intro hv
        refine .inl ⟨hv, ?_⟩
        rintro rfl
        exact hne hv
      · rintro (⟨hv, _⟩ | ⟨old, hold, hz⟩)
        · exact hv
        · exact hsame old hold v hz
  have hiff : (r.register manifest).Exact ↔ _ := exact_iff
  rw [hiff]
  simp only [register, ManifestRegistry.register, hcapabilities.upsert_iff, hzones.upsert_iff, htags.upsert_iff, hkeeps, hzone,
    KeepsValues]
  constructor
  · rintro ⟨hc, ⟨hne, hz⟩, ht⟩
    exact ⟨hne, fun old hold => ⟨hc old hold, ht old hold, hz old hold⟩⟩
  · rintro ⟨hne, hall⟩
    exact ⟨fun old hold => (hall old hold).1, ⟨hne, fun old hold => (hall old hold).2.2⟩, fun old hold => (hall old hold).2.1⟩

theorem Sound.unregister (h : r.Sound) (agentId : String) : (r.unregister agentId).Sound := by
  obtain ⟨hcapabilities, hzones, htags⟩ := exact_iff.mp h.exact
  unfold IndexedRegistry.unregister
  split
  next => exact h
  next manifest hmanifest =>
    refine ⟨exact_iff.mpr ⟨hcapabilities.eraseRow hmanifest, ?_, htags.eraseRow hmanifest⟩, fun other m hm => ?_⟩
    · rw [indexedZones_of_ne (h.zoned agentId manifest hmanifest)]
      exact hzones.eraseRow hmanifest
    · have hm : (r.manifests.erase agentId).get? other = some m := hm
      rw [Table.get?_erase] at hm
      split at hm
      · cases hm
      · exact h.zoned other m hm

theorem Sound.exact_call_iff (h : r.Sound) (c : IndexCall) : (r.call c).Exact ↔ r.KeepsValues c := by
  cases c with
  | register manifest => exact h.exact_register_iff manifest
  | unregister agentId => exact iff_of_true (h.unregister agentId).exact trivial

theorem Sound.call (h : r.Sound) {c : IndexCall} (hkeeps : r.KeepsValues c) : (r.call c).Sound := by
  cases c with
  | unregister agentId => exact h.unregister agentId
  | register manifest =>
    refine ⟨(h.exact_register_iff manifest).mpr hkeeps, fun agentId m hm => ?_⟩
    have hm : (r.manifests.upsert manifest.agentId manifest).get? agentId = some m := hm
    rw [Table.get?_upsert] at hm
    split at hm
    · cases hm
      exact hkeeps.1
    · exact h.zoned agentId m hm

/-- The lookups are exact after every call just when no call registers an empty zone or
drops a capability, a tag or the zone of an agent that is registered. -/
theorem indexes_exact_iff (calls : List IndexCall) :
    (∀ e ∈ stepsOf IndexedRegistry.call new calls, e.2.2.Exact) ↔ ∀ e ∈ stepsOf IndexedRegistry.call new calls, e.1.KeepsValues e.2.1 := by
  have htrace : Trace (fun r c r' => r' = IndexedRegistry.call r c) new (stepsOf IndexedRegistry.call new calls)
      (calls.foldl IndexedRegistry.call new) := Trace.ofCalls stepsOf_call
  refine @Trace.forall_iff _ _ _ _ _ _ KeepsValues Sound (fun _ _ r' => r'.Exact) htrace sound_new ?_ ?_
  · rintro r c _ hsound hkeeps rfl
    exact hsound.call hkeeps
  · rintro r c _ hsound rfl
    exact hsound.exact_call_iff c

def sampleManifest (capabilities : List String) : AgentManifest :=
  ⟨"agent1", capabilities, [], [], [], .finite 0, .finite 0, .finite 1, none⟩

/-- Registered again without the capability, the agent is still found by it; and once it is
removed the lookup raises. -/
theorem dropped_capability_found :
    ¬Exact ((new.call (.register (sampleManifest ["a"]))).call (.register (sampleManifest ["b"]))) ∧
    findByCapability "a" (((new.call (.register (sampleManifest ["a"]))).call (.register (sampleManifest ["b"]))).call
      (.unregister "agent1")) = none := by
  constructor
  · intro h
    obtain ⟨found, hfound, _, hmem⟩ := h.capability "a"
    have hstale : some found = some [sampleManifest ["b"]] := hfound.symm
    cases hstale
    exact absurd ((hmem _).mp (List.mem_singleton_self _)).2 (by decide)
  · decide

end IndexedRegistry

end AgentNetwork.Routing
