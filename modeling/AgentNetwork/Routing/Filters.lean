import AgentNetwork.Library.Program
import AgentNetwork.Library.PythonValues
import AgentNetwork.Library.Table
import AgentNetwork.Policy.Envelope

/-! The manifests of the agents and the filters that say who qualifies for a need. -/

namespace AgentNetwork.Routing

open Relational Python
open AgentNetwork.Policy (Dict getOr getKey)

structure AgentManifest where
  agentId : String
  capabilities : List String
  ioSchema : Dict
  tags : List String
  constraints : Dict
  pricePerTask : Number
  avgLatencyMs : Number
  successRate : Number
  zone : Option String
  deriving DecidableEq

/-- The manifests under the ids of their agents. -/
structure ManifestRegistry where
  manifests : Table String AgentManifest
  keyed : ∀ e ∈ manifests.entries, e.1 = e.2.agentId

namespace ManifestRegistry

def empty : ManifestRegistry := ⟨.empty, nofun⟩

def register (manifest : AgentManifest) (r : ManifestRegistry) : ManifestRegistry :=
  ⟨r.manifests.upsert manifest.agentId manifest, by
    intro e he
    have hget := Table.get?_eq_some_iff.mpr he
    rw [Table.get?_upsert] at hget
    split at hget
    next hkey => rw [← Option.some.inj hget, hkey]
    next => exact r.keyed e (Table.get?_eq_some_iff.mp hget)⟩

def unregister (agentId : String) (r : ManifestRegistry) : ManifestRegistry :=
  ⟨r.manifests.erase agentId, fun e he => r.keyed e (List.mem_of_mem_filter he)⟩

def getAll (r : ManifestRegistry) : List AgentManifest := r.manifests.entries.map Prod.snd

def registered (agentId : String) (r : ManifestRegistry) : Bool := r.manifests.contains agentId

theorem registered_of_mem_getAll {r : ManifestRegistry} {m : AgentManifest} (h : m ∈ r.getAll) : r.registered m.agentId = true := by
  obtain ⟨e, he, hm⟩ := List.mem_map.mp h
  have hkey := r.keyed e he
  rw [hm] at hkey
  rw [registered, ← hkey]
  exact Table.contains_eq_true_iff.mpr ⟨e.2, Table.get?_eq_some_iff.mpr he⟩

end ManifestRegistry

structure CapabilityFilter where
  strictMode : Bool

namespace CapabilityFilter

variable (filter : CapabilityFilter)

/-- `_schemas_compatible`. -/
def schemasCompatible (required provided : Json) : Except Exn Bool := do
  if !truthy required then .ok true
  else if !truthy provided && filter.strictMode then .ok false
  else
    let requiredFieldsOf ← asDict "get" required
    let providedFieldsOf ← asDict "get" provided
    let requiredType := getKey requiredFieldsOf "type"
    let providedType := getKey providedFieldsOf "type"
    if truthy requiredType && truthy providedType && !equal requiredType providedType then .ok false
    else
      let requiredFields ← toSet (getOr requiredFieldsOf "required" (.arr []))
      let properties ← asDict "keys" (getOr providedFieldsOf "properties" (.obj []))
      let present := requiredFields.all fun field => properties.any fun property => equal field (.str property.1)
      .ok (present || !filter.strictMode)

/-- The check of one agent in `filter_by_io`. -/
def ioCompatible (requiredInput requiredOutput : Json) (manifest : AgentManifest) : Except Exn Bool := do
  let inputOk ← if truthy requiredInput then filter.schemasCompatible requiredInput (getOr manifest.ioSchema "input" (.obj []))
    else .ok true
  if !inputOk then .ok false
  else if truthy requiredOutput then filter.schemasCompatible requiredOutput (getOr manifest.ioSchema "output" (.obj []))
  else .ok true

def filterByIo (need : Dict) (manifests : List AgentManifest) : Except Exn (List AgentManifest) :=
  let requiredInput := getOr need "input_schema" (.obj [])
  let requiredOutput := getOr need "output_schema" (.obj [])
  if !truthy requiredInput && !truthy requiredOutput then .ok manifests
  else keepWhere (filter.ioCompatible requiredInput requiredOutput) manifests

/-- One required constraint of an agent that states a value for it. -/
def meetsConstraint (key : String) (requiredValue agentValue : Json) : Except Exn Bool :=
  if key.startsWith "min_" then (Comparison.less.compare agentValue requiredValue).map (!·)
  else if key.startsWith "max_" then (Comparison.greater.compare agentValue requiredValue).map (!·)
  else if key.startsWith "requires_" then .ok (!(truthy requiredValue && !truthy agentValue))
  else .ok (equal agentValue requiredValue)

/-- The loop over the required constraints of one agent. -/
def meetsAll (manifest : AgentManifest) : Dict → Except Exn Bool
  | [] => .ok true
  | (key, requiredValue) :: rest =>
    match getKey manifest.constraints key with
    | .null => if filter.strictMode then .ok false else meetsAll manifest rest
    | agentValue => do
      let meets ← meetsConstraint key requiredValue agentValue
      if meets then meetsAll manifest rest else .ok false

def filterByConstraints (need : Dict) (manifests : List AgentManifest) : Except Exn (List AgentManifest) :=
  let requiredConstraints := getOr need "constraints" (.obj [])
  if !truthy requiredConstraints then .ok manifests
  else keepWhere (fun manifest => do
    let required ← asDict "items" requiredConstraints
    filter.meetsAll manifest required) manifests

def inZone (preferredZone : Json) (manifest : AgentManifest) : Bool :=
  match manifest.zone with
  | some zone => equal (.str zone) preferredZone
  | none => false

/-- The agents in the preferred zone, or all when there are none. -/
def filterByZone (need : Dict) (manifests : List AgentManifest) : List AgentManifest :=
  let preferredZone := getKey need "zone"
  if !truthy preferredZone then manifests
  else
    let inside := manifests.filter (inZone preferredZone)
    if inside.isEmpty then manifests else inside

/-- `price_per_task <= max_price`. -/
def affordable (maxPrice : Json) (manifest : AgentManifest) : Except Exn Bool :=
  match Number.ofJson? maxPrice with
  | some price => .ok (manifest.pricePerTask.le price)
  | none => .error (.typeError s!"'<=' not supported between instances of 'float' and '{typeName maxPrice}'")

def filterByBudget (need : Dict) (manifests : List AgentManifest) : Except Exn (List AgentManifest) :=
  match getKey need "max_price" with
  | .null => .ok manifests
  | maxPrice => keepWhere (affordable maxPrice) manifests

def filterAll (need : Dict) (manifests : List AgentManifest) : Except Exn (List AgentManifest) := do
  let candidates ← filter.filterByIo need manifests
  let candidates ← filter.filterByConstraints need candidates
  filterByBudget need (filterByZone need candidates)

/-- What an agent that passes all filters has: the I/O, the constraints and the price. -/
structure Qualifies (need : Dict) (manifest : AgentManifest) : Prop where
  io : truthy (getOr need "input_schema" (.obj [])) = true ∨ truthy (getOr need "output_schema" (.obj [])) = true →
    filter.ioCompatible (getOr need "input_schema" (.obj [])) (getOr need "output_schema" (.obj [])) manifest = .ok true
  constraints : truthy (getOr need "constraints" (.obj [])) = true →
    ∃ required, getOr need "constraints" (.obj []) = .obj required ∧ filter.meetsAll manifest required = .ok true
  budget : getKey need "max_price" ≠ .null → affordable (getKey need "max_price") manifest = .ok true

section Sound

variable {filter : CapabilityFilter} {need : Dict} {manifests kept : List AgentManifest} {m : AgentManifest}

theorem filterByIo_sound (h : filter.filterByIo need manifests = .ok kept) (hm : m ∈ kept) :
    m ∈ manifests ∧ (truthy (getOr need "input_schema" (.obj [])) = true ∨ truthy (getOr need "output_schema" (.obj [])) = true →
      filter.ioCompatible (getOr need "input_schema" (.obj [])) (getOr need "output_schema" (.obj [])) m = .ok true) := by
  unfold filterByIo at h
  dsimp only at h
  split at h
  next hnone =>
    cases h
    refine ⟨hm, fun hsome => ?_⟩
    simp only [Bool.and_eq_true, Bool.not_eq_true'] at hnone
    rw [hnone.1, hnone.2] at hsome
    simp at hsome
  next =>
    obtain ⟨hmem, hcheck⟩ := (keepWhere_ok h).1 m hm
    exact ⟨hmem, fun _ => hcheck⟩

theorem filterByConstraints_sound (h : filter.filterByConstraints need manifests = .ok kept) (hm : m ∈ kept) :
    m ∈ manifests ∧ (truthy (getOr need "constraints" (.obj [])) = true →
      ∃ required, getOr need "constraints" (.obj []) = .obj required ∧ filter.meetsAll m required = .ok true) := by
  unfold filterByConstraints at h
  dsimp only at h
  split at h
  next hnone =>
    cases h
    refine ⟨hm, fun hsome => ?_⟩
    rw [hsome] at hnone
    cases hnone
  next =>
    obtain ⟨hmem, hcheck⟩ := (keepWhere_ok h).1 m hm
    refine ⟨hmem, fun _ => ?_⟩
    cases hvalue : getOr need "constraints" (.obj []) with
    | obj required =>
      rw [hvalue] at hcheck
      exact ⟨required, rfl, hcheck⟩
    | _ =>
      rw [hvalue] at hcheck
      cases hcheck

theorem mem_of_filterByZone (hm : m ∈ filterByZone need manifests) : m ∈ manifests := by
  unfold filterByZone at hm
  dsimp only at hm
  split at hm
  · exact hm
  · split at hm
    · exact hm
    · exact List.mem_of_mem_filter hm

theorem filterByBudget_sound (h : filterByBudget need manifests = .ok kept) (hm : m ∈ kept) :
    m ∈ manifests ∧ (getKey need "max_price" ≠ .null → affordable (getKey need "max_price") m = .ok true) := by
  unfold filterByBudget at h
  split at h
  next hnone =>
    cases h
    exact ⟨hm, fun hsome => absurd hnone hsome⟩
  next =>
    obtain ⟨hmem, hcheck⟩ := (keepWhere_ok h).1 m hm
    exact ⟨hmem, fun _ => hcheck⟩

/-- Every agent that passes is one of those given and meets the need. -/
theorem filterAll_sound (h : filter.filterAll need manifests = .ok kept) (hm : m ∈ kept) :
    m ∈ manifests ∧ filter.Qualifies need m := by
  obtain ⟨first, hio, hrest⟩ := Transactional.except_bind_ok.mp h
  obtain ⟨second, hconstraints, hprice⟩ := Transactional.except_bind_ok.mp hrest
  obtain ⟨hzone, hbudget⟩ := filterByBudget_sound hprice hm
  obtain ⟨hfirst, hmeets⟩ := filterByConstraints_sound hconstraints (mem_of_filterByZone hzone)
  obtain ⟨hgiven, hfits⟩ := filterByIo_sound hio hfirst
  exact ⟨hgiven, hfits, hmeets, hbudget⟩

end Sound

end CapabilityFilter

end AgentNetwork.Routing
