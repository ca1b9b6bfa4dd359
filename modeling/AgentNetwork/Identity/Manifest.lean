import AgentNetwork.Identity.Did
import AgentNetwork.Library.PythonBytes
import AgentNetwork.Library.PythonNumber
import AgentNetwork.Policy.Authenticity

/-! Signed manifests of agents: what the signature is made of, and its verification
by the key that the agent's DID resolves to. -/

namespace AgentNetwork.Identity

open Relational Python
open Policy (Dict SameDict sortedStrings Signings)

structure SigningPrimitives extends Primitives where
  b58decode : String → Option (List UInt8)
  sign : List UInt8 → String → List UInt8
  verify : List UInt8 → String → List UInt8 → Bool

/-- A number as JSON text holds it. -/
structure JsonNumber where
  value : Json
  isNumber : (Number.ofJson? value).isSome = true
  wellFormed : Json.wellFormed value = true
  deriving DecidableEq

def JsonNumber.number (n : JsonNumber) : Number := (Number.ofJson? n.value).get n.isNumber

structure AgentManifest where
  agentId : String
  capabilities : List String
  ioSchema : Dict
  pricePerTask : JsonNumber
  avgLatencyMs : Int
  tags : List String
  pubkey : String
  reputation : JsonNumber
  signature : String
  timestampNs : Int
  version : String
  metadata : Dict
  ioSchemaWellFormed : Json.wellFormedFields ioSchema = true
  metadataWellFormed : Json.wellFormedFields metadata = true
  deriving DecidableEq

namespace AgentManifest

/-- What the hash is taken of. -/
def canonical (m : AgentManifest) : Dict :=
  [("agent_id", .str m.agentId),
    ("capabilities", sortedStrings m.capabilities),
    ("io_schema", .obj m.ioSchema),
    ("price_per_task", m.pricePerTask.value),
    ("avg_latency_ms", .int m.avgLatencyMs),
    ("tags", sortedStrings m.tags),
    ("pubkey", .str m.pubkey),
    ("timestamp_ns", .int m.timestampNs),
    ("version", .str m.version)]

def canonicalJson (m : AgentManifest) : String := (Json.obj m.canonical).write Json.sortedStyle

def computeHash (p : SigningPrimitives) (m : AgentManifest) : String := Python.hex (p.sha256 m.canonicalJson)

end AgentManifest

namespace DIDManager

variable (p : SigningPrimitives)

/-- The document of a `did:key`; `none` for what cannot be decoded. -/
def didKeyDocument (did : String) : Option DIDDocument :=
  match (did.splitOn "did:key:")[1]?.map String.toList with
  | some ('z' :: encoded) =>
    ((p.b58decode (String.ofList encoded)).filter fun multikey => multikey.take 2 = [0xed, 0x01]).map fun multikey =>
      documentOf p.toPrimitives did (multikey.drop 2)
  | _ => none

/-- A document that was found is cached. -/
def remember (did : String) (doc : Option DIDDocument) (m : DIDManager) : Option DIDDocument × DIDManager :=
  match doc with
  | some doc => (some doc, { m with didCache := m.didCache.upsert did doc })
  | none => (none, m)

def resolveDidKey (did : String) (m : DIDManager) : Option DIDDocument × DIDManager :=
  m.remember did (didKeyDocument p did)

/-- `_resolve_did_peer`: a document without a key. -/
def resolveDidPeer (did : String) (m : DIDManager) : Option DIDDocument × DIDManager :=
  m.remember did (some ⟨did, "", none, []⟩)

def resolveDid (did : String) (m : DIDManager) : Option DIDDocument × DIDManager :=
  match m.didCache.get? did with
  | some doc => (some doc, m)
  | none =>
    if "did:key:".toList.isPrefixOf did.toList then resolveDidKey p did m
    else if "did:peer:".toList.isPrefixOf did.toList then resolveDidPeer did m
    else (none, m)

/-- `sign_with_did`; `none` for a DID without a signing key. -/
def signWithDid (data did : String) (m : DIDManager) : Option (List UInt8) :=
  (m.signingKeys.get? did).map fun seed => p.sign seed data

/-- The key of a document. -/
def verifyKey (doc : DIDDocument) : Option (List UInt8) :=
  if doc.publicKey = "" then none else (p.b58decode doc.publicKey).filter fun key => key.length = 32

def verifyDidSignature (data : String) (signature : List UInt8) (did : String) (m : DIDManager) : Bool × DIDManager :=
  let (doc, m) := resolveDid p did m
  match doc.bind (verifyKey p) with
  | some key => (decide (signature.length = 64) && p.verify key data signature, m)
  | none => (false, m)

end DIDManager

namespace ManifestManager

variable (p : SigningPrimitives)

/-- `sign_manifest`. -/
def signManifest (manifest : AgentManifest) (agentDid : Option String) (dids : DIDManager) :
    Except ValueError AgentManifest :=
  let did := (agentDid.filter (· ≠ "")).getD manifest.agentId
  match (dids.signWithDid p (manifest.computeHash p) did).filter (· ≠ []) with
  | some signature => .ok { manifest with signature := Python.hex signature }
  | none => .error ⟨"Failed to sign manifest with DID: " ++ did⟩

/-- `verify_manifest`; the DIDs that are resolved are cached. -/
def verifyManifest (manifest : AgentManifest) (dids : DIDManager) : Bool × DIDManager :=
  if manifest.signature = "" then (false, dids)
  else
    match Python.fromHex manifest.signature with
    | some signature => dids.verifyDidSignature p (manifest.computeHash p) signature manifest.agentId
    | none => (false, dids)

end ManifestManager

section Canonical

variable {m m' : AgentManifest}

theorem sorted_sortedStrings (l : List String) : (sortedStrings l).sorted = sortedStrings l := by
  have hitems : ∀ texts : List String, Json.sortedItems (texts.map Json.str) = texts.map Json.str := by
    intro texts
    induction texts with
    | nil => rfl
    | cons text rest ih => simp only [List.map_cons, Json.sortedItems, Json.sorted, ih]
  rw [sortedStrings, Json.sorted, hitems]

theorem sortedStrings_eq_iff {l l' : List String} : sortedStrings l = sortedStrings l' ↔ l.Perm l' := by
  have hstr : Function.Injective Json.str := fun a b h => Json.str.inj h
  constructor
  · intro h
    have hsorted := List.map_injective_iff.mpr hstr (Json.arr.inj h)
    exact (List.perm_insertionSort _ l).symm.trans (hsorted ▸ List.perm_insertionSort _ l')
  · intro h
    have hperm := ((List.perm_insertionSort (fun a b : String => a ≤ b) l).trans h).trans
      (List.perm_insertionSort (fun a b : String => a ≤ b) l').symm
    have hsorted := hperm.eq_of_pairwise (fun a b _ _ hab hba => le_antisymm hab hba)
      (List.pairwise_insertionSort _ l) (List.pairwise_insertionSort _ l')
    rw [sortedStrings, sortedStrings, hsorted]

theorem wellFormed_sortedStrings (l : List String) : Json.wellFormed (sortedStrings l) = true := by
  have hitems : ∀ texts : List String, Json.wellFormedItems (texts.map Json.str) = true := by
    intro texts
    induction texts with
    | nil => rfl
    | cons text rest ih => simp only [List.map_cons, Json.wellFormedItems, Json.wellFormed, ih, Bool.and_self]
  exact hitems _

theorem JsonNumber.sorted_value (n : JsonNumber) : n.value.sorted = n.value := by
  obtain ⟨value, hnumber, _⟩ := n
  cases value with
  | null | bool | int | float | str => rfl
  | arr | obj => cases hnumber

theorem AgentManifest.canonical_wellFormed (m : AgentManifest) : Json.wellFormedFields m.canonical = true := by
  have hkeys : ["agent_id", "capabilities", "io_schema", "price_per_task", "avg_latency_ms", "tags", "pubkey", "timestamp_ns",
    "version"].Nodup := by decide
  refine Json.wellFormedFields_iff.mpr ⟨hkeys, ?_⟩
  simp only [canonical, List.forall_mem_cons, List.not_mem_nil, false_imp_iff, implies_true, and_true]
  exact ⟨rfl, wellFormed_sortedStrings _, m.ioSchemaWellFormed, m.pricePerTask.wellFormed, rfl,
    wellFormed_sortedStrings _, rfl, rfl, rfl⟩

/-- The fields that the signature covers agree, capabilities and tags in any order. -/
structure AgentManifest.SameCovered (m m' : AgentManifest) : Prop where
  agentId : m.agentId = m'.agentId
  capabilities : m.capabilities.Perm m'.capabilities
  ioSchema : SameDict m.ioSchema m'.ioSchema
  pricePerTask : m.pricePerTask = m'.pricePerTask
  avgLatencyMs : m.avgLatencyMs = m'.avgLatencyMs
  tags : m.tags.Perm m'.tags
  pubkey : m.pubkey = m'.pubkey
  timestampNs : m.timestampNs = m'.timestampNs
  version : m.version = m'.version

/-- What is left besides the signature. -/
structure AgentManifest.SameUncovered (m m' : AgentManifest) : Prop where
  reputation : m.reputation = m'.reputation
  metadata : SameDict m.metadata m'.metadata

/-- The manifests agree in every field other than the signature. -/
def AgentManifest.Agree (m m' : AgentManifest) : Prop := m.SameCovered m' ∧ m.SameUncovered m'

theorem JsonNumber.ext_value {a b : JsonNumber} (h : a.value = b.value) : a = b := by
  cases a
  cases b
  cases h
  rfl

theorem sortedStyle_loads (fields : Dict) (h : Json.wellFormedFields fields = true) :
    Json.loads ((Json.obj fields).write Json.sortedStyle) = some (Json.obj fields).sorted :=
  Json.loads_write_sorted Json.defaultStyle_readable (.obj fields) h

theorem AgentManifest.SameCovered.of_sameDict (h : SameDict m.canonical m'.canonical) : m.SameCovered m' := by
  have hnodup : (m'.canonical.map Prod.fst).Nodup := (Json.wellFormedFields_iff.mp m'.canonical_wellFormed).1
  have hfield : ∀ key value value', m.canonical.lookup key = some value → m'.canonical.lookup key = some value' →
      value.sorted = value'.sorted := by
    intro key value value' hv hv'
    have hlookup := h.lookup hnodup key
    rw [hv, hv'] at hlookup
    exact Option.some.inj hlookup
  have hcapabilities := hfield "capabilities" _ _ rfl rfl
  have htags := hfield "tags" _ _ rfl rfl
  have hprice := hfield "price_per_task" _ _ rfl rfl
  rw [sorted_sortedStrings, sorted_sortedStrings] at hcapabilities htags
  rw [JsonNumber.sorted_value, JsonNumber.sorted_value] at hprice
  constructor
  · exact Json.str.inj (hfield "agent_id" _ _ rfl rfl)
  · exact sortedStrings_eq_iff.mp hcapabilities
  · exact hfield "io_schema" _ _ rfl rfl
  · exact JsonNumber.ext_value hprice
  · exact Json.int.inj (hfield "avg_latency_ms" _ _ rfl rfl)
  · exact sortedStrings_eq_iff.mp htags
  · exact Json.str.inj (hfield "pubkey" _ _ rfl rfl)
  · exact Json.int.inj (hfield "timestamp_ns" _ _ rfl rfl)
  · exact Json.str.inj (hfield "version" _ _ rfl rfl)

theorem AgentManifest.SameCovered.sameDict (h : m.SameCovered m') : SameDict m.canonical m'.canonical := by
  have hschema : (Json.obj m.ioSchema).sorted = (Json.obj m'.ioSchema).sorted := h.ioSchema
  have hfields : Json.sortedFields m.canonical = Json.sortedFields m'.canonical := by
    simp only [AgentManifest.canonical, Json.sortedFields, hschema, h.agentId, h.pricePerTask, h.avgLatencyMs, h.pubkey,
      h.timestampNs, h.version, sortedStrings_eq_iff.mpr h.capabilities, sortedStrings_eq_iff.mpr h.tags]
  rw [SameDict, Json.sorted, Json.sorted, hfields]

/-- The text that is hashed says just what the covered fields are. -/
theorem canonicalJson_eq_iff : m.canonicalJson = m'.canonicalJson ↔ m.SameCovered m' := by
  constructor
  · intro h
    have hread := sortedStyle_loads _ m.canonical_wellFormed
    have hread' := sortedStyle_loads _ m'.canonical_wellFormed
    rw [AgentManifest.canonicalJson, AgentManifest.canonicalJson] at h
    rw [h, hread'] at hread
    exact .of_sameDict (Option.some.inj hread).symm
  · intro h
    have hsorted : (Json.obj m.canonical).sorted = (Json.obj m'.canonical).sorted := h.sameDict
    rw [AgentManifest.canonicalJson, AgentManifest.canonicalJson, Json.write, Json.write, Json.sortedStyle,
      Json.encode_sorted, Json.encode_sorted, hsorted]

end Canonical

section Verified

variable (p : SigningPrimitives)

/-- The key that a DID resolves to. -/
def DIDManager.keyOf (did : String) (m : DIDManager) : Option (List UInt8) := (m.resolveDid p did).1.bind (verifyKey p)

theorem ManifestManager.verifyManifest_iff {manifest : AgentManifest} {dids : DIDManager} :
    (verifyManifest p manifest dids).1 = true ↔ manifest.signature ≠ "" ∧
      ∃ signature key, Python.fromHex manifest.signature = some signature ∧ dids.keyOf p manifest.agentId = some key ∧
        signature.length = 64 ∧ p.verify key (manifest.computeHash p) signature = true := by
  unfold verifyManifest DIDManager.keyOf
  by_cases hempty : manifest.signature = ""
  · simp [hempty]
  · cases hsignature : Python.fromHex manifest.signature with
    | none => simp [hempty]
    | some signature =>
      cases hkey : (dids.resolveDid p manifest.agentId).1.bind (DIDManager.verifyKey p) <;>
        simp [hempty, DIDManager.verifyDidSignature, hkey]

end Verified

end AgentNetwork.Identity
