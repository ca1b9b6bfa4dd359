import Mathlib.Data.List.ReduceOption
import AgentNetwork.Library.ContentStore
import AgentNetwork.Library.PythonBytes
import AgentNetwork.Library.PythonValues
import AgentNetwork.Policy.Authenticity

/-! Threads as directed graphs of linked envelopes in a content store: written,
and read back. -/

namespace AgentNetwork.Cas

open Policy

/-- A content store as the code calls it: the id that `put` returns, and the place an
id names. For files they are the digest and the file under the base path. -/
structure CasStore (Place : Type) where
  cid : List UInt8 → String
  place : String → Place
  collisionFree : Function.Injective fun data => place (cid data)

namespace CasStore

variable {Place : Type} (store : CasStore Place)

def addressing : Addressing (List UInt8) Place := ⟨fun data => store.place (store.cid data), store.collisionFree⟩

abbrev Contents := store.addressing.Store

variable {store}

/-- `get`; `none` where it raises, as on what is no text. -/
def get (s : store.Contents) : Json → Option (List UInt8)
  | .str id => s.at? (store.place id)
  | .null | .bool _ | .int _ | .float _ | .arr _ | .obj _ => none

end CasStore

/-- `json.dumps(value, sort_keys=True).encode("utf-8")`. -/
def dumps (value : Json) : List UInt8 := Python.encodeUtf8 (value.write Json.sortedStyle)

/-- `json.loads(data.decode("utf-8"))`; `none` where it raises. -/
def loads (data : List UInt8) : Option Json := (Python.decodeUtf8 data).bind Json.loads

/-- What a field of a reconstructed envelope holds. -/
inductive Content
  | json (value : Json)
  | bytes (data : List UInt8)
  deriving DecidableEq

/-- The format `{"/": cid}`. -/
def link (cid : Json) : Json := .obj [("/", cid)]

/-- The entry of a dictionary that looks like a link. -/
def getCidFromLink : Json → Option Json
  | .obj fields => fields.lookup "/"
  | .null | .bool _ | .int _ | .float _ | .str _ | .arr _ => none

def basicFields : List String :=
  ["v", "id", "thread_id", "kind", "lamport", "ts_ns", "sender_pk_b64", "policy_engine_hash", "nonce", "sig_pk_b64", "sig_b64"]

def optionalPolicyFields : List String := ["policy_capsule_hash", "policy_eval_digest"]

/-- The fields of the envelope with these keys, in the order of the keys. -/
def copyFields (envelope : Dict) (keys : List String) : Dict :=
  keys.filterMap fun key => (envelope.lookup key).map fun value => (key, value)

section Format

variable {Place : Type} [DecidableEq Place] {store : CasStore Place}

/-- The payload as `to_ipld` writes it, and the store after that. -/
def linkPayload (casStore : Option store.Contents) (envelope : Dict) : Dict × Option store.Contents :=
  match envelope.lookup "payload" with
  | none => ([], casStore)
  | some payload =>
    match casStore, payload with
    | some s, .obj fields =>
      let payloadBytes := dumps (.obj fields)
      ([("payload", link (.str (store.cid payloadBytes)))], some (s.put payloadBytes))
    | casStore, payload => ([("payload", payload)], casStore)

def toIpld (casStore : Option store.Contents) (envelope : Dict) : Dict × Option store.Contents :=
  let (payload, casStore) := linkPayload casStore envelope
  (copyFields envelope basicFields ++ payload ++ copyFields envelope ["payload_hash"] ++
    copyFields envelope optionalPolicyFields, casStore)

/-- A field of `from_ipld`: a link that cannot be resolved is kept. -/
def resolveField (casStore : Option store.Contents) (key : String) (value : Json) : Content :=
  match getCidFromLink value with
  | none => .json value
  | some cid =>
    match casStore.bind fun s => CasStore.get s cid with
    | none => .json value
    | some contentBytes => if key = "payload" then .json ((loads contentBytes).getD value) else .bytes contentBytes

def fromIpld (casStore : Option store.Contents) (ipldData : Dict) : List (String × Content) :=
  ipldData.map fun field => (field.1, resolveField casStore field.1 field.2)

/-- The entry of an envelope in the graph before it is made a link: the id of what
is stored, or the IPLD form itself. -/
def storeEnvelope (casStore : Option store.Contents) (envelope : Dict) : Json × Option store.Contents :=
  let (ipldEnvelope, casStore) := toIpld casStore envelope
  match casStore with
  | some s => (.str (store.cid (dumps (.obj ipldEnvelope))), some (s.put (dumps (.obj ipldEnvelope))))
  | none => (.obj ipldEnvelope, none)

def storeEnvelopes (casStore : Option store.Contents) : List Dict → List Json × Option store.Contents
  | [] => ([], casStore)
  | envelope :: rest =>
    let (envelopeCid, casStore) := storeEnvelope casStore envelope
    let (envelopeCids, casStore) := storeEnvelopes casStore rest
    (envelopeCid :: envelopeCids, casStore)

/-- `{"/": cid} if isinstance(cid, str) else cid`. -/
def envelopeLink (cid : Json) : Json :=
  match cid with
  | .str _ => link cid
  | .null | .bool _ | .int _ | .float _ | .arr _ | .obj _ => cid

def envelopesToDag (casStore : Option store.Contents) (envelopes : List Dict) (threadId : String) :
    Dict × Option store.Contents :=
  let (envelopeCids, casStore) := storeEnvelopes casStore envelopes
  ([("thread_id", .str threadId), ("envelope_count", .int envelopes.length),
    ("envelopes", .arr (envelopeCids.map envelopeLink)), ("version", .str "1.0")], casStore)

/-- An entry of the graph read back: `none` where that fails and is logged. Only an
entry that is no dictionary raises. -/
def readEnvelope (casStore : Option store.Contents) (entry : Json) : Except Python.Exn (Option (List (String × Content))) :=
  match getCidFromLink entry with
  | some cid =>
    .ok do
      let s ← casStore
      let envelopeBytes ← CasStore.get s cid
      match ← loads envelopeBytes with
      | .obj ipldEnvelope => some (fromIpld casStore ipldEnvelope)
      | _ => none
  | none => (Python.asDict "items" entry).map fun ipldData => some (fromIpld casStore ipldData)

def dagToEnvelopes (casStore : Option store.Contents) (threadDag : Dict) : Except Python.Exn (List (List (String × Content))) := do
  let entries ← Python.iterate (getOr threadDag "envelopes" (.arr []))
  let envelopes ← entries.mapM (readEnvelope casStore)
  .ok envelopes.reduceOption

end Format

/-- Every key that `to_ipld` looks at. -/
def ipldFields : List String := basicFields ++ ["payload"] ++ ["payload_hash"] ++ optionalPolicyFields

section Stored

variable {Place : Type} (store : CasStore Place)

/-- The value of a field in the IPLD form: a payload that is a dictionary is linked. -/
def ipldValue (key : String) (value : Json) : Json :=
  if key = "payload" then
    match value with
    | .obj fields => link (.str (store.cid (dumps (.obj fields))))
    | .null | .bool _ | .int _ | .float _ | .str _ | .arr _ => value
  else value

def ipldForm (envelope : Dict) : Dict :=
  (copyFields envelope ipldFields).map fun field => (field.1, ipldValue store field.1 field.2)

def payloadContents (envelope : Dict) : List (List UInt8) :=
  match envelope.lookup "payload" with
  | some (.obj fields) => [dumps (.obj fields)]
  | _ => []

/-- What is stored of an envelope: its payload, then its IPLD form. -/
def envelopeContents (envelope : Dict) : List (List UInt8) :=
  payloadContents envelope ++ [dumps (.obj (ipldForm store envelope))]

def threadContents (envelopes : List Dict) : List (List UInt8) := envelopes.flatMap (envelopeContents store)

end Stored

section Forms

variable {Place : Type} {store : CasStore Place}

theorem copyFields_append (envelope : Dict) (keys more : List String) :
    copyFields envelope (keys ++ more) = copyFields envelope keys ++ copyFields envelope more := List.filterMap_append

theorem mem_copyFields {envelope : Dict} {keys : List String} {field : String × Json} :
    field ∈ copyFields envelope keys ↔ field.1 ∈ keys ∧ envelope.lookup field.1 = some field.2 := by
  obtain ⟨key, value⟩ := field
  simp only [copyFields, List.mem_filterMap, Option.map_eq_some_iff, Prod.mk.injEq]
  constructor
  · rintro ⟨k, hk, v, hv, rfl, rfl⟩
    exact ⟨hk, hv⟩
  · rintro ⟨hk, hv⟩
    exact ⟨key, hk, value, hv, rfl, rfl⟩

theorem ipldValue_of_ne {key : String} (h : key ≠ "payload") (value : Json) : ipldValue store key value = value := if_neg h

/-- Fields other than the payload are in the IPLD form as they are. -/
theorem map_ipldValue_copyFields (envelope : Dict) {keys : List String} (h : "payload" ∉ keys) :
    (copyFields envelope keys).map (fun field => (field.1, ipldValue store field.1 field.2)) = copyFields envelope keys := by
  refine (List.map_congr_left ?_).trans (List.map_id _)
  intro field hfield
  have hkey : field.1 ≠ "payload" := by
    intro he
    exact h (he ▸ (mem_copyFields.mp hfield).1)
  rw [ipldValue_of_ne hkey]
  rfl

theorem ipldForm_eq (envelope : Dict) : ipldForm store envelope =
    copyFields envelope basicFields ++ (copyFields envelope ["payload"]).map (fun field => (field.1, ipldValue store field.1 field.2)) ++
      copyFields envelope ["payload_hash"] ++ copyFields envelope optionalPolicyFields := by
  have hbasic : "payload" ∉ basicFields := by decide
  have hhash : "payload" ∉ ["payload_hash"] := by decide
  have hpolicy : "payload" ∉ optionalPolicyFields := by decide
  rw [ipldForm, ipldFields, copyFields_append, copyFields_append, copyFields_append, List.map_append, List.map_append,
    List.map_append, map_ipldValue_copyFields envelope hbasic, map_ipldValue_copyFields envelope hhash,
    map_ipldValue_copyFields envelope hpolicy]

theorem get_cid {t : store.Contents} {data : List UInt8} (h : t.at? (store.addressing.home data) = some data) :
    CasStore.get t (.str (store.cid data)) = some data := h

theorem keys_copyFields_sublist (envelope : Dict) (keys : List String) :
    ((copyFields envelope keys).map Prod.fst).Sublist keys := by
  induction keys with
  | nil => exact .slnil
  | cons key rest ih =>
    have hcons : copyFields envelope (key :: rest) =
        ((envelope.lookup key).map fun value => (key, value)).toList ++ copyFields envelope rest := by
      rw [copyFields, List.filterMap_cons]
      cases envelope.lookup key <;> rfl
    rw [hcons]
    cases envelope.lookup key with
    | none => exact ih.cons key
    | some value => exact ih.cons_cons key

theorem ipldFields_nodup : ipldFields.Nodup := by decide

theorem keys_ipldForm (envelope : Dict) : (ipldForm store envelope).map Prod.fst = (copyFields envelope ipldFields).map Prod.fst := by
  rw [ipldForm, List.map_map]
  rfl

theorem wellFormed_ipldValue (key : String) {value : Json} (h : value.wellFormed = true) :
    (ipldValue store key value).wellFormed = true := by
  unfold ipldValue
  split
  next =>
    cases value with
    | obj => rfl
    | null | bool | int | float | str | arr => exact h
  next => exact h

theorem wellFormed_ipldForm {envelope : Dict} (hw : Json.wellFormedFields envelope = true) :
    Json.wellFormed (.obj (ipldForm store envelope)) = true := by
  obtain ⟨hnodup, hvalues⟩ := Json.wellFormedFields_iff.mp hw
  refine Json.wellFormedFields_iff.mpr ⟨?_, ?_⟩
  · rw [keys_ipldForm]
    exact ipldFields_nodup.sublist (keys_copyFields_sublist envelope ipldFields)
  · intro field hfield
    obtain ⟨source, hsource, rfl⟩ := List.mem_map.mp hfield
    have hmem := (Relational.Table.lookup_eq_some_iff_mem hnodup).mp (mem_copyFields.mp hsource).2
    exact wellFormed_ipldValue source.1 (hvalues _ hmem)

end Forms

section Writing

variable {Place : Type} [DecidableEq Place] {store : CasStore Place}

theorem linkPayload_some (s : store.Contents) (envelope : Dict) : linkPayload (some s) envelope =
    ((copyFields envelope ["payload"]).map (fun field => (field.1, ipldValue store field.1 field.2)),
      some (s.putAll (payloadContents envelope))) := by
  unfold linkPayload payloadContents
  have hcopy : copyFields envelope ["payload"] =
      ((envelope.lookup "payload").map fun value => ("payload", value)).toList := by
    rw [copyFields, List.filterMap_cons]
    cases envelope.lookup "payload" <;> rfl
  rw [hcopy]
  cases envelope.lookup "payload" with
  | none => rfl
  | some payload => cases payload <;> rfl

theorem toIpld_some (s : store.Contents) (envelope : Dict) :
    toIpld (some s) envelope = (ipldForm store envelope, some (s.putAll (payloadContents envelope))) := by
  rw [toIpld, linkPayload_some, ipldForm_eq]

theorem storeEnvelope_some (s : store.Contents) (envelope : Dict) : storeEnvelope (some s) envelope =
    (.str (store.cid (dumps (.obj (ipldForm store envelope)))), some (s.putAll (envelopeContents store envelope))) := by
  rw [storeEnvelope, toIpld_some, envelopeContents, Addressing.Store.putAll_append]
  rfl

theorem storeEnvelopes_some (s : store.Contents) (envelopes : List Dict) : storeEnvelopes (some s) envelopes =
    (envelopes.map fun envelope => .str (store.cid (dumps (.obj (ipldForm store envelope)))),
      some (s.putAll (threadContents store envelopes))) := by
  induction envelopes generalizing s with
  | nil => rfl
  | cons envelope rest ih =>
    have hcontents : threadContents store (envelope :: rest) =
        envelopeContents store envelope ++ threadContents store rest := List.flatMap_cons
    rw [storeEnvelopes, storeEnvelope_some]
    dsimp only
    rw [ih, hcontents, Addressing.Store.putAll_append]
    rfl

/-- The graph of a thread: a link to each stored envelope. -/
def threadDag (store : CasStore Place) (envelopes : List Dict) (threadId : String) : Dict :=
  [("thread_id", .str threadId), ("envelope_count", .int envelopes.length),
    ("envelopes", .arr ((envelopes.map fun envelope =>
      .str (store.cid (dumps (.obj (ipldForm store envelope))))).map envelopeLink)), ("version", .str "1.0")]

theorem envelopesToDag_some (s : store.Contents) (envelopes : List Dict) (threadId : String) :
    envelopesToDag (some s) envelopes threadId =
      (threadDag store envelopes threadId, some (s.putAll (threadContents store envelopes))) := by
  rw [envelopesToDag, storeEnvelopes_some]
  rfl

end Writing

section Reading

variable {Place : Type} {store : CasStore Place}

theorem loads_dumps {value : Json} (h : value.wellFormed = true) : loads (dumps value) = some value.sorted := by
  rw [loads, dumps, Python.decodeUtf8_encodeUtf8]
  exact Json.loads_write_sorted Json.defaultStyle_readable value h

/-- An envelope read back from where it was stored. -/
def readBack (t : store.Contents) (envelope : Dict) : List (String × Content) :=
  fromIpld (some t) (Json.sortFields (Json.sortedFields (ipldForm store envelope)))

theorem readEnvelope_link {t : store.Contents} {envelope : Dict} (hw : Json.wellFormedFields envelope = true)
    (h : ∀ data ∈ envelopeContents store envelope, t.at? (store.addressing.home data) = some data) :
    readEnvelope (some t) (envelopeLink (.str (store.cid (dumps (.obj (ipldForm store envelope)))))) =
      .ok (some (readBack t envelope)) := by
  have hlink : getCidFromLink (envelopeLink (.str (store.cid (dumps (.obj (ipldForm store envelope)))))) =
      some (.str (store.cid (dumps (.obj (ipldForm store envelope))))) := rfl
  have hget := get_cid (h _ (List.mem_append_right _ (List.mem_singleton_self _)))
  have hloads := loads_dumps (@wellFormed_ipldForm _ store _ hw)
  simp only [readEnvelope, hlink, Option.bind_eq_bind, Option.bind_some, hget, hloads]
  rfl

end Reading

section Thread

variable {Place : Type} [DecidableEq Place] {store : CasStore Place}

/-- The graph reads back as one envelope for each that was written, in their order. -/
theorem dagToEnvelopes_envelopesToDag (s : store.Contents) {envelopes : List Dict} (threadId : String)
    (hw : ∀ envelope ∈ envelopes, Json.wellFormedFields envelope = true) :
    dagToEnvelopes (envelopesToDag (some s) envelopes threadId).2 (envelopesToDag (some s) envelopes threadId).1 =
      .ok (envelopes.map (readBack (s.putAll (threadContents store envelopes)))) := by
  have hread : ∀ envelope ∈ envelopes, readEnvelope (some (s.putAll (threadContents store envelopes)))
      (envelopeLink (.str (store.cid (dumps (.obj (ipldForm store envelope)))))) =
        .ok (some (readBack (s.putAll (threadContents store envelopes)) envelope)) := by
    intro envelope henvelope
    refine readEnvelope_link (hw envelope henvelope) ?_
    intro data hdata
    exact Addressing.Store.at?_putAll_home (List.mem_flatMap.mpr ⟨envelope, henvelope, hdata⟩)
  have hentries : ((envelopes.map fun envelope =>
      Json.str (store.cid (dumps (.obj (ipldForm store envelope))))).map envelopeLink).mapM
        (readEnvelope (some (s.putAll (threadContents store envelopes)))) =
      .ok (envelopes.map fun envelope => some (readBack (s.putAll (threadContents store envelopes)) envelope)) := by
    rw [List.map_map, List.mapM_map]
    exact Python.mapM_ok hread
  rw [envelopesToDag_some]
  have hget : getOr (threadDag store envelopes threadId) "envelopes" (.arr []) =
      .arr ((envelopes.map fun envelope => .str (store.cid (dumps (.obj (ipldForm store envelope))))).map envelopeLink) := by
    simp [getOr, threadDag, List.lookup_cons]
  rw [dagToEnvelopes, hget]
  simp only [Python.iterate, bind, Except.bind, hentries]
  have hpresent : ∀ l : List (List (String × Content)), (l.map some).reduceOption = l := by
    intro l
    induction l with
    | nil => rfl
    | cons a l ih => rw [List.map_cons, List.reduceOption_cons_of_some, ih]
  rw [← hpresent (envelopes.map (readBack (s.putAll (threadContents store envelopes)))), List.map_map]
  rfl

end Thread

end AgentNetwork.Cas
