import AgentNetwork.Library.JsonSorted
import AgentNetwork.Library.PythonEquality
import AgentNetwork.Library.Table
import AgentNetwork.Policy.Engine

/-! Policy capsules: how they are made, signed, sent, and taken in after conformance checks. -/

namespace AgentNetwork.Policy.Capsules

open Python Relational

/-- A policy distribution unit; what was read from JSON may hold any values. -/
structure PolicyCapsule where
  policyEngineHash : Json
  policySchemaVersion : Json
  conformanceVector : Json
  signature : Json
  metadata : Json
  deriving DecidableEq

inductive CapsuleError
  | decodeError
  | raised (e : Exn)
  deriving DecidableEq

namespace PolicyCapsule

def toDict (c : PolicyCapsule) : Dict :=
  [("policy_engine_hash", c.policyEngineHash), ("policy_schema_version", c.policySchemaVersion),
    ("conformance_vector", c.conformanceVector), ("signature", c.signature), ("metadata", c.metadata)]

def toJson (c : PolicyCapsule) : String := (Json.obj c.toDict).write Json.sortedStyle

def requiredArguments : List String := ["policy_engine_hash", "policy_schema_version", "conformance_vector"]

/-- The names of missing arguments, as a `TypeError` lists them. -/
def listed : List String → String
  | [] => ""
  | [a] => "'" ++ a ++ "'"
  | [a, b] => "'" ++ a ++ "' and '" ++ b ++ "'"
  | names => ", ".intercalate (names.dropLast.map fun a => "'" ++ a ++ "'") ++ ", and '" ++ names.getLast?.getD "" ++ "'"

def missingArguments (missing : List String) : String :=
  "PolicyCapsule.__init__() missing " ++ toString missing.length ++ " required positional argument" ++
    (if missing.length = 1 then "" else "s") ++ ": " ++ listed missing

/-- `cls(**data)`. -/
def fromDict (data : Json) : Except CapsuleError PolicyCapsule :=
  match data with
  | .obj fields =>
    match fields.find? fun field => field.1 ∉ requiredArguments ++ ["signature", "metadata"] with
    | some field =>
      .error (.raised (.typeError ("PolicyCapsule.__init__() got an unexpected keyword argument '" ++ field.1 ++ "'")))
    | none =>
      match fields.lookup "policy_engine_hash", fields.lookup "policy_schema_version", fields.lookup "conformance_vector" with
      | some hash, some version, some vector => .ok ⟨hash, version, vector, getKey fields "signature", getKey fields "metadata"⟩
      | _, _, _ =>
        let missing := requiredArguments.filter fun name => (fields.lookup name).isNone
        .error (.raised (.typeError (missingArguments missing)))
  | value =>
    .error (.raised (.typeError ("policy.capsule.PolicyCapsule() argument after ** must be a mapping, not " ++ typeName value)))

/-- `from_json`. -/
def fromJson (text : String) : Except CapsuleError PolicyCapsule :=
  match Json.loads text with
  | none => .error .decodeError
  | some data => fromDict data

/-- `self.metadata or {}`. -/
def metadataOrEmpty (c : PolicyCapsule) : Json := if Python.truthy c.metadata then c.metadata else .obj []

/-- The data that is signed: all but the signature. -/
def unsignedData (c : PolicyCapsule) (vector : List Json) : Dict :=
  [("policy_engine_hash", c.policyEngineHash), ("policy_schema_version", c.policySchemaVersion),
    ("conformance_vector", .arr vector), ("metadata", c.metadataOrEmpty)]

/-- `get_canonical_bytes`, which are ASCII. -/
def getCanonicalBytes (c : PolicyCapsule) : Except Exn String := do
  let tests ← iterate c.conformanceVector
  let vector ← sortValues tests
  .ok ((Json.obj (c.unsignedData vector)).write Json.sortedStyle)

end PolicyCapsule

/-- What a key adds to the bytes; none and an empty one add nothing. -/
def keyText (key : Option String) : String := key.getD ""

/-- `sign_capsule`. -/
def signCapsule (sha256Hex : String → String) (c : PolicyCapsule) (signerKey : Option String) : Except Exn PolicyCapsule := do
  let canonical ← c.getCanonicalBytes
  .ok { c with signature := .str (sha256Hex (canonical ++ keyText signerKey)) }

/-- `policy_engine_hash[:16]` of a log message. -/
def loggedHash : Json → Except Exn Unit
  | .str _ | .arr _ => .ok ()
  | .obj _ => .error (.typeError "unhashable type: 'slice'")
  | value => .error (.typeError ("'" ++ typeName value ++ "' object is not subscriptable"))

/-- `verify_capsule`. -/
def verifyCapsule (sha256Hex : String → String) (c : PolicyCapsule) (expectedSignerKey : Option String) : Except Exn Bool :=
  if ¬Python.truthy c.signature then .ok false
  else do
    let canonical ← c.getCanonicalBytes
    let isValid := equal (.str (sha256Hex (canonical ++ keyText expectedSignerKey))) c.signature
    loggedHash c.policyEngineHash
    .ok isValid

/-- `create_capsule`; `wasm` is the content of a file that is there. -/
def createCapsule (sha256Hex : String → String) (sha256Bytes : List UInt8 → String) (wasm : Option (List UInt8))
    (testsPassed : List String) (schemaVersion : String) (metadata : Option Dict) : PolicyCapsule :=
  let policyHash := match wasm with
    | some bytes => sha256Bytes bytes
    | none => sha256Hex ((Json.obj [("allowed_kinds", sortedStrings allowedKinds), ("max_payload_size", .int maxPayloadSize),
        ("required_fields", sortedStrings requiredFields), ("version", .str schemaVersion)]).write Json.sortedStyle)
  ⟨.str policyHash, .str schemaVersion, sortedStrings testsPassed, .null, .obj (metadata.getD [])⟩

def requiredTests : List String :=
  ["test_valid_message_kinds", "test_payload_size_limits", "test_required_fields", "test_signature_validation",
    "test_lamport_ordering"]

def optionalTests : List String := ["test_gas_metering", "test_resource_limits", "test_policy_versioning"]

/-- A policy runtime: its `evaluate`, and whether it shows an engine or its info. -/
structure Runtime where
  evaluate : Engine
  hasEngine : Bool
  hasRuntimeInfo : Bool

def testEnvelope (kind : String) (lamport : Int) (actorId : String) (payloadSize : Int) : Dict :=
  [("kind", .str kind), ("thread_id", .str "t1"), ("lamport", .int lamport), ("actor_id", .str actorId),
    ("payload_size", .int payloadSize)]

/-- The first envelope is allowed and the second is not. -/
def tellsApart (runtime : Runtime) (good bad : Dict) : Except String Bool := do
  let result ← runtime.evaluate good
  if ¬result.allowed then .ok false
  else
    let result ← runtime.evaluate bad
    .ok !result.allowed

/-- `_run_test`. -/
def runTest (testId : String) (runtime : Runtime) : Except String Bool :=
  if testId = "test_valid_message_kinds" then
    tellsApart runtime (testEnvelope "NEED" 1 "a1" 100) (testEnvelope "INVALID_KIND" 1 "a1" 100)
  else if testId = "test_payload_size_limits" then
    tellsApart runtime (testEnvelope "PROPOSE" 2 "a2" 1000) (testEnvelope "PROPOSE" 2 "a2" 2000000)
  else if testId = "test_required_fields" then do
    let result ← runtime.evaluate [("kind", .str "COMMIT"), ("thread_id", .str "t1"), ("payload_size", .int 100)]
    .ok !result.allowed
  else if testId = "test_signature_validation" then .ok true
  else if testId = "test_lamport_ordering" then .ok true
  else if testId = "test_gas_metering" then do
    let result ← runtime.evaluate (testEnvelope "DECIDE" 5 "a5" 500)
    .ok (decide (0 < result.gasUsed))
  else if testId = "test_resource_limits" then .ok true
  else if testId = "test_policy_versioning" then .ok (runtime.hasEngine || runtime.hasRuntimeInfo)
  else .ok false

/-- `run_tests`: a test that raises has not passed. -/
def runTests (runtime : Runtime) : List String :=
  (requiredTests ++ optionalTests).filter fun testId => runTest testId runtime = .ok true

/-- `validate_conformance`. -/
def validateConformance (c : PolicyCapsule) : Except Exn Bool := do
  let vector ← toSet c.conformanceVector
  .ok (requiredTests.all fun testId => decide (.str testId ∈ vector))

structure CapsuleManager where
  receivedCapsules : Table String PolicyCapsule

namespace CapsuleManager

def init : CapsuleManager := ⟨.empty⟩

/-- The checks of `receive_capsule` that come before the store. -/
def checkCapsule (sha256Hex : String → String) (c : PolicyCapsule) (checked : Bool) (signerKey : Option String) :
    Except Exn Bool := do
  if ← verifyCapsule sha256Hex c signerKey then
    if checked then validateConformance c else .ok true
  else .ok false

/-- `receive_capsule`, which catches what is raised: only a text gets through the log message of the check and
then is a key. -/
def receiveCapsule (sha256Hex : String → String) (c : PolicyCapsule) (checked : Bool) (signerKey : Option String)
    (m : CapsuleManager) : Bool × CapsuleManager :=
  match checkCapsule sha256Hex c checked signerKey, c.policyEngineHash with
  | .ok true, .str hash => (true, ⟨m.receivedCapsules.upsert hash c⟩)
  | _, _ => (false, m)

def getCapsule (policyHash : String) (m : CapsuleManager) : Option PolicyCapsule := m.receivedCapsules.get? policyHash

end CapsuleManager

section Canonical

theorem wellFormed_iterate {value : Json} (hw : value.wellFormed = true) {items : List Json} (h : iterate value = .ok items) :
    ∀ item ∈ items, item.wellFormed = true := by
  intro item hitem
  cases value with
  | arr values =>
    cases h
    exact Json.wellFormedItems_iff.mp hw item hitem
  | obj fields =>
    cases h
    obtain ⟨field, _, rfl⟩ := List.mem_map.mp hitem
    rfl
  | str text =>
    cases h
    obtain ⟨c, _, rfl⟩ := List.mem_map.mp hitem
    rfl
  | null | bool | int | float => cases h

theorem getCanonicalBytes_ok {c : PolicyCapsule} {text : String} : c.getCanonicalBytes = .ok text ↔
    ∃ tests vector, iterate c.conformanceVector = .ok tests ∧ sortValues tests = .ok vector ∧
      text = (Json.obj (c.unsignedData vector)).write Json.sortedStyle := by
  unfold PolicyCapsule.getCanonicalBytes
  rw [Transactional.except_bind_ok]
  refine exists_congr fun tests => ?_
  rw [Transactional.except_bind_ok, ← exists_and_left]
  refine exists_congr fun vector => ?_
  rw [Except.ok.injEq, eq_comm (a := text)]

theorem wellFormed_toDict_iff {c : PolicyCapsule} : Json.wellFormedFields c.toDict = true ↔
    c.policyEngineHash.wellFormed = true ∧ c.policySchemaVersion.wellFormed = true ∧ c.conformanceVector.wellFormed = true ∧
      c.signature.wellFormed = true ∧ c.metadata.wellFormed = true := by
  simp [PolicyCapsule.toDict, Json.wellFormedFields]

theorem wellFormed_unsignedData {c : PolicyCapsule} (hw : Json.wellFormedFields c.toDict = true) {tests vector : List Json}
    (htests : iterate c.conformanceVector = .ok tests) (hvector : sortValues tests = .ok vector) :
    Json.wellFormedFields (c.unsignedData vector) = true := by
  obtain ⟨hhash, hversion, hconformance, -, hmetadata⟩ := wellFormed_toDict_iff.mp hw
  have hitems : Json.wellFormedItems vector = true :=
    Json.wellFormedItems_iff.mpr fun item hitem =>
      wellFormed_iterate hconformance htests item ((sortValues_perm hvector).mem_iff.mp hitem)
  have hor : c.metadataOrEmpty.wellFormed = true := by
    unfold PolicyCapsule.metadataOrEmpty
    split
    · exact hmetadata
    · rfl
  simp [PolicyCapsule.unsignedData, Json.wellFormedFields, Json.wellFormed, hhash, hversion, hitems, hor]

/-- What is put in another order than texts is texts. -/
theorem texts_of_perm {items : List Json} {tests : List String} (h : items.Perm (tests.map .str)) :
    ∃ texts : List String, items = texts.map .str ∧ texts.Perm tests := by
  have htests : List.Forall₂ (fun item text => item = Json.str text) (tests.map .str) tests :=
    List.forall₂_map_left_iff.mpr (List.forall₂_same.mpr fun _ _ => rfl)
  obtain ⟨texts, hitems, hperm⟩ := List.perm_comp_forall₂ h htests
  have hmap : List.Forall₂ (· = ·) items (texts.map .str) := List.forall₂_map_right_iff.mpr hitems
  rw [List.forall₂_eq_eq_eq] at hmap
  exact ⟨texts, hmap, hperm⟩

/-- The text of a capsule whose tests are texts. -/
theorem getCanonicalBytes_texts {c : PolicyCapsule} {items : List Json} {tests : List String}
    (hiterate : iterate c.conformanceVector = .ok items) (hperm : items.Perm (tests.map .str)) :
    c.getCanonicalBytes =
      .ok ((Json.obj (c.unsignedData ((tests.insertionSort (· ≤ ·)).map .str))).write Json.sortedStyle) := by
  obtain ⟨texts, rfl, htexts⟩ := texts_of_perm hperm
  have hsort : texts.insertionSort (· ≤ ·) = tests.insertionSort (· ≤ ·) := by
    have hsorted := (List.perm_insertionSort (· ≤ ·) texts).trans (htexts.trans (List.perm_insertionSort (· ≤ ·) tests).symm)
    exact hsorted.eq_of_sortedLE List.sortedLE_insertionSort List.sortedLE_insertionSort
  refine getCanonicalBytes_ok.mpr ⟨_, _, hiterate, sortValues_texts texts, ?_⟩
  rw [hsort]

/-- A capsule with the fields that `create_capsule` gives one. -/
structure Made (c : PolicyCapsule) (tests : List String) : Prop where
  hash : ∃ hash, c.policyEngineHash = .str hash
  version : ∃ version, c.policySchemaVersion = .str version
  vector : c.conformanceVector = .arr (tests.map .str)
  wellFormed : Json.wellFormedFields c.toDict = true

/-- A capsule says what another one says: tests may be in another order, and any empty metadata is none. -/
structure Covers (signed c : PolicyCapsule) (tests : List String) : Prop where
  hash : c.policyEngineHash = signed.policyEngineHash
  version : c.policySchemaVersion = signed.policySchemaVersion
  vector : ∃ items, iterate c.conformanceVector = .ok items ∧ items.Perm (tests.map .str)
  metadata : c.metadataOrEmpty.sorted = signed.metadataOrEmpty.sorted

variable {signed c : PolicyCapsule} {tests : List String}

theorem text_of_covers (hvector : signed.conformanceVector = .arr (tests.map .str)) (h : Covers signed c tests) :
    c.getCanonicalBytes = signed.getCanonicalBytes := by
  obtain ⟨items, hitems, hperm⟩ := h.vector
  have hown : iterate signed.conformanceVector = .ok (tests.map .str) := by rw [hvector]; rfl
  rw [getCanonicalBytes_texts hitems hperm, getCanonicalBytes_texts hown (.refl _)]
  simp only [Json.write, Json.sortedStyle, Json.encode_sorted, PolicyCapsule.unsignedData, Json.sorted, Json.sortedFields,
    h.hash, h.version, h.metadata]

theorem sorted_unsignedData {vector own : List Json}
    (h : (Json.obj (c.unsignedData vector)).sorted = (Json.obj (signed.unsignedData own)).sorted) :
    c.policyEngineHash.sorted = signed.policyEngineHash.sorted ∧ c.policySchemaVersion.sorted = signed.policySchemaVersion.sorted ∧
      Json.sortedItems vector = Json.sortedItems own ∧ c.metadataOrEmpty.sorted = signed.metadataOrEmpty.sorted := by
  have hmem : ∀ field ∈ c.unsignedData vector, (field.1, field.2.sorted) ∈ Json.sortedFields (signed.unsignedData own) :=
    fun field => Json.mem_of_mem_sorted h
  rw [PolicyCapsule.unsignedData] at hmem
  simp only [List.forall_mem_cons] at hmem
  simp only [PolicyCapsule.unsignedData, List.mem_cons, Json.sortedFields, Json.sorted, Prod.mk.injEq, String.reduceEq,
    false_and, true_and, false_or, or_false, List.not_mem_nil, Json.arr.injEq] at hmem
  obtain ⟨hhash, hversion, hvector, hmetadata, -⟩ := hmem
  exact ⟨hhash, hversion, hvector, hmetadata⟩

/-- No part of the key can be taken for a part of the text. -/
theorem covers_of_text (hsigned : Made signed tests) (hc : Json.wellFormedFields c.toDict = true)
    {text text' key key' : String} (htext : signed.getCanonicalBytes = .ok text) (htext' : c.getCanonicalBytes = .ok text')
    (h : text' ++ key' = text ++ key) : Covers signed c tests ∧ key' = key := by
  obtain ⟨items, vector, hitems, hsort, rfl⟩ := getCanonicalBytes_ok.mp htext'
  obtain ⟨own, ownVector, hown, hownSort, rfl⟩ := getCanonicalBytes_ok.mp htext
  obtain ⟨hsame, hkey⟩ := Json.sorted_object_append_inj Json.defaultStyle_readable (wellFormed_unsignedData hc hitems hsort)
    (wellFormed_unsignedData hsigned.wellFormed hown hownSort) h
  obtain ⟨hh, hv, hitem, hm⟩ := sorted_unsignedData hsame
  obtain ⟨hash, hhash⟩ := hsigned.hash
  obtain ⟨version, hversion⟩ := hsigned.version
  refine ⟨⟨?_, ?_, ⟨items, hitems, ?_⟩, hm⟩, hkey⟩
  · rw [hhash, Json.sorted, Json.sorted_eq_str] at hh
    exact hh.trans hhash.symm
  · rw [hversion, Json.sorted, Json.sorted_eq_str] at hv
    exact hv.trans hversion.symm
  · rw [hsigned.vector] at hown
    cases hown
    rw [sortValues_texts] at hownSort
    cases hownSort
    rw [Json.sortedItems_eq_texts.mpr rfl, Json.sortedItems_eq_texts] at hitem
    have hperm := sortValues_perm hsort
    rw [hitem] at hperm
    exact hperm.symm.trans ((List.perm_insertionSort _ tests).map Json.str)

end Canonical

section Signatures

variable {sha256Hex : String → String} {c made : PolicyCapsule} {tests : List String}

theorem verifyCapsule_ok {signature : String} {key : Option String} :
    verifyCapsule sha256Hex { c with signature := .str signature } key = .ok true ↔
      signature ≠ "" ∧ ∃ text, c.getCanonicalBytes = .ok text ∧ sha256Hex (text ++ keyText key) = signature ∧
        loggedHash c.policyEngineHash = .ok () := by
  have hbytes : ({ c with signature := .str signature } : PolicyCapsule).getCanonicalBytes = c.getCanonicalBytes := rfl
  have htruthy : Python.truthy (.str signature) = true ↔ signature ≠ "" := by simp [Python.truthy]
  unfold verifyCapsule
  by_cases hempty : signature = ""
  · have hfalsy : ¬Python.truthy (.str signature) = true := fun h => htruthy.mp h hempty
    rw [if_pos hfalsy]
    simp [hempty]
  · rw [if_neg (not_not.mpr (htruthy.mpr hempty)), hbytes, Transactional.except_bind_ok]
    simp only [Transactional.except_bind_ok, Except.ok.injEq, equal, decide_eq_true_eq, ne_eq, hempty, not_false_eq_true, true_and]
    constructor
    · rintro ⟨text, htext, _, hlogged, hsame⟩
      exact ⟨text, htext, hsame, hlogged⟩
    · rintro ⟨text, htext, hsame, hlogged⟩
      exact ⟨text, htext, (), hlogged, hsame⟩

theorem signCapsule_ok (hvector : made.conformanceVector = .arr (tests.map .str)) (key : Option String) :
    ∃ text, made.getCanonicalBytes = .ok text ∧
      signCapsule sha256Hex made key = .ok { made with signature := .str (sha256Hex (text ++ keyText key)) } := by
  have hown : iterate made.conformanceVector = .ok (tests.map .str) := by rw [hvector]; rfl
  have htext := getCanonicalBytes_texts hown (.refl _)
  refine ⟨_, htext, ?_⟩
  unfold signCapsule
  rw [htext]
  rfl

theorem verifies_iff_covers (hinj : Function.Injective sha256Hex) (hne : ∀ text, sha256Hex text ≠ "")
    (hmade : Made made tests) (hc : Json.wellFormedFields c.toDict = true) {text : String}
    (htext : made.getCanonicalBytes = .ok text) (key key' : Option String) :
    verifyCapsule sha256Hex { c with signature := .str (sha256Hex (text ++ keyText key)) } key' = .ok true ↔
      keyText key' = keyText key ∧ Covers made c tests := by
  rw [verifyCapsule_ok]
  constructor
  · rintro ⟨-, text', htext', hsame, -⟩
    obtain ⟨hcovers, hkey⟩ := covers_of_text hmade hc htext htext' (hinj hsame)
    exact ⟨hkey, hcovers⟩
  · rintro ⟨hkey, hcovers⟩
    refine ⟨hne _, text, (text_of_covers hmade.vector hcovers).trans htext, by rw [hkey], ?_⟩
    obtain ⟨hash, hhash⟩ := hmade.hash
    rw [hcovers.hash, hhash]
    rfl

/-- A signature verifies for the key it was made with, and for no capsule that says anything else. -/
theorem signature_covers (hinj : Function.Injective sha256Hex) (hne : ∀ text, sha256Hex text ≠ "")
    (hmade : Made made tests) (key : Option String) :
    ∃ signed, signCapsule sha256Hex made key = .ok signed ∧
      ∀ c : PolicyCapsule, Json.wellFormedFields c.toDict = true → ∀ key',
        (verifyCapsule sha256Hex { c with signature := signed.signature } key' = .ok true ↔
          keyText key' = keyText key ∧ Covers made c tests) := by
  obtain ⟨text, htext, hsigned⟩ := @signCapsule_ok sha256Hex made tests hmade.vector key
  exact ⟨_, hsigned, fun c hc key' => verifies_iff_covers hinj hne hmade hc htext key key'⟩

def sampleHash (text : String) : String := "#" ++ text

theorem sampleHash_injective : Function.Injective sampleHash := fun a b h => by
  have hlist := congrArg String.toList h
  exact String.toList_inj.mp (by simpa [sampleHash] using hlist)

theorem sampleHash_ne (text : String) : sampleHash text ≠ "" := fun h => by
  have hlist := congrArg String.toList h
  simp [sampleHash] at hlist

def sampleCapsule : PolicyCapsule := ⟨.str "engine", .str "1.0.0", .arr (["test_gas_metering"].map .str), .null, .obj []⟩

theorem sampleCapsule_made : Made sampleCapsule ["test_gas_metering"] :=
  ⟨⟨_, rfl⟩, ⟨_, rfl⟩, rfl, rfl⟩

theorem signature_covers_sample : ∃ signed, signCapsule sampleHash sampleCapsule (some "key") = .ok signed ∧
    ∀ c : PolicyCapsule, Json.wellFormedFields c.toDict = true → ∀ key',
      (verifyCapsule sampleHash { c with signature := signed.signature } key' = .ok true ↔
        keyText key' = keyText (some "key") ∧ Covers sampleCapsule c ["test_gas_metering"]) :=
  signature_covers sampleHash_injective sampleHash_ne sampleCapsule_made (some "key")

end Signatures

section Delivery

theorem sortFields_toDict (c : PolicyCapsule) : Json.sortFields (Json.sortedFields c.toDict) =
    [("conformance_vector", c.conformanceVector.sorted), ("metadata", c.metadata.sorted),
      ("policy_engine_hash", c.policyEngineHash.sorted), ("policy_schema_version", c.policySchemaVersion.sorted),
      ("signature", c.signature.sorted)] := by
  simp +decide [Json.sortFields, PolicyCapsule.toDict, Json.sortedFields, List.orderedInsert]

/-- A capsule that was sent arrives with the keys of its objects in order. -/
theorem fromJson_toJson {c : PolicyCapsule} (hc : Json.wellFormedFields c.toDict = true) :
    PolicyCapsule.fromJson c.toJson = .ok ⟨c.policyEngineHash.sorted, c.policySchemaVersion.sorted, c.conformanceVector.sorted,
      c.signature.sorted, c.metadata.sorted⟩ := by
  have hloads : Json.loads c.toJson = some (.obj (Json.sortFields (Json.sortedFields c.toDict))) :=
    Json.loads_write_sorted Json.defaultStyle_readable (.obj c.toDict) hc
  unfold PolicyCapsule.fromJson
  rw [hloads, sortFields_toDict]
  rfl

/-- What arrives says what was sent. -/
theorem covers_sorted {c : PolicyCapsule} {tests : List String} (hc : Made c tests) (signature : Json) :
    Covers c ⟨c.policyEngineHash.sorted, c.policySchemaVersion.sorted, c.conformanceVector.sorted, signature, c.metadata.sorted⟩
      tests := by
  obtain ⟨hash, hhash⟩ := hc.hash
  obtain ⟨version, hversion⟩ := hc.version
  refine ⟨by rw [hhash]; rfl, by rw [hversion]; rfl, ⟨tests.map .str, ?_, .refl _⟩, ?_⟩
  · rw [hc.vector, Json.sorted, Json.sortedItems_eq_texts.mpr rfl]
    rfl
  · unfold PolicyCapsule.metadataOrEmpty
    rw [truthy_sorted]
    split
    · exact Json.sorted_sorted c.metadata
    · rfl

theorem validateConformance_texts {c : PolicyCapsule} {tests : List String} (h : c.conformanceVector = .arr (tests.map .str)) :
    validateConformance c = .ok (requiredTests.all fun testId => decide (testId ∈ tests)) := by
  have hset : toSet c.conformanceVector = .ok (tests.map .str) := by
    have hown : iterate c.conformanceVector = .ok (tests.map .str) := by
      rw [h]
      rfl
    refine toSet_eq_ok.mpr ⟨hown, fun item hitem => ?_⟩
    obtain ⟨text, _, rfl⟩ := List.mem_map.mp hitem
    rfl
  unfold validateConformance
  rw [hset]
  show Except.ok _ = Except.ok _
  simp

variable {sha256Hex : String → String} {sha256Bytes : List UInt8 → String}

theorem checkCapsule_ok {c : PolicyCapsule} {checked : Bool} {key : Option String} :
    CapsuleManager.checkCapsule sha256Hex c checked key = .ok true ↔
      verifyCapsule sha256Hex c key = .ok true ∧ (checked = true → validateConformance c = .ok true) := by
  unfold CapsuleManager.checkCapsule
  rw [Transactional.except_bind_ok]
  constructor
  · rintro ⟨verified, hverified, h⟩
    cases verified with
    | false => cases h
    | true =>
      refine ⟨hverified, fun hchecked => ?_⟩
      rwa [if_pos rfl, if_pos hchecked] at h
  · rintro ⟨hverified, h⟩
    refine ⟨true, hverified, ?_⟩
    rw [if_pos rfl]
    split
    next hchecked => exact h hchecked
    next => rfl

theorem receiveCapsule_of_check {c : PolicyCapsule} {hash : String} (hhash : c.policyEngineHash = .str hash) {checked : Bool}
    {key : Option String} (m : CapsuleManager) : CapsuleManager.receiveCapsule sha256Hex c checked key m =
      if CapsuleManager.checkCapsule sha256Hex c checked key = .ok true then (true, ⟨m.receivedCapsules.upsert hash c⟩)
      else (false, m) := by
  unfold CapsuleManager.receiveCapsule
  rw [hhash]
  split
  next hcheck hsame =>
    cases hsame
    rw [if_pos hcheck]
  next hfailed =>
    rw [if_neg fun hcheck => hfailed hash hcheck rfl]

variable {made : PolicyCapsule} {tests : List String} {hash : String}

theorem sent_capsule_checked (hinj : Function.Injective sha256Hex) (hne : ∀ text, sha256Hex text ≠ "")
    (hmade : Made made tests) (hhash : made.policyEngineHash = .str hash) (key : Option String) :
    ∃ signed received, signCapsule sha256Hex made key = .ok signed ∧ PolicyCapsule.fromJson signed.toJson = .ok received ∧
      received.policyEngineHash = .str hash ∧ ∀ checked key',
        (CapsuleManager.checkCapsule sha256Hex received checked key' = .ok true ↔
          keyText key' = keyText key ∧ (checked = true → ∀ testId ∈ requiredTests, testId ∈ tests)) := by
  obtain ⟨text, htext, hsigned⟩ := @signCapsule_ok sha256Hex made tests hmade.vector key
  let signature := sha256Hex (text ++ keyText key)
  let signed : PolicyCapsule := { made with signature := .str signature }
  let received : PolicyCapsule := ⟨made.policyEngineHash.sorted, made.policySchemaVersion.sorted, made.conformanceVector.sorted,
    .str signature, made.metadata.sorted⟩
  obtain ⟨hwHash, hwVersion, hwVector, -, hwMetadata⟩ := wellFormed_toDict_iff.mp hmade.wellFormed
  have hsignedFields : Json.wellFormedFields signed.toDict = true :=
    wellFormed_toDict_iff.mpr ⟨hwHash, hwVersion, hwVector, rfl, hwMetadata⟩
  have hreceivedFields : Json.wellFormedFields received.toDict = true :=
    wellFormed_toDict_iff.mpr ⟨Json.wellFormed_sorted _ hwHash, Json.wellFormed_sorted _ hwVersion,
      Json.wellFormed_sorted _ hwVector, rfl, Json.wellFormed_sorted _ hwMetadata⟩
  have hvectorReceived : received.conformanceVector = .arr (tests.map .str) := by
    show made.conformanceVector.sorted = _
    rw [hmade.vector, Json.sorted, Json.sortedItems_eq_texts.mpr rfl]
  refine ⟨signed, received, hsigned, fromJson_toJson hsignedFields, ?_, fun checked key' => ?_⟩
  · show made.policyEngineHash.sorted = _
    rw [hhash, Json.sorted]
  · have hcovers : Covers made received tests := covers_sorted hmade (.str signature)
    have hverifies : verifyCapsule sha256Hex received key' = .ok true ↔ keyText key' = keyText key ∧ Covers made received tests :=
      verifies_iff_covers (c := received) hinj hne hmade hreceivedFields htext key key'
    rw [checkCapsule_ok, hverifies, validateConformance_texts hvectorReceived, and_iff_left hcovers]
    simp

/-- The tests that the engine without its binary passes. -/
theorem runTests_base (isPrintable : Char → Bool) :
    runTests ⟨baseEvaluate isPrintable, false, false⟩ = requiredTests ++ ["test_gas_metering", "test_resource_limits"] := by
  rfl

end Delivery

section Receptions

/-- One call of `receive_capsule`. -/
structure Reception where
  capsule : PolicyCapsule
  checked : Bool
  signerKey : Option String

variable (sha256Hex : String → String)

def receiveAll (calls : List Reception) (m : CapsuleManager) : CapsuleManager :=
  calls.foldl (fun m call => (m.receiveCapsule sha256Hex call.capsule call.checked call.signerKey).2) m

/-- The call takes its capsule in under the hash. -/
def accepted (hash : String) (call : Reception) : Bool :=
  decide (CapsuleManager.checkCapsule sha256Hex call.capsule call.checked call.signerKey = .ok true ∧
    call.capsule.policyEngineHash = .str hash)

variable {sha256Hex}

theorem getCapsule_receive (hash : String) (call : Reception) (m : CapsuleManager) :
    (m.receiveCapsule sha256Hex call.capsule call.checked call.signerKey).2.getCapsule hash =
      if accepted sha256Hex hash call then some call.capsule else m.getCapsule hash := by
  unfold CapsuleManager.receiveCapsule accepted
  split
  next own hcheck hown =>
    show (m.receivedCapsules.upsert own call.capsule).get? hash = _
    rw [Table.get?_upsert]
    simp only [hcheck, hown, true_and, Json.str.injEq, decide_eq_true_eq, eq_comm (a := own)]
    rfl
  next hfailed =>
    have hno : ¬(CapsuleManager.checkCapsule sha256Hex call.capsule call.checked call.signerKey = .ok true ∧
        call.capsule.policyEngineHash = .str hash) := fun h => hfailed hash h.1 h.2
    simp only [hno, decide_false, Bool.false_eq_true, if_false]

/-- A hash stands for the capsule that was taken in last. -/
theorem getCapsule_receiveAll (calls : List Reception) (hash : String) (m : CapsuleManager) :
    (receiveAll sha256Hex calls m).getCapsule hash =
      ((calls.filter (accepted sha256Hex hash)).getLast?.map Reception.capsule).or (m.getCapsule hash) := by
  induction calls using List.reverseRecOn with
  | nil => rfl
  | append_singleton earlier call ih =>
    rw [receiveAll, List.foldl_concat, getCapsule_receive, List.filter_append]
    by_cases haccepted : accepted sha256Hex hash call = true
    · simp [haccepted]
    · rw [if_neg haccepted, List.filter_cons_of_neg haccepted, List.filter_nil, List.append_nil]
      exact ih

theorem signature_of_verified {c : PolicyCapsule} {key : Option String} (h : verifyCapsule sha256Hex c key = .ok true) :
    ∃ text, c.getCanonicalBytes = .ok text ∧ c.signature = .str (sha256Hex (text ++ keyText key)) := by
  unfold verifyCapsule at h
  split at h
  next => cases h
  next =>
    obtain ⟨text, htext, h⟩ := Transactional.except_bind_ok.mp h
    obtain ⟨_, _, h⟩ := Transactional.except_bind_ok.mp h
    refine ⟨text, htext, ?_⟩
    cases hsignature : c.signature with
    | str signature => simpa [hsignature, equal, eq_comm] using h
    | null | bool | int | float | arr | obj => simp [hsignature, equal] at h

theorem required_of_conformant {c made : PolicyCapsule} {tests : List String} (hcovers : Covers made c tests)
    (h : validateConformance c = .ok true) : ∀ testId ∈ requiredTests, testId ∈ tests := by
  obtain ⟨items, hitems, hperm⟩ := hcovers.vector
  unfold validateConformance at h
  obtain ⟨vector, hvector, h⟩ := Transactional.except_bind_ok.mp h
  have hset : items = vector := Except.ok.inj (hitems.symm.trans (toSet_eq_ok.mp hvector).1)
  intro testId htest
  have hmem : Json.str testId ∈ vector := by simpa using List.all_eq_true.mp (Except.ok.inj h) testId htest
  rw [← hset, hperm.mem_iff] at hmem
  simpa using hmem

/-- Where a signature for a key is one that its holder made, a manager that asks for that key holds only what was issued. -/
theorem stored_capsules_issued (hinj : Function.Injective sha256Hex) {key : Option String}
    {issued : List (PolicyCapsule × List String)} (hissued : ∀ e ∈ issued, Made e.1 e.2) {calls : List Reception}
    (hcalls : ∀ call ∈ calls, call.signerKey = key ∧ Json.wellFormedFields call.capsule.toDict = true)
    (hunforged : ∀ call ∈ calls, ∀ text, call.capsule.getCanonicalBytes = .ok text →
      call.capsule.signature = .str (sha256Hex (text ++ keyText key)) →
        ∃ e ∈ issued, ∃ signed, signCapsule sha256Hex e.1 key = .ok signed ∧ signed.signature = call.capsule.signature)
    {hash : String} {c : PolicyCapsule} (h : (receiveAll sha256Hex calls .init).getCapsule hash = some c) :
    ∃ e ∈ issued, Covers e.1 c e.2 ∧ e.1.policyEngineHash = .str hash ∧
      ((∀ call ∈ calls, call.checked = true) → ∀ testId ∈ requiredTests, testId ∈ e.2) := by
  rw [getCapsule_receiveAll] at h
  have hnone : CapsuleManager.init.getCapsule hash = none := rfl
  rw [hnone, Option.or_none] at h
  obtain ⟨call, hlast, rfl⟩ := Option.map_eq_some_iff.mp h
  obtain ⟨hcall, haccepted⟩ := List.mem_filter.mp (List.mem_of_getLast? hlast)
  obtain ⟨hkey, hwell⟩ := hcalls call hcall
  obtain ⟨hcheck, hhash⟩ := of_decide_eq_true haccepted
  obtain ⟨hverified, hconformant⟩ := checkCapsule_ok.mp hcheck
  rw [hkey] at hverified
  obtain ⟨text, htext, hsignature⟩ := signature_of_verified hverified
  obtain ⟨e, he, signed, hsigned, hsame⟩ := hunforged call hcall text htext hsignature
  have hmade := hissued e he
  obtain ⟨own, hown, hsignedIs⟩ := @signCapsule_ok sha256Hex e.1 e.2 hmade.vector key
  rw [hsigned] at hsignedIs
  cases hsignedIs
  rw [hsignature] at hsame
  have htexts : text ++ keyText key = own ++ keyText key := (hinj (Json.str.inj hsame)).symm
  have hcovers := (covers_of_text hmade hwell hown htext htexts).1
  refine ⟨e, he, hcovers, hcovers.hash.symm.trans hhash, fun hchecked => ?_⟩
  exact required_of_conformant hcovers (hconformant (hchecked call hcall))

/-- The capsule as its holder signs it. -/
def signedSample : PolicyCapsule :=
  let text := "\x7b\"conformance_vector\": [\"test_gas_metering\"], \"metadata\": \x7b\x7d, \"policy_engine_hash\": " ++
    "\"engine\", \"policy_schema_version\": \"1.0.0\"\x7d"
  { sampleCapsule with signature := .str (sampleHash (text ++ "key")) }

theorem signedSample_signed : signCapsule sampleHash sampleCapsule (some "key") = .ok signedSample := by
  decide +kernel

theorem stored_capsules_issued_sample : ∃ e ∈ [(sampleCapsule, ["test_gas_metering"])],
    Covers e.1 signedSample e.2 ∧ e.1.policyEngineHash = .str "engine" ∧
      ((∀ call ∈ [Reception.mk signedSample false (some "key")], call.checked = true) →
        ∀ testId ∈ requiredTests, testId ∈ e.2) := by
  refine @stored_capsules_issued sampleHash sampleHash_injective (some "key") _ ?_ [⟨signedSample, false, some "key"⟩] ?_ ?_ _ _ ?_
  · simp [sampleCapsule_made]
  · simp [show Json.wellFormedFields signedSample.toDict = true from rfl]
  · simp [signedSample_signed]
  · decide +kernel

end Receptions

end AgentNetwork.Policy.Capsules
