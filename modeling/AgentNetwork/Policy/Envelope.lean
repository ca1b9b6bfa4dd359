import AgentNetwork.Library.JsonWriter
import AgentNetwork.Library.Base64

/-! Envelopes: how they are made, signed and checked. -/

namespace AgentNetwork.Policy

/-- A dictionary, its items in order. -/
abbrev Dict := List (String × Json)

/-- `d.get(key, default)`. -/
def getOr (d : Dict) (key : String) (default : Json) : Json := (d.lookup key).getD default

def getKey (d : Dict) (key : String) : Json := getOr d key .null

/-- The hash and the signature scheme the code calls: the hash of a text in hex,
and a 32-byte seed's public key, signatures and their check. Canonical JSON is
ASCII, so a message is its text. -/
structure Primitives where
  sha256Hex : String → String
  publicKey : List UInt8 → List UInt8
  sign : List UInt8 → String → List UInt8
  verify : List UInt8 → String → List UInt8 → Bool

def cjson (value : Json) : String := value.write Json.canonicalStyle

section Crypto

variable (p : Primitives)

/-- A record with the signature fields added. -/
def withSignature (key signature : List UInt8) (record : Dict) : Dict :=
  Json.setField (Json.setField record "sig_b64" (.str (Base64.b64encode signature))) "sig_pk_b64"
    (.str (Base64.b64encode key))

/-- `sign_record` with the key text of the environment; `none` where it raises. -/
def signRecord (skB64 : Option String) (record : Dict) : Option Dict := do
  let skB64 ← skB64.filter (· ≠ "")
  let seed ← Base64.b64decode skB64
  if seed.length = 32 then
    some (withSignature (p.publicKey seed) (p.sign seed (cjson (.obj record))) record)
  else none

def isSignatureField (key : String) : Bool := key = "sig_b64" || key = "sig_pk_b64"

/-- The fields a signature covers. -/
def unsigned (record : Dict) : Dict := record.filter fun field => !isSignatureField field.1

/-- `VerifyKey(pk).verify(message, signature)` does not raise. -/
def verifies (pk : List UInt8) (message : String) (signature : List UInt8) : Bool :=
  decide (pk.length = 32) && decide (signature.length = 64) && p.verify pk message signature

/-- `verify_record`: a missing or empty field is no signature, and what is no
text cannot be decoded. -/
def verifyRecord (record : Dict) : Bool :=
  match getKey record "sig_b64", getKey record "sig_pk_b64" with
  | .str sigB64, .str pkB64 =>
    if sigB64 = "" ∨ pkB64 = "" then false
    else
      match Base64.b64decode sigB64, Base64.b64decode pkB64 with
      | some signature, some pk => verifies p pk (cjson (.obj (unsigned record))) signature
      | _, _ => false
  | _, _ => false

end Crypto

def allowedKinds : List String :=
  ["NEED", "PROPOSE", "CLAIM", "COMMIT", "ATTEST", "DECIDE", "FINALIZE", "YIELD", "RELEASE", "UPDATE_PLAN",
    "ATTEST_PLAN", "CHALLENGE", "INVALIDATE", "RECONCILE", "CHECKPOINT"]

def legacyAllowedKinds : List String := ["PLAN", "FINAL"]

def maxPayloadBytes : Nat := 64 * 1024

def sortedStrings (l : List String) : Json := .arr ((l.insertionSort fun a b => a ≤ b).map Json.str)

section Envelopes

variable (p : Primitives)

def currentPolicyHash : String :=
  p.sha256Hex (cjson (.obj
    [("allowed_kinds", sortedStrings allowedKinds),
      ("max_payload_bytes", .int maxPayloadBytes),
      ("required_fields", sortedStrings ["kind", "thread_id", "lamport", "payload", "policy_engine_hash"]),
      ("version", .str "legacy-v0-compat")]))

def hashPayload (payload : Json) : String := p.sha256Hex (cjson payload)

def canonicalPayloadSize (payload : Json) : Nat := (cjson payload).toList.length

/-- What a caller passes to `make_envelope`. -/
structure EnvelopeArgs where
  kind : String
  threadId : String
  senderPkB64 : String
  payload : Dict
  policyEngineHash : Option String
  policyCapsuleHash : Option String
  policyEvalDigest : Option String
  nonce : Option String

/-- What `make_envelope` reads of its surroundings: the clock before the tick, the
identifiers `uuid4` draws, and the time. -/
structure EnvelopeDraws where
  counter : Int
  id : String
  nonce : String
  tsNs : Int

def truthy (text : Option String) : Option String := text.filter (· ≠ "")

def optionalField (key : String) (text : Option String) : Dict :=
  match truthy text with
  | some s => [(key, .str s)]
  | none => []

def makeEnvelope (args : EnvelopeArgs) (draws : EnvelopeDraws) : Dict :=
  [("v", .int 1),
    ("id", .str draws.id),
    ("thread_id", .str args.threadId),
    ("kind", .str args.kind),
    ("lamport", .int (draws.counter + 1)),
    ("ts_ns", .int draws.tsNs),
    ("sender_pk_b64", .str args.senderPkB64),
    ("payload_hash", .str (hashPayload p (.obj args.payload))),
    ("payload", .obj args.payload),
    ("policy_engine_hash", .str ((truthy args.policyEngineHash).getD (currentPolicyHash p))),
    ("nonce", .str ((truthy args.nonce).getD draws.nonce))] ++
  optionalField "policy_capsule_hash" args.policyCapsuleHash ++
  optionalField "policy_eval_digest" args.policyEvalDigest

def signEnvelope (skB64 : Option String) (env : Dict) : Option Dict := signRecord p skB64 (unsigned env)

/-- `isinstance(value, int) and value > 0`; booleans are integers. -/
def isPositiveInt : Json → Bool
  | .int n => decide (0 < n)
  | .bool b => b
  | .null | .float _ | .str _ | .arr _ | .obj _ => false

def verifyEnvelope (env : Dict) : Bool :=
  if isPositiveInt (getKey env "lamport") = false then false
  else if getKey env "payload_hash" ≠ .str (hashPayload p (getOr env "payload" (.obj []))) then false
  else verifyRecord p env

inductive ValidationError
  | policyError (message : String)
  | unhashableKind
  deriving DecidableEq

def isAllowedKind (kinds : List String) : Json → Bool
  | .str kind => decide (kind ∈ kinds)
  | .null | .bool _ | .int _ | .float _ | .arr _ | .obj _ => false

/-- `policy.validate_envelope`. -/
def validateEnvelope (envelope : Dict) : Except ValidationError Bool :=
  let kind := getKey envelope "kind"
  if kind.hashable = false then .error .unhashableKind
  else if isAllowedKind (allowedKinds ++ legacyAllowedKinds) kind = false then .error (.policyError "kind not allowed")
  else if canonicalPayloadSize (getOr envelope "payload" (.obj [])) > maxPayloadBytes then
    .error (.policyError "payload too large")
  else if getKey envelope "policy_engine_hash" ≠ .str (currentPolicyHash p) then
    .error (.policyError "policy_engine_hash mismatch")
  else if verifyEnvelope p envelope = false then .error (.policyError "signature or payload_hash invalid")
  else .ok true

/-- Every check an accepted envelope has passed. -/
structure Accepted (envelope : Dict) : Prop where
  kind : isAllowedKind (allowedKinds ++ legacyAllowedKinds) (getKey envelope "kind") = true
  size : canonicalPayloadSize (getOr envelope "payload" (.obj [])) ≤ maxPayloadBytes
  policyHash : getKey envelope "policy_engine_hash" = .str (currentPolicyHash p)
  lamport : isPositiveInt (getKey envelope "lamport") = true
  payloadHash : getKey envelope "payload_hash" = .str (hashPayload p (getOr envelope "payload" (.obj [])))
  signature : verifyRecord p envelope = true

theorem isAllowedKind_hashable {kinds : List String} {kind : Json} (h : isAllowedKind kinds kind = true) :
    kind.hashable = true := by
  cases kind with
  | str => rfl
  | null | bool | int | float | arr | obj => cases h

theorem verifyEnvelope_iff {env : Dict} : verifyEnvelope p env = true ↔
    isPositiveInt (getKey env "lamport") = true ∧
    getKey env "payload_hash" = .str (hashPayload p (getOr env "payload" (.obj []))) ∧ verifyRecord p env = true := by
  unfold verifyEnvelope
  split
  next h => simp [h]
  next h =>
    split
    next hhash => simp [hhash]
    next hhash => simp [Bool.not_eq_false _ ▸ h, not_not.mp hhash]

theorem accepted_of_ok {envelope : Dict} {b : Bool} (h : validateEnvelope p envelope = .ok b) :
    Accepted p envelope := by
  unfold validateEnvelope at h
  dsimp only at h
  split at h
  next => cases h
  split at h
  next => cases h
  next hkind =>
  split at h
  next => cases h
  next hsize =>
  split at h
  next => cases h
  next hhash =>
  split at h
  next => cases h
  next hverify =>
    obtain ⟨hlamport, hpayload, hsignature⟩ := (verifyEnvelope_iff p).mp (Bool.eq_true_of_not_eq_false hverify)
    exact ⟨Bool.eq_true_of_not_eq_false hkind, by omega, not_not.mp hhash, hlamport, hpayload, hsignature⟩

theorem validateEnvelope_iff {envelope : Dict} : validateEnvelope p envelope = .ok true ↔ Accepted p envelope := by
  constructor
  · exact accepted_of_ok p
  · intro h
    have hverify := (verifyEnvelope_iff p).mpr ⟨h.lamport, h.payloadHash, h.signature⟩
    have hsize := h.size
    simp [validateEnvelope, isAllowedKind_hashable h.kind, h.kind, h.policyHash, hverify]
    omega

end Envelopes

theorem cjson_obj_ne_empty {fields : Dict} (h : fields ≠ []) : cjson (.obj fields) ≠ "\x7b\x7d" := by
  intro heq
  have hchars := congrArg String.toList heq
  rw [cjson, Json.write, String.toList_ofList, Json.encode] at hchars
  have hjoin : Json.joinFields Json.canonicalStyle (Json.encodeFields Json.canonicalStyle fields) = [] := by
    have hsplit : Json.openBrace :: Json.joinFields Json.canonicalStyle (Json.encodeFields Json.canonicalStyle fields) ++
        [Json.closeBrace] = Json.openBrace :: [] ++ [Json.closeBrace] := hchars
    simpa using hsplit
  exact Json.joinFields_ne_nil h hjoin

section Sample

def aliceKey : List UInt8 :=
  [59, 106, 39, 188, 206, 182, 164, 45, 98, 163, 168, 208, 42, 111, 13, 115, 101, 50, 21, 119, 29, 226, 67, 166, 58, 192, 72,
    161, 139, 89, 218, 41]

def aliceSignature : List UInt8 :=
  [173, 88, 153, 58, 155, 193, 65, 57, 126, 238, 247, 37, 191, 105, 141, 7, 218, 243, 43, 194, 177, 170, 170, 86, 120, 124, 233,
    43, 92, 165, 172, 127, 227, 239, 115, 250, 14, 154, 129, 92, 182, 147, 146, 63, 182, 199, 108, 72, 25, 20, 74, 135, 230, 141,
    57, 6, 154, 104, 77, 134, 68, 183, 67, 12]

def malloryKey : List UInt8 :=
  [138, 136, 227, 221, 116, 9, 241, 149, 253, 82, 219, 45, 60, 186, 93, 114, 202, 103, 9, 191, 29, 148, 18, 27, 243, 116, 136, 1,
    180, 15, 111, 92]

def mallorySignature : List UInt8 :=
  [104, 211, 214, 154, 70, 34, 221, 249, 241, 238, 171, 25, 255, 126, 11, 168, 67, 52, 4, 79, 254, 76, 146, 119, 171, 58, 62, 175,
    137, 197, 143, 8, 42, 118, 233, 170, 155, 255, 176, 207, 197, 65, 236, 99, 15, 157, 63, 55, 44, 135, 20, 6, 153, 85, 1, 207, 96,
    245, 212, 54, 101, 40, 110, 12]

def emptyPayloadHash : String := "44136fa355b3678a1146ad16f7e8649e94fb4fc21fe77e8310c060f61caaff8a"

def contractHash : String := "f4ec1d2ba93e6e98cc6330c0832d1ebc9e74228a7949cc10657e215a338d1b3b"

/-- An envelope that names the first key as its sender, before it is signed. -/
def unsignedNeed : Dict :=
  [("v", .int 1), ("id", .str "a"), ("thread_id", .str "t"), ("kind", .str "NEED"), ("lamport", .int 1), ("ts_ns", .int 0),
    ("sender_pk_b64", .str "O2onvM62pC1io6jQKm8Nc2UyFXcd4kOmOsBIoYtZ2ik="), ("payload_hash", .str emptyPayloadHash),
    ("payload", .obj []), ("policy_engine_hash", .str contractHash), ("nonce", .str "n")]

def aliceSeed : List UInt8 := List.replicate 32 0

/-- SHA-256 and Ed25519 on the empty payload, the policy contract, the two seeds
of zeros and of ones, and the message of `unsignedNeed`. -/
def sampleValues : Primitives where
  sha256Hex text := if text = "\x7b\x7d" then emptyPayloadHash else contractHash
  publicKey seed := if seed = aliceSeed then aliceKey else malloryKey
  sign seed _ := if seed = aliceSeed then aliceSignature else mallorySignature
  verify pk message signature :=
    decide (message = cjson (.obj unsignedNeed)) &&
      (decide (pk = aliceKey ∧ signature = aliceSignature) || decide (pk = malloryKey ∧ signature = mallorySignature))

def needSignedWith (key signature : List UInt8) : Dict :=
  unsignedNeed ++ [("sig_b64", .str (Base64.b64encode signature)), ("sig_pk_b64", .str (Base64.b64encode key))]

def signedNeed : Dict := needSignedWith aliceKey aliceSignature

theorem sampleValues_sha256Hex {text : String} (h : text ≠ "\x7b\x7d") : sampleValues.sha256Hex text = contractHash :=
  if_neg h

theorem sampleValues_contract : currentPolicyHash sampleValues = contractHash :=
  sampleValues_sha256Hex (cjson_obj_ne_empty (List.cons_ne_nil _ _))

section Signed

variable (key signature : List UInt8)

theorem needSignedWith_get {field : String} (h : isSignatureField field = false) :
    (needSignedWith key signature).lookup field = unsignedNeed.lookup field := by
  have hnone : List.lookup field [("sig_b64", Json.str (Base64.b64encode signature)),
      ("sig_pk_b64", .str (Base64.b64encode key))] = none := by
    simp only [isSignatureField, Bool.or_eq_false_iff, decide_eq_false_iff_not] at h
    have hsig : (field == "sig_b64") = false := by simpa using h.1
    have hkey : (field == "sig_pk_b64") = false := by simpa using h.2
    simp [List.lookup_cons, hsig, hkey]
  rw [needSignedWith, List.lookup_append, hnone, Option.or_none]

theorem needSignedWith_signature : getKey (needSignedWith key signature) "sig_b64" = .str (Base64.b64encode signature) := by
  simp [getKey, getOr, needSignedWith, unsignedNeed, List.lookup_cons]

theorem needSignedWith_key : getKey (needSignedWith key signature) "sig_pk_b64" = .str (Base64.b64encode key) := by
  simp [getKey, getOr, needSignedWith, unsignedNeed, List.lookup_cons]

theorem unsigned_needSignedWith : unsigned (needSignedWith key signature) = unsignedNeed := by
  simp [unsigned, needSignedWith, unsignedNeed, isSignatureField]

variable {key signature}

theorem needSignedWith_accepted (hkey : key.length = 32) (hsignature : signature.length = 64)
    (hverify : sampleValues.verify key (cjson (.obj unsignedNeed)) signature = true) :
    Accepted sampleValues (needSignedWith key signature) := by
  have hfield : ∀ field, isSignatureField field = false →
      getKey (needSignedWith key signature) field = getKey unsignedNeed field := by
    intro field h
    rw [getKey, getKey, getOr, getOr, needSignedWith_get key signature h]
  have hpayload : getOr (needSignedWith key signature) "payload" (.obj []) = .obj [] := by
    rw [getOr, needSignedWith_get key signature (by decide)]
    rfl
  have hempty : cjson (.obj []) = "\x7b\x7d" := rfl
  have hne : ∀ {bytes : List UInt8}, 0 < bytes.length → Base64.b64encode bytes ≠ "" :=
    fun h => Base64.b64encode_ne_empty (List.ne_nil_of_length_pos h)
  constructor
  · rw [hfield "kind" (by decide)]
    simp [getKey, getOr, unsignedNeed, List.lookup_cons, isAllowedKind, allowedKinds, legacyAllowedKinds]
  · rw [hpayload, canonicalPayloadSize, hempty]
    decide
  · rw [sampleValues_contract, hfield "policy_engine_hash" (by decide)]
    simp [getKey, getOr, unsignedNeed, List.lookup_cons]
  · rw [hfield "lamport" (by decide)]
    simp [getKey, getOr, unsignedNeed, List.lookup_cons, isPositiveInt]
  · rw [hpayload, hashPayload, hempty, hfield "payload_hash" (by decide)]
    simp [getKey, getOr, unsignedNeed, List.lookup_cons, sampleValues]
  · rw [verifyRecord, needSignedWith_signature, needSignedWith_key]
    have hs : Base64.b64encode signature ≠ "" := hne (by omega)
    have hk : Base64.b64encode key ≠ "" := hne (by omega)
    simp [hs, hk, Base64.b64decode_b64encode, unsigned_needSignedWith, verifies, hverify, hkey, hsignature]

end Signed

theorem signedNeed_accepted : Accepted sampleValues signedNeed :=
  needSignedWith_accepted (by decide) (by decide) (by simp [sampleValues])

end Sample

end AgentNetwork.Policy
