import AgentNetwork.Identity.ManifestRegistry

/-! How much of a manifest its signature covers. -/

namespace AgentNetwork.Identity

open Relational Python
open Policy (Signings)

namespace ManifestManager

variable (p : SigningPrimitives)

/-- `publish_manifest`, with what it returns. -/
def publishManifest (manifest : AgentManifest) (registry : Option ManifestRegistry) (dids : DIDManager) :
    Bool × Option ManifestRegistry × DIDManager :=
  let (valid, dids) := verifyManifest p manifest dids
  if valid then
    match registry with
    | some registry => (true, some (registry.register manifest), dids)
    | none => (false, none, dids)
  else (false, registry, dids)

/-- Nobody forges: a signature that verifies was made by the holder of the key, and the
holders of keys never make one signature of two messages. -/
structure Unforgeable (signed : Signings) : Prop where
  made : ∀ key message signature, p.verify key message signature = true → signed key message signature
  single : ∀ key message key' message' signature,
    signed key message signature → signed key' message' signature → message = message'

/-- Under the signature of the first manifest the second one is neither accepted nor
published, unless it agrees with it. -/
def Covers (m m' : AgentManifest) : Prop :=
  ∀ dids, ((verifyManifest p m' dids).1 = true → m.Agree m') ∧
    ∀ registry, (publishManifest p m' registry dids).1 = true → m.Agree m'

variable {p} {m m' : AgentManifest} {dids : DIDManager}

/-- Only what verifies is published. -/
theorem verified_of_published {registry : Option ManifestRegistry} (h : (publishManifest p m registry dids).1 = true) :
    (verifyManifest p m dids).1 = true := by
  cases hvalid : (verifyManifest p m dids).1 with
  | true => rfl
  | false => simp [publishManifest, hvalid] at h

theorem published_of_verified (h : (verifyManifest p m dids).1 = true) (registry : ManifestRegistry) :
    (publishManifest p m (some registry) dids).1 = true := by
  simp [publishManifest, h]

theorem computeHash_eq_iff (hhash : Function.Injective p.sha256) : m.computeHash p = m'.computeHash p ↔ m.SameCovered m' := by
  rw [← canonicalJson_eq_iff]
  constructor
  · intro h
    have hbytes := congrArg Python.fromHex h
    rw [AgentManifest.computeHash, AgentManifest.computeHash, Python.fromHex_hex, Python.fromHex_hex] at hbytes
    exact hhash (Option.some.inj hbytes)
  · intro h
    rw [AgentManifest.computeHash, AgentManifest.computeHash, h]

/-- Manifests that one signature is accepted for have the same covered fields. -/
theorem sameCovered_of_verified (hhash : Function.Injective p.sha256) {signed : Signings} (hsigned : Unforgeable p signed)
    {dids' : DIDManager} (h : (verifyManifest p m dids).1 = true) (h' : (verifyManifest p m' dids').1 = true)
    (hsame : m'.signature = m.signature) : m.SameCovered m' := by
  obtain ⟨_, signature, key, hsignature, _, _, hverify⟩ := (verifyManifest_iff p).mp h
  obtain ⟨_, signature', key', hsignature', _, _, hverify'⟩ := (verifyManifest_iff p).mp h'
  rw [hsame, hsignature] at hsignature'
  cases hsignature'
  have hmade := hsigned.made _ _ _ hverify
  have hmade' := hsigned.made _ _ _ hverify'
  exact (computeHash_eq_iff hhash).mp (hsigned.single _ _ _ _ _ hmade hmade')

theorem verified_of_sameCovered (hhash : Function.Injective p.sha256) (h : (verifyManifest p m dids).1 = true)
    (hsame : m'.signature = m.signature) (hcovered : m.SameCovered m') : (verifyManifest p m' dids).1 = true := by
  obtain ⟨hempty, signature, key, hsignature, hkey, hlength, hverify⟩ := (verifyManifest_iff p).mp h
  rw [verifyManifest_iff, hsame, ← hcovered.agentId, ← (computeHash_eq_iff hhash).mpr hcovered]
  exact ⟨hempty, signature, key, hsignature, hkey, hlength, hverify⟩

/-- The signature of an accepted manifest protects it against just those changes that
touch something else than its reputation and its metadata. -/
theorem signature_covers_manifest_iff (hhash : Function.Injective p.sha256) {signed : Signings}
    (hsigned : Unforgeable p signed) (haccepted : (verifyManifest p m dids).1 = true) (hsame : m'.signature = m.signature) :
    Covers p m m' ↔ ¬(m.SameCovered m' ∧ ¬m.SameUncovered m') := by
  constructor
  · rintro hcovers ⟨hcovered, huncovered⟩
    have hverified := verified_of_sameCovered hhash haccepted hsame hcovered
    exact huncovered ((hcovers dids).1 hverified).2
  · intro hnot dids'
    have hagree : (verifyManifest p m' dids').1 = true → m.Agree m' := by
      intro hverified
      have hcovered := sameCovered_of_verified hhash hsigned haccepted hverified hsame
      refine ⟨hcovered, ?_⟩
      by_contra huncovered
      exact hnot ⟨hcovered, huncovered⟩
    exact ⟨hagree, fun _ hpublished => hagree (verified_of_published hpublished)⟩

def eightTenths : JsonNumber := ⟨.float "0.8", rfl, by decide +kernel⟩

def one : JsonNumber := ⟨.float "1.0", rfl, by decide +kernel⟩

def sampleSignature : List UInt8 := List.replicate 64 0

def sampleKey : List UInt8 := List.replicate 32 0

def sampleManifest : AgentManifest where
  agentId := "did:key:zAgent"
  capabilities := ["planning"]
  ioSchema := []
  pricePerTask := one
  avgLatencyMs := 500
  tags := []
  pubkey := "key"
  reputation := eightTenths
  signature := Python.hex sampleSignature
  timestampNs := 1
  version := "1.0"
  metadata := []
  ioSchemaWellFormed := rfl
  metadataWellFormed := rfl

/-- The same manifest with the best reputation there is. -/
def boostedManifest : AgentManifest := { sampleManifest with reputation := one }

def cheaperManifest : AgentManifest := { sampleManifest with pricePerTask := eightTenths }

def sampleHash : String := Python.hex (Python.encodeUtf8 sampleManifest.canonicalJson)

/-- A stand-in for the primitives in which the sample manifest was the only thing ever signed. -/
def sampleSigning : SigningPrimitives where
  publicKey := id
  b58encode := fun _ => "key"
  sha256 := Python.encodeUtf8
  timeText := fun _ => ""
  b58decode := fun _ => some sampleKey
  sign := fun _ _ => sampleSignature
  verify := fun _ message _ => message = sampleHash

def sampleDids : DIDManager where
  didCache := Table.empty.upsert "did:key:zAgent" ⟨"did:key:zAgent", "key", none, []⟩
  signingKeys := .empty
  hasLedger := false
  powDifficulty := 2
  rateLimitPerHour := 10
  creationTimestamps := .empty

theorem sampleSigning_injective : Function.Injective sampleSigning.sha256 := by
  intro a b h
  have hdecoded := congrArg Python.decodeUtf8 h
  rw [sampleSigning, Python.decodeUtf8_encodeUtf8, Python.decodeUtf8_encodeUtf8] at hdecoded
  exact Option.some.inj hdecoded

theorem sampleSigning_verify {key signature : List UInt8} {message : String} :
    sampleSigning.verify key message signature = true ↔ message = sampleHash := by
  simp only [sampleSigning, decide_eq_true_eq]

theorem sampleSigning_unforgeable :
    Unforgeable sampleSigning fun key message signature => sampleSigning.verify key message signature = true := by
  constructor
  · exact fun _ _ _ h => h
  · intro _ _ _ _ _ h h'
    rw [sampleSigning_verify.mp h, sampleSigning_verify.mp h']

theorem sampleManifest_accepted : (verifyManifest sampleSigning sampleManifest sampleDids).1 = true := by
  have hempty : sampleManifest.signature ≠ "" := by decide +kernel
  have hsignature : Python.fromHex sampleManifest.signature = some sampleSignature := Python.fromHex_hex sampleSignature
  have hlength : sampleSignature.length = 64 := List.length_replicate
  have hkey : sampleDids.keyOf sampleSigning sampleManifest.agentId = some sampleKey := by decide +kernel
  refine (verifyManifest_iff _).mpr ⟨hempty, sampleSignature, sampleKey, hsignature, hkey, hlength, ?_⟩
  rw [sampleSigning_verify, AgentManifest.computeHash, sampleHash, sampleSigning]

theorem signature_covers_manifest_iff_cheaper : Covers sampleSigning sampleManifest cheaperManifest := by
  have hsame : cheaperManifest.signature = sampleManifest.signature := rfl
  refine (signature_covers_manifest_iff sampleSigning_injective sampleSigning_unforgeable sampleManifest_accepted hsame).mpr ?_
  rintro ⟨hcovered, _⟩
  have hprice : one = eightTenths := hcovered.pricePerTask
  revert hprice
  decide

theorem boosted_reputation_published :
    Function.Injective sampleSigning.sha256 ∧
    Unforgeable sampleSigning (fun key message signature => sampleSigning.verify key message signature = true) ∧
    boostedManifest.signature = sampleManifest.signature ∧
    (verifyManifest sampleSigning sampleManifest sampleDids).1 = true ∧
    (verifyManifest sampleSigning boostedManifest sampleDids).1 = true ∧
    (publishManifest sampleSigning boostedManifest (some .new) sampleDids).1 = true ∧
    ¬sampleManifest.Agree boostedManifest := by
  have hcovered : sampleManifest.SameCovered boostedManifest :=
    ⟨rfl, .refl _, rfl, rfl, rfl, .refl _, rfl, rfl, rfl⟩
  have hsame : boostedManifest.signature = sampleManifest.signature := rfl
  have hverified := verified_of_sameCovered sampleSigning_injective sampleManifest_accepted hsame hcovered
  refine ⟨sampleSigning_injective, sampleSigning_unforgeable, hsame, sampleManifest_accepted, hverified,
    published_of_verified hverified .new, fun hagree => ?_⟩
  have hreputation : eightTenths = one := hagree.2.reputation
  revert hreputation
  decide

end ManifestManager

end AgentNetwork.Identity
