import AgentNetwork.Identity.Manifest
import AgentNetwork.Identity.Stakes
import AgentNetwork.Library.PythonText
import AgentNetwork.Library.Traces

/-! Signing and verifying with DIDs: the keys of a manager, and the documents that it
has cached. -/

namespace AgentNetwork.Identity

open Relational Transactional Python Transition DIDManager

/-- What the code calls besides: base58 back to bytes, `none` where it raises, and Ed25519
on bytes. -/
structure Cryptography extends Primitives where
  b58decode : String → Option (List UInt8)
  sign : List UInt8 → List UInt8 → List UInt8
  verify : List UInt8 → List UInt8 → List UInt8 → Bool

/-- The same, of the bytes of texts. -/
def Cryptography.onTexts (c : Cryptography) : SigningPrimitives :=
  { c.toPrimitives with
    b58decode := c.b58decode
    sign := fun seed text => c.sign seed (encodeUtf8 text)
    verify := fun publicKey text signature => c.verify publicKey (encodeUtf8 text) signature }

/-- Base58 can be read back and has no colon among its letters, and a signature of a seed
verifies under its key. -/
structure Cryptography.Lawful (c : Cryptography) : Prop where
  decodes : ∀ data, c.b58decode (c.b58encode data) = some data
  encodesEmpty : c.b58encode [] = ""
  alphabet : ∀ data, ':' ∉ (c.b58encode data).toList
  keyLength : ∀ seed, seed.length = 32 → (c.publicKey seed).length = 32
  signatureLength : ∀ seed data, seed.length = 32 → (c.sign seed data).length = 64
  verifies : ∀ seed data, seed.length = 32 → c.verify (c.publicKey seed) data (c.sign seed data) = true

/-- No other key verifies all that a seed signs. -/
def Cryptography.Exclusive (c : Cryptography) : Prop :=
  ∀ seed publicKey, seed.length = 32 → (∀ data, c.verify publicKey data (c.sign seed data) = true) →
    publicKey = c.publicKey seed

namespace DIDManager

section Methods

variable (c : Cryptography)

/-- `create_did_peer`. -/
def createDidPeer (peerId : String) : String :=
  "did:peer:0" ++ if 'z' ∈ peerId.toList.head? then peerId else "z" ++ c.b58encode (encodeUtf8 peerId)

/-- What `resolve_did` makes of a DID that is not cached. -/
def freshDocument (did : String) : Option DIDDocument :=
  if "did:key:".toList.isPrefixOf did.toList then didKeyDocument c.onTexts did
  else if "did:peer:".toList.isPrefixOf did.toList then some ⟨did, "", none, []⟩
  else none

/-- `sign_with_did`, of bytes. -/
def signBytes (data : List UInt8) (did : String) (m : DIDManager) : Option (List UInt8) :=
  (m.signingKeys.get? did).map fun seed => c.sign seed data

/-- The check of `verify_did_signature` under the key of a document. -/
def checkSignature (data signature : List UInt8) (doc : Option DIDDocument) : Bool :=
  match doc.bind (verifyKey c.onTexts) with
  | some key => decide (signature.length = 64) && c.verify key data signature
  | none => false

/-- `verify_did_signature`, of bytes. -/
def verifyBytes (data signature : List UInt8) (did : String) (m : DIDManager) : Bool × DIDManager :=
  let (doc, m) := m.resolveDid c.onTexts did
  (checkSignature c data signature doc, m)

theorem signWithDid_onTexts (text did : String) (m : DIDManager) :
    m.signWithDid c.onTexts text did = m.signBytes c (encodeUtf8 text) did := rfl

theorem verifyDidSignature_onTexts (text did : String) (signature : List UInt8) (m : DIDManager) :
    m.verifyDidSignature c.onTexts text signature did = m.verifyBytes c (encodeUtf8 text) signature did := by
  unfold verifyDidSignature verifyBytes checkSignature
  dsimp only
  cases (m.resolveDid c.onTexts did).1.bind (verifyKey c.onTexts) with
  | none => rfl
  | some key => rfl

theorem resolveDid_eq (did : String) (m : DIDManager) : m.resolveDid c.onTexts did =
    match m.didCache.get? did with
    | some doc => (some doc, m)
    | none => m.remember did (freshDocument c did) := by
  unfold resolveDid freshDocument
  cases m.didCache.get? did with
  | some doc => rfl
  | none =>
    dsimp only
    split
    · rfl
    · split
      · rfl
      · rfl

end Methods

/-- `import_did_key`. -/
def importDidKey (did : String) (privateKey : List UInt8) (m : DIDManager) : Bool × DIDManager :=
  match signingKey privateKey with
  | .ok seed => (true, { m with signingKeys := m.signingKeys.upsert did seed })
  | .error _ => (false, m)

end DIDManager

inductive DidCall
  | createDidKey (call : CreateCall)
  | createDidPeer (peerId : String)
  | importDidKey (did : String) (privateKey : List UInt8)
  | resolveDid (did : String)
  | verifyDidSignature (data signature : List UInt8) (did : String)

/-- A manager and the ledger that it was given. -/
abbrev Keeper := DIDManager × Session Db

section Calls

variable (c : Cryptography) (env : Env)

def Keeper.call (k : Keeper) : DidCall → Keeper
  | .createDidKey call => (createDidKey c.toPrimitives env call k.1 k.2).2
  | .createDidPeer _ => k
  | .importDidKey did privateKey => ((importDidKey did privateKey k.1).2, k.2)
  | .resolveDid did => ((k.1.resolveDid c.onTexts did).2, k.2)
  | .verifyDidSignature data signature did => ((k.1.verifyBytes c data signature did).2, k.2)

/-- A key that is generated has 32 bytes. -/
def DidCall.Drawn : DidCall → Prop
  | .createDidKey call => call.generated.length = 32
  | .createDidPeer _ | .importDidKey _ _ | .resolveDid _ | .verifyDidSignature _ _ _ => True

def Keeper.Step (k : Keeper) (a : DidCall) (k' : Keeper) : Prop := a.Drawn ∧ k' = k.call c env a

/-- What the manager signs with a DID verifies under that DID, here and with a manager that
has not cached it. -/
def SignaturesVerify (m : DIDManager) : Prop :=
  ∀ did data signature, m.signBytes c data did = some signature →
    (m.verifyBytes c data signature did).1 = true ∧
      ∀ other : DIDManager, other.didCache.get? did = none → (other.verifyBytes c data signature did).1 = true

/-- The DID resolves to this seed's public key. -/
def Spells (did : String) (seed : List UInt8) : Prop :=
  (freshDocument c did).bind (verifyKey c.onTexts) = some (c.publicKey seed)

/-- A key that is imported is the one that its DID spells. -/
def DidCall.ImportsOwn : DidCall → Prop
  | .importDidKey did privateKey => privateKey.length = 32 → Spells c did privateKey
  | .createDidKey _ | .createDidPeer _ | .resolveDid _ | .verifyDidSignature _ _ _ => True

/-- What is cached is what would be made afresh. -/
def CachedFresh (m : DIDManager) : Prop := ∀ did doc, m.didCache.get? did = some doc → freshDocument c did = some doc

/-- The cache agrees with the resolver, and each key with its DID. -/
structure Coherent (m : DIDManager) : Prop where
  cached : CachedFresh c m
  keys : ∀ did seed, m.signingKeys.get? did = some seed → seed.length = 32 ∧ Spells c did seed

end Calls

section Resolution

variable {c : Cryptography} {m : DIDManager} {did : String} {seed data signature : List UInt8}

theorem didOf_eq (p : Primitives) (publicKey : List UInt8) : didOf p publicKey =
    String.ofList ("did:key:".toList ++ 'z' :: (p.b58encode (0xed :: 0x01 :: publicKey)).toList) := by
  refine String.toList_injective ?_
  simp only [didOf, String.toList_append, String.toList_ofList]
  rfl

/-- The DID that is made for a key resolves to its document. -/
theorem freshDocument_didOf (hc : c.Lawful) (publicKey : List UInt8) :
    freshDocument c (didOf c.toPrimitives publicKey) =
      some (documentOf c.toPrimitives (didOf c.toPrimitives publicKey) publicKey) := by
  have hcolon : ':' ∉ 'z' :: (c.b58encode (0xed :: 0x01 :: publicKey)).toList := by
    rw [List.mem_cons, not_or]
    exact ⟨by decide, hc.alphabet _⟩
  have hmark : ':' ∈ "did:key:".toList := by decide
  have hsplit := splitOn_prefix hmark hcolon
  rw [← didOf_eq, String.ofList_toList] at hsplit
  have hmethod : "did:key:".toList.isPrefixOf (didOf c.toPrimitives publicKey).toList = true := by
    simp only [didOf_eq, String.toList_ofList]
    exact List.isPrefixOf_iff_prefix.mpr (List.prefix_append _ _)
  have hdecodes : c.onTexts.b58decode (c.b58encode (0xed :: 0x01 :: publicKey)) = some (0xed :: 0x01 :: publicKey) := hc.decodes _
  simp only [freshDocument, if_pos hmethod, didKeyDocument, hsplit, List.getElem?_cons_succ, List.getElem?_cons_zero,
    Option.map_some, String.toList_ofList, String.ofList_toList, hdecodes, Option.filter_some]
  rfl

theorem verifyKey_documentOf (hc : c.Lawful) {publicKey : List UInt8} (h : publicKey.length = 32) (did : String) :
    verifyKey c.onTexts (documentOf c.toPrimitives did publicKey) = some publicKey := by
  have hempty : c.b58encode publicKey ≠ "" := by
    intro hnone
    have hsame := hc.decodes publicKey
    rw [hnone, ← hc.encodesEmpty, hc.decodes] at hsame
    rw [← Option.some.inj hsame] at h
    cases h
  have hdecodes : c.onTexts.b58decode (c.b58encode publicKey) = some publicKey := hc.decodes publicKey
  rw [verifyKey, documentOf]
  dsimp only
  rw [if_neg hempty, hdecodes, Option.filter_some_pos (by simpa using h)]

/-- The DID that is made for a seed spells it. -/
theorem spells_didOf (hc : c.Lawful) (hlength : seed.length = 32) : Spells c (didOf c.toPrimitives (c.publicKey seed)) seed := by
  rw [Spells, freshDocument_didOf hc, Option.bind_some, verifyKey_documentOf hc (hc.keyLength seed hlength)]

/-- A cache that agrees with the resolver keeps agreeing, and the answer is the fresh one. -/
theorem CachedFresh.resolve (h : CachedFresh c m) (did : String) :
    (m.resolveDid c.onTexts did).1 = freshDocument c did ∧ CachedFresh c (m.resolveDid c.onTexts did).2 ∧
      (m.resolveDid c.onTexts did).2.signingKeys = m.signingKeys := by
  rw [resolveDid_eq]
  cases hcached : m.didCache.get? did with
  | some doc => exact ⟨(h did doc hcached).symm, h, rfl⟩
  | none =>
    cases hfresh : freshDocument c did with
    | none => exact ⟨rfl, h, rfl⟩
    | some doc =>
      refine ⟨rfl, ?_, rfl⟩
      intro other doc' hget
      dsimp only [remember] at hget
      rw [Table.get?_upsert] at hget
      split at hget
      next heq =>
        rw [heq, hfresh]
        exact hget
      next => exact h other doc' hget

theorem CachedFresh.verify (h : CachedFresh c m) (data signature : List UInt8) (did : String) :
    (m.verifyBytes c data signature did).1 = checkSignature c data signature (freshDocument c did) :=
  congrArg (checkSignature c data signature) (h.resolve did).1

theorem verify_of_unseen (h : m.didCache.get? did = none) :
    (m.verifyBytes c data signature did).1 = checkSignature c data signature (freshDocument c did) := by
  unfold DIDManager.verifyBytes
  rw [resolveDid_eq, h]
  cases freshDocument c did <;> rfl

theorem checkSignature_iff {doc : Option DIDDocument} : checkSignature c data signature doc = true ↔
    ∃ key, doc.bind (verifyKey c.onTexts) = some key ∧ signature.length = 64 ∧ c.verify key data signature = true := by
  unfold checkSignature
  cases doc.bind (verifyKey c.onTexts) with
  | none => simp
  | some key => simp

/-- Keys that agree with their DIDs sign what verifies. -/
theorem Coherent.signaturesVerify (hc : c.Lawful) (h : Coherent c m) : SignaturesVerify c m := by
  intro did data signature hsign
  obtain ⟨seed, hseed, rfl⟩ := Option.map_eq_some_iff.mp hsign
  obtain ⟨hlength, hspells⟩ := h.keys did seed hseed
  have hpasses : checkSignature c data (c.sign seed data) (freshDocument c did) = true :=
    checkSignature_iff.mpr ⟨_, hspells, hc.signatureLength seed data hlength, hc.verifies seed data hlength⟩
  exact ⟨(h.cached.verify data _ did).trans hpasses, fun other hunseen => (verify_of_unseen hunseen).trans hpasses⟩

/-- A manager that keeps a key for a DID and has all its signatures verified keeps the DID's own. -/
theorem CachedFresh.spells_of_verify (hex : c.Exclusive) (h : CachedFresh c m)
    (hseed : m.signingKeys.get? did = some seed) (hlength : seed.length = 32) (hverify : SignaturesVerify c m) :
    Spells c did seed := by
  have hpasses : ∀ data, ∃ key, (freshDocument c did).bind (verifyKey c.onTexts) = some key ∧
      (c.sign seed data).length = 64 ∧ c.verify key data (c.sign seed data) = true := by
    intro data
    have hsign : m.signBytes c data did = some (c.sign seed data) := by rw [signBytes, hseed, Option.map_some]
    have hverified := (hverify did data _ hsign).1
    rw [h.verify] at hverified
    exact checkSignature_iff.mp hverified
  obtain ⟨key, hkey, _⟩ := hpasses []
  rw [Spells, hkey, hex seed key hlength]
  intro data
  obtain ⟨other, hother, _, hverified⟩ := hpasses data
  rw [hkey] at hother
  rwa [← Option.some.inj hother] at hverified

end Resolution

section Steps

variable {c : Cryptography} {env : Env} {k k' : Keeper} {a : DidCall} {call : CreateCall} {seed : List UInt8}

theorem chooseKey_length (hdrawn : call.generated.length = 32) (h : chooseKey call = .ok seed) : seed.length = 32 := by
  unfold chooseKey at h
  split at h
  next key _ =>
    unfold signingKey at h
    split at h
    next hlength =>
      cases h
      exact hlength
    next => cases h
  next =>
    cases h
    exact hdrawn

/-- A creation leaves the keys and the cache, or registers a seed of 32 bytes. -/
theorem createDidKey_cases (p : Primitives) (env : Env) {m : DIDManager} (ledger : Session Db)
    (hdrawn : call.generated.length = 32) :
    ((createDidKey p env call m ledger).2.1.didCache = m.didCache ∧
      (createDidKey p env call m ledger).2.1.signingKeys = m.signingKeys) ∨
    ∃ seed, seed.length = 32 ∧
      (createDidKey p env call m ledger).2.1.didCache =
        m.didCache.upsert (didOf p (p.publicKey seed)) (documentOf p (didOf p (p.publicKey seed)) (p.publicKey seed)) ∧
      (createDidKey p env call m ledger).2.1.signingKeys = m.signingKeys.upsert (didOf p (p.publicKey seed)) seed := by
  have hsame := limited_same call m
  unfold createDidKey
  generalize m.limited call = checked at hsame
  obtain ⟨result, m'⟩ := checked
  have hkept : m'.didCache = m.didCache ∧ m'.signingKeys = m.signingKeys := ⟨hsame.didCache, hsame.signingKeys⟩
  cases result with
  | error e => exact .inl hkept
  | ok _ =>
    dsimp only
    cases hresist : resist p call m' env ledger with
    | mk out ledger' =>
      cases out with
      | raises e => exact .inl hkept
      | blocks => exact .inl hkept
      | returns _ =>
        dsimp only
        cases hkey : chooseKey call with
        | error e => exact .inl hkept
        | ok seed =>
          refine .inr ⟨seed, chooseKey_length hdrawn hkey, ?_, ?_⟩
          · rw [← hkept.1]
            rfl
          · rw [← hkept.2]
            rfl

/-- A key that is stored under a DID that spells it leaves the manager coherent. -/
theorem Coherent.store {m : DIDManager} (h : Coherent c m) (m' : DIDManager) {did : String} (hcached : CachedFresh c m')
    (hkeys : m'.signingKeys = m.signingKeys.upsert did seed) (hlength : seed.length = 32) (hspells : Spells c did seed) :
    Coherent c m' := by
  refine ⟨hcached, ?_⟩
  intro other seed' hget
  rw [hkeys, Table.get?_upsert] at hget
  split at hget
  next heq =>
    cases hget
    rw [heq]
    exact ⟨hlength, hspells⟩
  next => exact h.keys other seed' hget

theorem Coherent.create (hc : c.Lawful) (h : Coherent c k.1) (hdrawn : call.generated.length = 32) :
    Coherent c (k.call c env (.createDidKey call)).1 := by
  have hcases := createDidKey_cases c.toPrimitives env (m := k.1) k.2 hdrawn
  rcases hcases with ⟨hcache, hkeys⟩ | ⟨seed, hlength, hcache, hkeys⟩
  · constructor
    · intro did doc hget
      exact h.cached did doc (hcache ▸ hget)
    · intro did seed hget
      exact h.keys did seed (hkeys ▸ hget)
  · refine h.store _ ?_ hkeys hlength (spells_didOf hc hlength)
    intro did doc hget
    rw [Keeper.call, hcache, Table.get?_upsert] at hget
    split at hget
    next heq =>
      rw [heq, freshDocument_didOf hc]
      exact hget
    next => exact h.cached did doc hget

theorem Coherent.resolve {m : DIDManager} (h : Coherent c m) (did : String) : Coherent c (m.resolveDid c.onTexts did).2 := by
  obtain ⟨_, hcached, hkeys⟩ := h.cached.resolve did
  exact ⟨hcached, fun other seed hget => h.keys other seed (hkeys ▸ hget)⟩

/-- A step from a coherent manager has all signatures verify just when it imports no key
under a DID that is not the key's. -/
theorem Coherent.step_iff (hc : c.Lawful) (hex : c.Exclusive) (h : Coherent c k.1) (hstep : k.Step c env a k') :
    SignaturesVerify c k'.1 ↔ a.ImportsOwn c := by
  obtain ⟨hdrawn, rfl⟩ := hstep
  cases a with
  | createDidKey call => exact iff_of_true ((h.create hc hdrawn).signaturesVerify hc) trivial
  | createDidPeer peerId => exact iff_of_true (h.signaturesVerify hc) trivial
  | resolveDid did => exact iff_of_true ((h.resolve did).signaturesVerify hc) trivial
  | verifyDidSignature data signature did => exact iff_of_true ((h.resolve did).signaturesVerify hc) trivial
  | importDidKey did privateKey =>
    by_cases hlength : privateKey.length = 32
    · have himport : importDidKey did privateKey k.1 = (true, { k.1 with signingKeys := k.1.signingKeys.upsert did privateKey }) := by
        rw [importDidKey, signingKey, if_pos hlength]
      constructor
      · intro hverify _
        rw [Keeper.call, himport] at hverify
        exact CachedFresh.spells_of_verify (m := { k.1 with signingKeys := k.1.signingKeys.upsert did privateKey }) hex
          h.cached (by simp) hlength hverify
      · intro hown
        rw [Keeper.call, himport]
        exact (h.store { k.1 with signingKeys := k.1.signingKeys.upsert did privateKey } h.cached rfl hlength
          (hown hlength)).signaturesVerify hc
    · have himport : (importDidKey did privateKey k.1).2 = k.1 := by rw [importDidKey, signingKey, if_neg hlength]
      rw [Keeper.call, himport]
      exact iff_of_true (h.signaturesVerify hc) fun hlength' => absurd hlength' hlength

theorem Coherent.step (hc : c.Lawful) (h : Coherent c k.1) (hown : a.ImportsOwn c) (hstep : k.Step c env a k') :
    Coherent c k'.1 := by
  obtain ⟨hdrawn, rfl⟩ := hstep
  cases a with
  | createDidKey call => exact h.create hc hdrawn
  | createDidPeer peerId => exact h
  | resolveDid did => exact h.resolve did
  | verifyDidSignature data signature did => exact h.resolve did
  | importDidKey did privateKey =>
    rw [Keeper.call, importDidKey, signingKey]
    by_cases hlength : privateKey.length = 32
    · rw [if_pos hlength]
      exact h.store { k.1 with signingKeys := k.1.signingKeys.upsert did privateKey } h.cached rfl hlength (hown hlength)
    · rw [if_neg hlength]
      exact h

/-- A manager that has made and imported nothing yet. -/
def Keeper.New (k : Keeper) : Prop := k.1.didCache = .empty ∧ k.1.signingKeys = .empty

theorem Keeper.New.coherent (h : k.New) : Coherent c k.1 := by
  constructor
  · intro did doc hget
    rw [h.1] at hget
    cases hget
  · intro did seed hget
    rw [h.2] at hget
    cases hget

/-- All that is signed in a run verifies exactly if each key that is imported in it is the
one its DID spells. -/
theorem signatures_verify_iff (hc : c.Lawful) (hex : c.Exclusive) (hnew : k.New) {steps : List (Keeper × DidCall × Keeper)}
    (h : Trace (Keeper.Step c env) k steps k') :
    (∀ e ∈ steps, SignaturesVerify c e.2.2.1) ↔ ∀ e ∈ steps, e.2.1.ImportsOwn c :=
  @Trace.forall_iff _ _ _ _ _ _ (fun _ a => a.ImportsOwn c) (fun k => Coherent c k.1)
    (fun _ _ k' => SignaturesVerify c k'.1) h hnew.coherent (fun hI hok hstep => hI.step hc hok hstep) fun hI hstep => hI.step_iff hc hex hstep

end Steps

section Sample

open Policy (aliceSeed aliceKey malloryKey)

def mallorySeed : List UInt8 := List.replicate 32 1

def aliceMultikey : List UInt8 := 0xed :: 0x01 :: aliceKey
def aliceMultikeyText : String := "6MkiTBz1ymuepAQ4HEHYSF1H8quG5GLVVQR3djdX3mDooWp"
def aliceKeyText : String := "4zvwRjXUKGfvwnParsHAS3HuSVzV5cA4McphgmoCtajS"

def helloData : List UInt8 := [104, 101, 108, 108, 111]

def aliceHello : List UInt8 :=
  [226, 92, 135, 35, 208, 57, 254, 143, 69, 214, 201, 214, 168, 145, 127, 169, 27, 199, 84, 145, 60, 213, 150, 253, 53, 138, 73,
    58, 33, 163, 203, 89, 10, 101, 55, 186, 188, 125, 240, 64, 10, 182, 26, 5, 88, 156, 156, 54, 182, 90, 20, 56, 120, 203, 3, 65,
    212, 233, 228, 132, 25, 196, 55, 13]

def sampleKeyOf (seed : List UInt8) : List UInt8 :=
  if seed = aliceSeed then aliceKey else if seed = mallorySeed then malloryKey else seed

def sampleSignature (publicKey data : List UInt8) : List UInt8 :=
  if publicKey = aliceKey ∧ data = helloData then aliceHello else publicKey ++ (data ++ List.replicate 32 0).take 32

/-- Base58 of the first key and Ed25519 of the two seeds and of one message; elsewhere any
code that can be read back and any signature that names its key. -/
def sampleCryptography : Cryptography where
  publicKey := sampleKeyOf
  b58encode data := if data = aliceMultikey then aliceMultikeyText else if data = aliceKey then aliceKeyText else hex data
  sha256 _ := []
  timeText _ := ""
  b58decode text :=
    if text = aliceMultikeyText then some aliceMultikey else if text = aliceKeyText then some aliceKey else fromHex text
  sign seed data := sampleSignature (sampleKeyOf seed) data
  verify publicKey data signature := decide (signature = sampleSignature publicKey data)

theorem sampleKeyOf_length {seed : List UInt8} (h : seed.length = 32) : (sampleKeyOf seed).length = 32 := by
  unfold sampleKeyOf
  split
  · rfl
  · split
    · rfl
    · exact h

theorem hexDigits_plain {d : Nat} (h : d < 16) : Nat.digitChar d ≠ ':' ∧ Nat.digitChar d ≠ 'z' ∧ Nat.digitChar d ≠ 'k' := by
  revert d
  decide

theorem hex_plain {data : List UInt8} {c : Char} (h : c ∈ (hex data).toList) : c ≠ ':' ∧ c ≠ 'z' ∧ c ≠ 'k' := by
  rw [hex, String.toList_ofList] at h
  obtain ⟨b, _, hc⟩ := List.mem_flatMap.mp h
  have hb := b.toNat_lt
  simp only [hexByte, List.mem_cons, List.not_mem_nil, or_false] at hc
  rcases hc with rfl | rfl
  · exact hexDigits_plain (by omega)
  · exact hexDigits_plain (by omega)

theorem sampleCryptography_lawful : sampleCryptography.Lawful where
  decodes data := by
    simp only [sampleCryptography]
    by_cases hmultikey : data = aliceMultikey
    · simp [hmultikey]
    by_cases hkey : data = aliceKey
    · have hother : aliceKey ≠ aliceMultikey := by decide
      have htext : aliceKeyText ≠ aliceMultikeyText := by decide
      simp [hkey, hother, htext]
    have hfirst : hex data ≠ aliceMultikeyText := by
      intro he
      have hk : 'k' ∈ (hex data).toList := by
        rw [he]
        decide
      exact (hex_plain hk).2.2 rfl
    have hsecond : hex data ≠ aliceKeyText := by
      intro he
      have hz : 'z' ∈ (hex data).toList := by
        rw [he]
        decide
      exact (hex_plain hz).2.1 rfl
    simp only [if_neg hmultikey, if_neg hkey, if_neg hfirst, if_neg hsecond, fromHex_hex]
  encodesEmpty := rfl
  alphabet data := by
    simp only [sampleCryptography]
    split
    · decide
    · split
      · decide
      · exact fun h => (hex_plain h).1 rfl
  keyLength _ h := sampleKeyOf_length h
  signatureLength seed data h := by
    simp only [sampleCryptography, sampleSignature]
    split
    · rfl
    · simp [sampleKeyOf_length h]
  verifies _ _ _ := decide_eq_true rfl

theorem sampleCryptography_exclusive : sampleCryptography.Exclusive := by
  intro seed publicKey _ hall
  have hempty := hall []
  have hother : ([] : List UInt8) ≠ helloData := by decide
  simp only [sampleCryptography, sampleSignature, hother, and_false, if_false, List.append_cancel_right_eq,
    decide_eq_true_eq] at hempty
  exact hempty.symm

/-- No ledger, and a proof of work that any nonce gives. -/
def newKeeper : Keeper := (⟨.empty, .empty, false, 0, 10, .empty⟩, Session.empty)

def aliceDid : String := didOf sampleCryptography.toPrimitives (sampleCryptography.publicKey aliceSeed)

def createAlice : DidCall := .createDidKey ⟨some aliceSeed, none, mallorySeed, ⟨0, 0, 0⟩⟩

abbrev sampleCalls (calls : List DidCall) : Keeper := calls.foldl (Keeper.call sampleCryptography (countingEnv false)) newKeeper

abbrev sampleSteps (calls : List DidCall) : List (Keeper × DidCall × Keeper) :=
  stepsOf (Keeper.call sampleCryptography (countingEnv false)) newKeeper calls

theorem sample_trace (calls : List DidCall) (hdrawn : ∀ a ∈ calls, a.Drawn) :
    Trace (Keeper.Step sampleCryptography (countingEnv false)) newKeeper (sampleSteps calls) (sampleCalls calls) := by
  refine Trace.ofCalls fun e he => ⟨?_, stepsOf_call e he⟩
  exact hdrawn _ (mem_of_mem_stepsOf he)

theorem aliceDid_spells : Spells sampleCryptography aliceDid aliceSeed := spells_didOf sampleCryptography_lawful rfl

theorem signatures_verify_iff_sample :
    (sampleSteps [createAlice, .importDidKey aliceDid aliceSeed, .resolveDid aliceDid]).length = 3 ∧
    ∀ e ∈ sampleSteps [createAlice, .importDidKey aliceDid aliceSeed, .resolveDid aliceDid],
      SignaturesVerify sampleCryptography e.2.2.1 := by
  refine ⟨rfl, ?_⟩
  refine (signatures_verify_iff sampleCryptography_lawful sampleCryptography_exclusive (k := newKeeper) ⟨rfl, rfl⟩
    (sample_trace [createAlice, .importDidKey aliceDid aliceSeed, .resolveDid aliceDid] ?_)).mpr ?_
  · intro a ha
    simp only [List.mem_cons, List.not_mem_nil, or_false] at ha
    rcases ha with rfl | rfl | rfl <;> trivial
  · intro e he
    have ha := mem_of_mem_stepsOf he
    simp only [List.mem_cons, List.not_mem_nil, or_false] at ha
    rcases ha with ha | ha | ha <;> rw [ha]
    · trivial
    · exact fun _ => aliceDid_spells
    · trivial

/-- Another key that is imported under a DID, and one that is imported under a `did:peer`. -/
theorem imported_key_fails :
    ¬SignaturesVerify sampleCryptography (sampleCalls [createAlice, .importDidKey aliceDid mallorySeed]).1 ∧
    ¬SignaturesVerify sampleCryptography (sampleCalls [.importDidKey "did:peer:0zpeer" aliceSeed]).1 := by
  constructor
  · intro hverify
    have hfirst : Coherent sampleCryptography (sampleCalls [createAlice]).1 :=
      (Keeper.New.coherent (k := newKeeper) ⟨rfl, rfl⟩).create sampleCryptography_lawful rfl
    have hspells : Spells sampleCryptography aliceDid mallorySeed :=
      CachedFresh.spells_of_verify (m := (sampleCalls [createAlice, .importDidKey aliceDid mallorySeed]).1)
        sampleCryptography_exclusive hfirst.cached (by decide) rfl hverify
    have hkeys := aliceDid_spells.symm.trans hspells
    exact absurd (Option.some.inj hkeys) (by decide)
  · intro hverify
    have hspells : Spells sampleCryptography "did:peer:0zpeer" aliceSeed :=
      CachedFresh.spells_of_verify (m := (sampleCalls [.importDidKey "did:peer:0zpeer" aliceSeed]).1)
        sampleCryptography_exclusive nofun rfl rfl hverify
    cases hspells

end Sample

end AgentNetwork.Identity
