import AgentNetwork.Economics.Ledger
import AgentNetwork.Library.Double
import AgentNetwork.Library.Awaiting
import AgentNetwork.Library.SlidingWindow

namespace AgentNetwork.Identity

open Relational Transactional Transactional.Prog Python

/-- What the code calls: the public key of a 32-byte seed, base58, SHA-256 of a
text, and the text of a clock reading. -/
structure Primitives where
  publicKey : List UInt8 → List UInt8
  b58encode : List UInt8 → String
  sha256 : String → List UInt8
  timeText : ℚ → String

structure VerificationMethod where
  id : String
  type : String
  controller : String
  publicKeyBase58 : String
  deriving DecidableEq

structure DIDDocument where
  id : String
  publicKey : String
  verificationMethod : Option VerificationMethod
  authentication : List String
  deriving DecidableEq

/-- The manager; a signing key is its seed. -/
structure DIDManager where
  didCache : Table String DIDDocument
  signingKeys : Table String (List UInt8)
  hasLedger : Bool
  powDifficulty : Int
  rateLimitPerHour : Int
  creationTimestamps : Table String (List ℚ)
  deriving DecidableEq

def minDidStake : Int := 1000

/-- The readings of the clock in one call: at the rate limit, for the escrow or the
proof of work, and at the end. -/
structure Readings where
  checked : ℚ
  staked : ℚ
  created : ℚ

/-- The arguments of one call, the key it would generate and what it reads. -/
structure CreateCall where
  ed25519Key : Option (List UInt8)
  accountId : Option String
  generated : List UInt8
  readings : Readings

/-- `if account_id`. -/
def givenAccount (accountId : Option String) : Option String := accountId.filter (· ≠ "")

namespace DIDManager

def timestampsOf (account : String) (m : DIDManager) : List ℚ := (m.creationTimestamps.get? account).getD []

/-- `_check_rate_limit`: old timestamps are dropped whether it raises or not. -/
def checkRateLimit (account : String) (now : ℚ) (m : DIDManager) : Except ValueError Unit × DIDManager :=
  let kept := SlidingWindow.recent 3600 now (m.timestampsOf account)
  let m := { m with creationTimestamps := m.creationTimestamps.upsert account kept }
  if m.rateLimitPerHour ≤ (kept.length : Int) then
    (.error ⟨s!"Rate limit exceeded: maximum {m.rateLimitPerHour} DIDs per hour. Try again later."⟩, m)
  else (.ok (), m)

/-- `int(time.time()*1000)`. -/
def milliseconds (now : ℚ) : Int := Double.trunc (Double.nearest (now * 1000))

def stakeId (account : String) (now : ℚ) : String := s!"did_stake_{account}_{milliseconds now}"

def ledgerText : LedgerError → String
  | .valueError message | .insufficientBalance message | .accountExists message | .escrowNotFound message
  | .escrowAlreadyReleased message | .insufficientStake message | .integrity message | .jsonDecode message => message

/-- `_require_stake`. -/
def requireStake (account : String) (now : ℚ) : Prog ValueError Db Unit := do
  let balance ← query (CreditLedger.getBalance account)
  raiseIf (balance < minDidStake)
    ⟨s!"Insufficient balance for DID creation. Required: {minDidStake}, Available: {balance}"⟩
  mapError (fun e => ⟨"Failed to lock stake: " ++ ledgerText e⟩)
    (CreditLedger.escrow account minDidStake (stakeId account now))

def leadingZeros : List UInt8 → Nat
  | [] => 0
  | byte :: rest => if byte = 0 then 8 + leadingZeros rest else 8 - (byte.toNat.log2 + 1)

section Create

variable (p : Primitives)

/-- The search for a nonce, from this one on. -/
def findNonce (timestamp : String) (targetZeros : Int) : Nat → Nat → Option Nat
  | 0, _ => none
  | attempts + 1, nonce =>
    if targetZeros ≤ leadingZeros (p.sha256 (timestamp ++ toString nonce)) then some nonce
    else findNonce timestamp targetZeros attempts (nonce + 1)

def requireProofOfWork (now : ℚ) (m : DIDManager) : Except ValueError Unit :=
  match findNonce p (p.timeText now) m.powDifficulty 1000001 0 with
  | some _ => .ok ()
  | none => .error ⟨"PoW failed after 1M attempts"⟩

/-- The stake or the proof of work. -/
def resist (call : CreateCall) (m : DIDManager) : Prog ValueError Db Unit :=
  if m.hasLedger then
    match givenAccount call.accountId with
    | none => raise ⟨"account_id required when ledger is provided"⟩
    | some account => requireStake account call.readings.staked
  else
    match requireProofOfWork p call.readings.staked m with
    | .ok _ => pure ()
    | .error e => raise e

/-- `nacl.signing.SigningKey(seed)`. -/
def signingKey (seed : List UInt8) : Except ValueError (List UInt8) :=
  if seed.length = 32 then .ok seed else .error ⟨"The seed must be exactly 32 bytes long"⟩

/-- The key that is given, unless it is empty, or a new one. -/
def chooseKey (call : CreateCall) : Except ValueError (List UInt8) :=
  match call.ed25519Key.filter (· ≠ []) with
  | some key => signingKey key
  | none => .ok call.generated

/-- The DID of a public key: the multicodec prefix 0xed01 and base58btc. -/
def didOf (publicKey : List UInt8) : String := "did:key:z" ++ p.b58encode (0xed :: 0x01 :: publicKey)

def documentOf (did : String) (publicKey : List UInt8) : DIDDocument :=
  let publicKeyB58 := p.b58encode publicKey
  ⟨did, publicKeyB58, some ⟨did ++ "#key-1", "Ed25519VerificationKey2020", did, publicKeyB58⟩, []⟩

/-- The key and the document are cached, and the creation is counted. -/
def register (call : CreateCall) (seed : List UInt8) (m : DIDManager) : String × DIDManager :=
  let publicKey := p.publicKey seed
  let did := didOf p publicKey
  let creationTimestamps :=
    match givenAccount call.accountId with
    | none => m.creationTimestamps
    | some account => m.creationTimestamps.upsert account (m.timestampsOf account ++ [call.readings.created])
  (did, { m with
    signingKeys := m.signingKeys.upsert did seed
    didCache := m.didCache.upsert did (documentOf p did publicKey)
    creationTimestamps := creationTimestamps })

/-- The check of the rate limit, where there is one. -/
def limited (call : CreateCall) (m : DIDManager) : Except ValueError Unit × DIDManager :=
  match givenAccount call.accountId with
  | none => (.ok (), m)
  | some account => if 0 < m.rateLimitPerHour then m.checkRateLimit account call.readings.checked else (.ok (), m)

/-- `create_did_key`. -/
def createDidKey (env : Env) (call : CreateCall) (m : DIDManager) (ledger : Session Db) :
    Outcome ValueError String × DIDManager × Session Db :=
  match m.limited call with
  | (.error e, m) => (.raises e, m, ledger)
  | (.ok _, m) =>
    match resist p call m env ledger with
    | (.raises e, ledger) => (.raises e, m, ledger)
    | (.blocks, ledger) => (.blocks, m, ledger)
    | (.returns _, ledger) =>
      match chooseKey call with
      | .error e => (.raises e, m, ledger)
      | .ok seed =>
        let (did, m) := m.register p call seed
        (.returns did, m, ledger)

end Create

end DIDManager

end AgentNetwork.Identity
