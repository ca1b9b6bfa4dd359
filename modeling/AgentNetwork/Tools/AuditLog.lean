import AgentNetwork.Bus.Delivery
import AgentNetwork.Economics.Operations
import AgentNetwork.Policy.Authenticity

/-! The audit log: the lines that are appended, and how the tools read one back. -/

namespace AgentNetwork.Tools

open Policy Bus

/-- What a caller passes to `log_event`, and the time it reads. -/
structure LogEvent where
  tsNs : Int
  threadId : String
  subject : String
  kind : String
  payload : Dict

section Write

variable (p : Primitives)

/-- The record `log_event` makes. -/
def LogEvent.record (e : LogEvent) : Dict :=
  [("ts_ns", .int e.tsNs),
    ("thread_id", .str e.threadId),
    ("subject", .str e.subject),
    ("kind", .str e.kind),
    ("payload_hash", .str (p.sha256Hex (cjson (.obj e.payload)))),
    ("payload", .obj e.payload),
    ("version", .int 1)]

/-- `write_jsonl`: the line that is appended; `none` where signing raises. -/
def writeJsonl (skB64 : Option String) (line : Dict) : Option String :=
  (signRecord p skB64 line).map fun signed => (Json.obj signed).write Json.compactStyle

def logEvent (skB64 : Option String) (e : LogEvent) : Option String := writeJsonl p skB64 (e.record p)

end Write

/-- `str.strip`. -/
def strip (text : String) : String :=
  String.ofList ((text.toList.dropWhile isSpace).reverse.dropWhile isSpace).reverse

/-- What a tool finds on a line: nothing on a blank one or one that is no JSON. -/
def readLine (line : String) : Option Json :=
  let text := strip line
  if text = "" then none else Json.loads text

/-- The key of a 32-byte seed verifies what the seed signs. -/
def SignaturesVerify (p : Primitives) : Prop :=
  ∀ seed message, seed.length = 32 → verifies p (p.publicKey seed) message (p.sign seed message) = true

theorem strip_eq_self {text : String} {first last : Char} {middle : List Char}
    (h : text.toList = first :: middle ++ [last]) (hfirst : isSpace first = false) (hlast : isSpace last = false) :
    strip text = text := by
  have hfront : text.toList.dropWhile isSpace = first :: middle ++ [last] := by
    rw [h, List.cons_append, List.dropWhile_cons, hfirst]
    rfl
  have hback : (first :: middle ++ [last]).reverse.dropWhile isSpace = (first :: middle ++ [last]).reverse := by
    rw [List.reverse_append, List.reverse_singleton, List.singleton_append, List.dropWhile_cons, hlast]
    rfl
  rw [strip, hfront, hback, List.reverse_reverse, ← h, String.ofList_toList]

theorem readLine_write {fields : Dict} (h : Json.wellFormedFields fields = true) :
    readLine ((Json.obj fields).write Json.compactStyle) = some (.obj fields) := by
  have hchars : ((Json.obj fields).write Json.compactStyle).toList =
      Json.openBrace :: Json.joinFields Json.compactStyle (Json.encodeFields Json.compactStyle fields) ++ [Json.closeBrace] := by
    rw [Json.write, String.toList_ofList, Json.encode]
  have hstrip := strip_eq_self hchars (by decide) (by decide)
  have hne : (Json.obj fields).write Json.compactStyle ≠ "" := by
    intro he
    rw [he] at hchars
    cases hchars
  have hread := Json.loads_write rfl Json.compactStyle_readable (.obj fields) h
  simp only [readLine, hstrip, if_neg hne, hread]

section ReadBack

variable {p : Primitives} {e : LogEvent} {skB64 : Option String} {line : String}

theorem LogEvent.record_keys (e : LogEvent) : ((e.record p).map Prod.fst).Nodup ∧
    ∀ key ∈ ["sig_b64", "sig_pk_b64", "metadata"], key ∉ (e.record p).map Prod.fst := by
  simp [record]

theorem LogEvent.record_wellFormed (hpayload : Json.wellFormedFields e.payload = true) :
    ∀ field ∈ e.record p, Json.wellFormed field.2 = true := by
  intro field hfield
  simp only [record, List.mem_cons, List.not_mem_nil, or_false] at hfield
  rcases hfield with rfl | rfl | rfl | rfl | rfl | rfl | rfl <;> simp [Json.wellFormed, hpayload]

/-- A line of the log holds the record with the key of a seed and its signature. -/
theorem logEvent_eq (h : logEvent p skB64 e = some line) : ∃ seed : List UInt8, seed.length = 32 ∧
    line = (Json.obj (sealed (e.record p) (p.publicKey seed) (p.sign seed (cjson (.obj (e.record p)))))).write
      Json.compactStyle := by
  obtain ⟨signed, hsigned, rfl⟩ := Option.map_eq_some_iff.mp h
  unfold signRecord at hsigned
  obtain ⟨text, _, hsigned⟩ := Option.bind_eq_some_iff.mp hsigned
  obtain ⟨seed, _, hsigned⟩ := Option.bind_eq_some_iff.mp hsigned
  split at hsigned
  next hlength =>
    rw [← Option.some.inj hsigned, withSignature_append e.record_keys.2]
    exact ⟨seed, hlength, rfl⟩
  next => cases hsigned

/-- A line reads back as the signed record of what was logged. -/
structure ReadsAs (p : Primitives) (line threadId : String) (payload event : Dict) : Prop where
  read : readLine line = some (.obj event)
  verified : verifyRecord p event = true
  thread : getKey event "thread_id" = .str threadId
  envelope : getOr event "payload" (.obj []) = .obj payload

theorem logEvent_readsAs (hp : SignaturesVerify p) (hpayload : Json.wellFormedFields e.payload = true)
    (h : logEvent p skB64 e = some line) : ∃ event, ReadsAs p line e.threadId e.payload event := by
  obtain ⟨seed, hseed, rfl⟩ := logEvent_eq h
  obtain ⟨hnodup, hkeys⟩ := e.record_keys (p := p)
  have hwell := sealed_wellFormed hnodup hkeys (LogEvent.record_wellFormed hpayload) (p.publicKey seed)
    (p.sign seed (cjson (.obj (e.record p))))
  refine ⟨_, readLine_write hwell, sealed_verifies p hkeys (hp seed _ hseed), ?_, ?_⟩
  · simp [getKey, getOr, sealed, LogEvent.record, List.lookup_cons]
  · simp [getOr, sealed, LogEvent.record, List.lookup_cons]

end ReadBack

/-- Where `sign_record` finds the seed of its key: in the environment, in the key file of an
agent, or in a new key of an agent that has none. -/
inductive KeySource
  | environment (skB64 : Option String)
  | keyFile (text : String)
  | generated (seed : { seed : List UInt8 // seed.length = 32 })

def KeySource.seed? : KeySource → Option (List UInt8)
  | environment skB64 => ((skB64.filter (· ≠ "")).bind Base64.b64decode).filter fun seed => seed.length = 32
  | keyFile text => (Base64.b64decode (strip text)).filter fun seed => seed.length = 32
  | generated seed => some seed.val

/-- `sign_record`; `none` where it raises. -/
def signRecordWith (p : Primitives) (source : KeySource) (record : Dict) : Option Dict :=
  source.seed?.map fun seed => withSignature (p.publicKey seed) (p.sign seed (cjson (.obj record))) record

/-- The signed record verifies as a line of the log that is read back, and with the keys of
its dictionaries in any other order. -/
def StoredVerifies (p : Primitives) (signed : Dict) : Prop :=
  (∃ event, readLine ((Json.obj signed).write Json.compactStyle) = some (.obj event) ∧ verifyRecord p event = true) ∧
    ∀ event, SameDict event signed → verifyRecord p event = true

/-- The record carries no signature from before. -/
def Fresh (record : Dict) : Prop := "sig_b64" ∉ record.map Prod.fst ∧ "sig_pk_b64" ∉ record.map Prod.fst

instance (record : Dict) : Decidable (Fresh record) := inferInstanceAs (Decidable (_ ∧ _))

section Resigned

variable {p : Primitives} {source : KeySource} {record signed : Dict} {seed pk signature : List UInt8} {line : String}

theorem KeySource.seed_length (h : source.seed? = some seed) : seed.length = 32 := by
  cases source with
  | environment | keyFile =>
    have hlength := (Option.filter_eq_some_iff.mp h).2
    simpa using hlength
  | generated drawn =>
    cases h
    exact drawn.property

/-- Without an agent id the key is that of the environment. -/
theorem signRecordWith_environment (skB64 : Option String) :
    signRecordWith p (.environment skB64) record = signRecord p skB64 record := by
  unfold signRecordWith signRecord KeySource.seed?
  dsimp only
  generalize skB64.filter (· ≠ "") = filled
  cases filled with
  | none => rfl
  | some text =>
    dsimp only [Option.bind_some, Option.bind_eq_bind]
    cases Base64.b64decode text with
    | none => rfl
    | some seed =>
      by_cases hlength : seed.length = 32
      · simp [hlength]
      · simp [hlength]

theorem unsigned_setField {key : String} (hkey : isSignatureField key = true) (record : Dict) (value : Json) :
    unsigned (Json.setField record key value) = unsigned record := by
  induction record with
  | nil => simp [unsigned, Json.setField, hkey]
  | cons field rest ih =>
    obtain ⟨k, v⟩ := field
    rw [Json.setField]
    split
    next hk => simp [unsigned, hk, hkey]
    next =>
      rw [unsigned, List.filter_cons, ← unsigned, ih, unsigned, unsigned, List.filter_cons]

theorem unsigned_withSignature : unsigned (withSignature pk signature record) = unsigned record := by
  rw [withSignature, unsigned_setField (by decide), unsigned_setField (by decide)]

/-- The verifier checks the new signature against the record without its old one. -/
theorem verifyRecord_withSignature (record : Dict) : verifyRecord p (withSignature pk signature record) =
    verifies p pk (cjson (.obj (unsigned record))) signature := by
  have hsig : getKey (withSignature pk signature record) "sig_b64" = .str (Base64.b64encode signature) := by
    simp [getKey, getOr, withSignature, lookup_setField]
  have hkey : getKey (withSignature pk signature record) "sig_pk_b64" = .str (Base64.b64encode pk) := by
    simp [getKey, getOr, withSignature, lookup_setField]
  have hne : ∀ {bytes : List UInt8}, 0 < bytes.length → Json.str (Base64.b64encode bytes) ≠ .str "" := by
    intro bytes hbytes he
    exact Base64.b64encode_ne_empty (List.ne_nil_of_length_pos hbytes) (Json.str.inj he)
  rw [Bool.eq_iff_iff, verifyRecord_iff, unsigned_withSignature, hsig, hkey, bytesOf_encoded hsig, bytesOf_encoded hkey]
  constructor
  · rintro ⟨signature', pk', hs, hk, _, _, hverifies⟩
    cases hs
    cases hk
    exact hverifies
  · intro hverifies
    have hlengths := hverifies
    simp only [verifies, Bool.and_eq_true, decide_eq_true_eq] at hlengths
    exact ⟨signature, pk, rfl, rfl, hne (by omega), hne (by omega), hverifies⟩

theorem wellFormed_withSignature (hwell : Json.wellFormedFields record = true) :
    Json.wellFormedFields (withSignature pk signature record) = true :=
  Json.wellFormedFields_setField _ (Json.wellFormedFields_setField _ hwell rfl) rfl

/-- What is stored verifies if what was signed does. -/
theorem storedVerifies_iff (hwell : Json.wellFormedFields signed = true) : StoredVerifies p signed ↔ verifyRecord p signed = true := by
  constructor
  · rintro ⟨_, hall⟩
    exact hall signed rfl
  · intro h
    have hnodup := (Json.wellFormedFields_iff.mp hwell).1
    exact ⟨⟨signed, readLine_write hwell, h⟩, fun event hsame => verifyRecord_of_sameDict p hsame hnodup h⟩

theorem unsigned_of_fresh (h : Fresh record) : unsigned record = record := by
  rw [unsigned, List.filter_eq_self]
  intro field hfield
  have hname := List.mem_map_of_mem (f := Prod.fst) hfield
  have hsig : field.1 ≠ "sig_b64" := fun he => h.1 (he ▸ hname)
  have hkey : field.1 ≠ "sig_pk_b64" := fun he => h.2 (he ▸ hname)
  simp [isSignatureField, hsig, hkey]

/-- A record that carries a signature has another text than the one the verifier makes of it. -/
theorem cjson_unsigned_ne (hwell : Json.wellFormedFields record = true) (h : ¬Fresh record) :
    cjson (.obj (unsigned record)) ≠ cjson (.obj record) := by
  have hnot : ∀ key, isSignatureField key = true → key ∉ (unsigned record).map Prod.fst := by
    intro key hkey hmem
    obtain ⟨field, hfield, rfl⟩ := List.mem_map.mp hmem
    have hkept := (List.mem_filter.mp hfield).2
    rw [hkey] at hkept
    cases hkept
  have hdiffer : ∀ key, isSignatureField key = true → key ∈ record.map Prod.fst →
      cjson (.obj (unsigned record)) ≠ cjson (.obj record) :=
    fun key hkey hmem => (cjson_ne hwell (wellFormed_unsigned hwell) hmem (hnot key hkey)).symm
  rcases not_and_or.mp h with hsig | hkey
  · exact hdiffer "sig_b64" (by decide) (not_not.mp hsig)
  · exact hdiffer "sig_pk_b64" (by decide) (not_not.mp hkey)

/-- A stored record verifies exactly if it carried no signature when it was signed. -/
theorem stored_record_verifies_iff (hp : SignaturesVerify p) (hwell : Json.wellFormedFields record = true)
    (h : signRecordWith p source record = some signed)
    (honly : ∀ seed, source.seed? = some seed →
      verifies p (p.publicKey seed) (cjson (.obj (unsigned record))) (p.sign seed (cjson (.obj record))) = true →
        cjson (.obj (unsigned record)) = cjson (.obj record)) : StoredVerifies p signed ↔ Fresh record := by
  obtain ⟨seed, hseed, rfl⟩ := Option.map_eq_some_iff.mp h
  rw [storedVerifies_iff (wellFormed_withSignature hwell), verifyRecord_withSignature]
  constructor
  · intro hverifies
    by_contra hcarries
    exact cjson_unsigned_ne hwell hcarries (honly seed hseed hverifies)
  · intro hfresh
    rw [unsigned_of_fresh hfresh]
    exact hp seed _ (KeySource.seed_length hseed)

/-- A line of the log verifies if the record it was given carried no signature. -/
theorem writeJsonl_verifies (hp : SignaturesVerify p) (hwell : Json.wellFormedFields record = true) (hfresh : Fresh record)
    {skB64 : Option String} (h : writeJsonl p skB64 record = some line) :
    ∃ event, readLine line = some (.obj event) ∧ verifyRecord p event = true := by
  obtain ⟨signed, hsigned, rfl⟩ := Option.map_eq_some_iff.mp h
  rw [← signRecordWith_environment] at hsigned
  obtain ⟨seed, hseed, rfl⟩ := Option.map_eq_some_iff.mp hsigned
  refine ⟨_, readLine_write (wellFormed_withSignature hwell), ?_⟩
  rw [verifyRecord_withSignature, unsigned_of_fresh hfresh]
  exact hp seed _ (KeySource.seed_length hseed)

end Resigned

section Forwarded

def plainRecord : Dict := [("n", .int 1)]

/-- The signature of `plainRecord` under the first key. -/
def plainSignature : List UInt8 :=
  [150, 106, 219, 193, 246, 164, 207, 213, 229, 47, 113, 225, 246, 142, 142, 217, 61, 8, 124, 167, 35, 23, 251, 242, 36, 56, 98,
    120, 87, 21, 228, 213, 37, 146, 195, 213, 183, 174, 84, 52, 229, 181, 0, 140, 227, 100, 152, 203, 139, 72, 220, 88, 200, 41,
    152, 31, 157, 185, 248, 117, 204, 34, 177, 2]

/-- The signature of the signed record under the first key. -/
def forwardedSignature : List UInt8 :=
  [0, 75, 9, 62, 252, 230, 123, 156, 48, 104, 238, 51, 115, 69, 154, 154, 158, 59, 121, 207, 62, 59, 50, 92, 44, 191, 76, 84, 37,
    253, 11, 71, 202, 103, 24, 230, 229, 8, 138, 118, 137, 255, 142, 65, 78, 180, 201, 229, 79, 60, 96, 111, 206, 108, 117, 67,
    100, 71, 25, 180, 31, 174, 149, 2]

def forwardingSignature (message : String) : List UInt8 :=
  if message = cjson (.obj plainRecord) then plainSignature else forwardedSignature

/-- Ed25519 under the first key, of the record and of the signed record. -/
def forwardingValues : Primitives :=
  { sampleValues with
    sign := fun _ message => forwardingSignature message
    verify := fun _ message signature => decide (signature = forwardingSignature message) }

theorem forwardingValues_verify : SignaturesVerify forwardingValues := by
  intro seed message _
  have hlength : (forwardingSignature message).length = 64 := by
    unfold forwardingSignature
    split <;> rfl
  have hkey : (sampleValues.publicKey seed).length = 32 := by
    simp only [sampleValues]
    split <;> rfl
  simp [verifies, forwardingValues, hkey, hlength]

def aliceSource : KeySource := .generated ⟨aliceSeed, rfl⟩

theorem stored_record_verifies_iff_plain : ∃ signed, signRecordWith forwardingValues aliceSource plainRecord = some signed ∧
    StoredVerifies forwardingValues signed := by
  have hsigned : signRecordWith forwardingValues aliceSource plainRecord = some _ := rfl
  refine ⟨_, hsigned, ?_⟩
  refine (stored_record_verifies_iff forwardingValues_verify rfl hsigned ?_).mpr (by decide)
  intro seed _ _
  rfl

/-- A signed record that is signed again is refused. -/
theorem forwarded_record_refused : SignaturesVerify forwardingValues ∧
    ∃ forwarded signed, signRecordWith forwardingValues aliceSource plainRecord = some forwarded ∧
      signRecordWith forwardingValues aliceSource forwarded = some signed ∧ ¬StoredVerifies forwardingValues signed := by
  let forwarded := withSignature aliceKey plainSignature plainRecord
  have hwell : Json.wellFormedFields forwarded = true := wellFormed_withSignature rfl
  have hunsigned : unsigned forwarded = plainRecord := rfl
  have hother : cjson (.obj forwarded) ≠ cjson (.obj plainRecord) := by
    rw [← hunsigned]
    exact (cjson_unsigned_ne hwell (by decide)).symm
  have hagain : signRecordWith forwardingValues aliceSource forwarded =
      some (withSignature aliceKey forwardedSignature forwarded) := by
    have hsign : forwardingSignature (cjson (.obj forwarded)) = forwardedSignature := if_neg hother
    have hkey : sampleValues.publicKey aliceSeed = aliceKey := by simp [sampleValues]
    simp only [signRecordWith, aliceSource, KeySource.seed?, Option.map_some, forwardingValues, hsign, hkey]
  refine ⟨forwardingValues_verify, forwarded, _, rfl, hagain, ?_⟩
  rw [storedVerifies_iff (wellFormed_withSignature hwell), verifyRecord_withSignature, hunsigned]
  decide

end Forwarded

end AgentNetwork.Tools
