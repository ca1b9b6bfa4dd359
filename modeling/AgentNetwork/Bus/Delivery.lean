import AgentNetwork.Bus.Publish
import AgentNetwork.Policy.Authenticity

namespace AgentNetwork.Bus

open Relational Policy

section Delivery

variable (p : Primitives) (isPrintable : Char → Bool)

def Tracing.records : Tracing → Bool
  | .current span => span.recording
  | .missing | .notInitialized => false

/-- The subscriber decodes a valid envelope with the payload, the sender and the
lamport of the one published. -/
def AcceptedAsSent (envelope : Dict) (data : String) : Prop :=
  ∃ received, decodeEnvelope data = some received ∧ Accepted p received ∧
    getKey received "payload" = getKey envelope "payload" ∧ getKey received "sender_pk_b64" = getKey envelope "sender_pk_b64" ∧
    getKey received "lamport" = getKey envelope "lamport"

theorem decodeEnvelope_dumps {envelope : Dict} (h : Json.wellFormedFields envelope = true) :
    decodeEnvelope (dumps envelope) = some envelope := by
  have hread : Json.loads (dumps envelope) = some (.obj envelope) :=
    Json.loads_write rfl Json.defaultStyle_readable (.obj envelope) h
  rw [decodeEnvelope, hread]

theorem Span.context_wellFormed (span : Span) : Json.wellFormedFields span.context = true := by
  rw [Json.wellFormedFields_iff, Span.context, List.map_map]
  refine ⟨span.carrier.keysNodup, fun field hfield => ?_⟩
  obtain ⟨entry, _, rfl⟩ := List.mem_map.mp hfield
  rfl

theorem getOr_wellFormed {record : Dict} (h : Json.wellFormedFields record = true) (key : String) {default : Json}
    (hdefault : Json.wellFormed default = true) : Json.wellFormed (getOr record key default) = true := by
  unfold getOr
  cases hfound : record.lookup key with
  | none => exact hdefault
  | some value =>
    obtain ⟨before, after, rfl, _⟩ := List.lookup_eq_some_iff.mp hfound
    exact (Json.wellFormedFields_iff.mp h).2 (key, value) (by simp)

section Propagated

variable {span : Span} {envelope traced : Dict}

theorem propagateContext_wellFormed (henvelope : Json.wellFormedFields envelope = true)
    (h : propagateContext span envelope = some traced) : Json.wellFormedFields traced = true := by
  unfold propagateContext at h
  split at h
  next =>
    have hold := getOr_wellFormed henvelope "metadata" (rfl : Json.wellFormed (.obj []) = true)
    split at h
    next metadata hmetadata =>
      rw [hmetadata] at hold
      cases h
      refine Json.wellFormedFields_setField _ henvelope (Json.wellFormedFields_setField _ ?_ rfl)
      exact Json.wellFormedFields_setField _ hold span.context_wellFormed
    next => cases h
  next =>
    cases h
    exact henvelope

/-- Tracing writes into the metadata only. -/
theorem propagateContext_lookup (h : propagateContext span envelope = some traced) {key : String} (hkey : key ≠ "metadata") :
    traced.lookup key = envelope.lookup key := by
  unfold propagateContext at h
  split at h
  next =>
    split at h
    next =>
      cases h
      rw [lookup_setField, if_neg hkey]
    next => cases h
  next =>
    cases h
    rfl

end Propagated

theorem wellFormed_optionalField (key : String) (text : Option String) :
    ∀ field ∈ optionalField key text, Json.wellFormed field.2 = true := by
  unfold optionalField
  split
  next => simp [Json.wellFormed]
  next => simp

theorem optionalField_keys (key : String) (text : Option String) :
    (optionalField key text).map Prod.fst = [] ∨ (optionalField key text).map Prod.fst = [key] := by
  unfold optionalField
  split
  next => exact Or.inr rfl
  next => exact Or.inl rfl

/-- The keys of an envelope are distinct, and it has neither signature fields nor metadata. -/
theorem makeEnvelope_keys (args : EnvelopeArgs) (draws : EnvelopeDraws) :
    ((makeEnvelope p args draws).map Prod.fst).Nodup ∧
    ∀ key ∈ ["sig_b64", "sig_pk_b64", "metadata"], key ∉ (makeEnvelope p args draws).map Prod.fst := by
  unfold makeEnvelope
  rw [List.map_append, List.map_append]
  rcases optionalField_keys "policy_capsule_hash" args.policyCapsuleHash with h | h <;>
    rcases optionalField_keys "policy_eval_digest" args.policyEvalDigest with h' | h' <;>
    rw [h, h'] <;> simp

theorem makeEnvelope_wellFormed {args : EnvelopeArgs} (draws : EnvelopeDraws)
    (hpayload : Json.wellFormedFields args.payload = true) :
    ∀ field ∈ makeEnvelope p args draws, Json.wellFormed field.2 = true := by
  intro field hfield
  rcases List.mem_append.mp hfield with hfield | hfield
  · rcases List.mem_append.mp hfield with hfield | hfield
    · simp only [List.mem_cons, List.not_mem_nil, or_false] at hfield
      rcases hfield with rfl | rfl | rfl | rfl | rfl | rfl | rfl | rfl | rfl | rfl | rfl <;>
        simp [Json.wellFormed, hpayload]
    · exact wellFormed_optionalField _ _ field hfield
  · exact wellFormed_optionalField _ _ field hfield

theorem unsigned_eq_self {record : Dict} (h : ∀ key ∈ ["sig_b64", "sig_pk_b64", "metadata"], key ∉ record.map Prod.fst) :
    unsigned record = record := by
  rw [unsigned, List.filter_eq_self]
  intro field hfield
  have hsig : field.1 ≠ "sig_b64" := by
    intro he
    exact h "sig_b64" (by simp) (List.mem_map.mpr ⟨field, hfield, he⟩)
  have hkey : field.1 ≠ "sig_pk_b64" := by
    intro he
    exact h "sig_pk_b64" (by simp) (List.mem_map.mpr ⟨field, hfield, he⟩)
  simp [isSignatureField, hsig, hkey]

theorem unsigned_append (record more : Dict) : unsigned (record ++ more) = unsigned record ++ unsigned more :=
  List.filter_append ..

/-- Signing a record without signature fields appends them. -/
theorem withSignature_append {record : Dict}
    (h : ∀ key ∈ ["sig_b64", "sig_pk_b64", "metadata"], key ∉ record.map Prod.fst) (key signature : List UInt8) :
    withSignature key signature record = record ++
      [("sig_b64", .str (Base64.b64encode signature)), ("sig_pk_b64", .str (Base64.b64encode key))] := by
  have hfirst := Json.setField_append (h "sig_b64" (by simp)) (.str (Base64.b64encode signature))
  have hsecond : "sig_pk_b64" ∉ (record ++ [("sig_b64", Json.str (Base64.b64encode signature))]).map Prod.fst := by
    have hnot := h "sig_pk_b64" (by simp)
    simp only [List.map_append, List.mem_append, not_or]
    exact ⟨hnot, by simp⟩
  rw [withSignature, hfirst, Json.setField_append hsecond, List.append_assoc]
  rfl

theorem signRecord_of_seed {skB64 : String} {seed : List UInt8} (hne : skB64 ≠ "")
    (hseed : Base64.b64decode skB64 = some seed) (hlength : seed.length = 32) (record : Dict) :
    signRecord p (some skB64) record =
      some (withSignature (p.publicKey seed) (p.sign seed (cjson (.obj record))) record) := by
  have hfilter : (some skB64).filter (· ≠ "") = some skB64 := by simp [Option.filter, hne]
  rw [signRecord, hfilter]
  simp [hseed, hlength]

theorem signEnvelope_eq {skB64 : String} {seed : List UInt8} (hseed : Base64.b64decode skB64 = some seed)
    {args : EnvelopeArgs} {draws : EnvelopeDraws} {envelope : Dict}
    (hsign : signEnvelope p (some skB64) (makeEnvelope p args draws) = some envelope) :
    envelope = makeEnvelope p args draws ++
      [("sig_b64", .str (Base64.b64encode (p.sign seed (cjson (.obj (makeEnvelope p args draws)))))),
        ("sig_pk_b64", .str (Base64.b64encode (p.publicKey seed)))] := by
  have hkeys := (makeEnvelope_keys p args draws).2
  unfold signEnvelope signRecord at hsign
  rw [unsigned_eq_self hkeys] at hsign
  obtain ⟨text, htext, hsign⟩ := Option.bind_eq_some_iff.mp hsign
  obtain ⟨hsome, _⟩ := Option.filter_eq_some_iff.mp htext
  cases hsome
  obtain ⟨seed', hseed', hsign⟩ := Option.bind_eq_some_iff.mp hsign
  rw [hseed] at hseed'
  cases hseed'
  split at hsign
  next =>
    rw [← Option.some.inj hsign]
    exact withSignature_append hkeys _ _
  next => cases hsign

theorem lookup_eq_none_of_not_mem {record : Dict} {key : String} (h : key ∉ record.map Prod.fst) :
    record.lookup key = none := by
  rw [List.lookup_eq_none_iff]
  intro field hfield
  have hne : key ≠ field.1 := fun he => h (List.mem_map.mpr ⟨field, hfield, he.symm⟩)
  simpa using hne

/-- A record with its two signature fields. -/
def sealed (record : Dict) (key signature : List UInt8) : Dict :=
  record ++ [("sig_b64", .str (Base64.b64encode signature)), ("sig_pk_b64", .str (Base64.b64encode key))]

section Sealed

variable {record : Dict} (hnodup : (record.map Prod.fst).Nodup)
  (hkeys : ∀ key ∈ ["sig_b64", "sig_pk_b64", "metadata"], key ∉ record.map Prod.fst)
  (hwell : ∀ field ∈ record, Json.wellFormed field.2 = true)

include hnodup hkeys hwell in
theorem sealed_wellFormed (key signature : List UInt8) : Json.wellFormedFields (sealed record key signature) = true := by
  rw [Json.wellFormedFields_iff]
  constructor
  · rw [sealed, List.map_append, List.nodup_append]
    refine ⟨hnodup, by simp, ?_⟩
    rintro name hname _ hother rfl
    simp only [List.map_cons, List.map_nil, List.mem_cons, List.not_mem_nil, or_false] at hother
    rcases hother with rfl | rfl
    · exact hkeys "sig_b64" (by simp) hname
    · exact hkeys "sig_pk_b64" (by simp) hname
  · intro field hfield
    rcases List.mem_append.mp hfield with hfield | hfield
    · exact hwell field hfield
    · simp only [List.mem_cons, List.not_mem_nil, or_false] at hfield
      rcases hfield with rfl | rfl <;> rfl

include hkeys in
theorem sealed_metadata (key signature : List UInt8) : "metadata" ∉ (sealed record key signature).map Prod.fst := by
  rw [sealed, List.map_append, List.mem_append, not_or]
  exact ⟨hkeys "metadata" (by simp), by simp⟩

include hkeys in
theorem sealed_signature (key signature : List UInt8) :
    getKey (sealed record key signature) "sig_b64" = .str (Base64.b64encode signature) ∧
    getKey (sealed record key signature) "sig_pk_b64" = .str (Base64.b64encode key) ∧
    unsigned (sealed record key signature) = record := by
  have hsig := lookup_eq_none_of_not_mem (hkeys "sig_b64" (by simp))
  have hkey := lookup_eq_none_of_not_mem (hkeys "sig_pk_b64" (by simp))
  refine ⟨?_, ?_, ?_⟩
  · simp [getKey, getOr, sealed, List.lookup_append, hsig]
  · simp [getKey, getOr, sealed, List.lookup_append, hkey, List.lookup_cons]
  · have hrest : unsigned [("sig_b64", Json.str (Base64.b64encode signature)),
        ("sig_pk_b64", .str (Base64.b64encode key))] = [] := by
      simp [unsigned, isSignatureField]
    rw [sealed, unsigned_append, unsigned_eq_self hkeys, hrest, List.append_nil]

include hkeys in
theorem sealed_verifies {key signature : List UInt8} (hverifies : verifies p key (cjson (.obj record)) signature = true) :
    verifyRecord p (sealed record key signature) = true := by
  obtain ⟨hsig, hkey, hunsigned⟩ := sealed_signature hkeys key signature
  have hlengths := hverifies
  simp only [verifies, Bool.and_eq_true, decide_eq_true_eq] at hlengths
  have hne : ∀ {bytes : List UInt8}, 0 < bytes.length → Json.str (Base64.b64encode bytes) ≠ .str "" := by
    intro bytes hbytes he
    exact Base64.b64encode_ne_empty (List.ne_nil_of_length_pos hbytes) (Json.str.inj he)
  rw [verifyRecord_iff]
  refine ⟨signature, key, bytesOf_encoded hsig, bytesOf_encoded hkey, ?_, ?_, ?_⟩
  · rw [hsig]
    exact hne (by omega)
  · rw [hkey]
    exact hne (by omega)
  · rwa [hunsigned]

include hkeys in
/-- With one more field behind its signature, a record is no longer the one that was signed. -/
theorem sealed_extended_not_verified (key signature : List UInt8) (metadata : Json)
    (honly : ∀ message, p.verify key message signature = true → message = cjson (.obj record)) :
    verifyRecord p (sealed record key signature ++ [("metadata", metadata)]) = false := by
  rw [← Bool.not_eq_true, verifyRecord_iff]
  rintro ⟨signature', pk, hsig, hpk, _, _, hverifies⟩
  have hsigField : getKey (sealed record key signature ++ [("metadata", metadata)]) "sig_b64" =
      .str (Base64.b64encode signature) := by
    have hnone := lookup_eq_none_of_not_mem (hkeys "sig_b64" (by simp))
    simp [getKey, getOr, sealed, List.lookup_append, hnone]
  have hkeyField : getKey (sealed record key signature ++ [("metadata", metadata)]) "sig_pk_b64" =
      .str (Base64.b64encode key) := by
    have hnone := lookup_eq_none_of_not_mem (hkeys "sig_pk_b64" (by simp))
    simp [getKey, getOr, sealed, List.lookup_append, hnone, List.lookup_cons]
  have hunsigned : unsigned (sealed record key signature ++ [("metadata", metadata)]) =
      record ++ [("metadata", metadata)] := by
    have hrest : unsigned [("sig_b64", Json.str (Base64.b64encode signature)),
        ("sig_pk_b64", .str (Base64.b64encode key)), ("metadata", metadata)] = [("metadata", metadata)] := by
      simp [unsigned, isSignatureField]
    rw [sealed, List.append_assoc, unsigned_append, unsigned_eq_self hkeys]
    exact congrArg (record ++ ·) hrest
  rw [bytesOf_encoded hsigField] at hsig
  rw [bytesOf_encoded hkeyField] at hpk
  cases hsig
  cases hpk
  simp only [verifies, hunsigned, Bool.and_eq_true] at hverifies
  have hsame := congrArg (fun text => text.toList.length) (honly _ hverifies.2)
  simp only [cjson, Json.write, String.toList_ofList] at hsame
  have hlonger := Json.length_encode_obj_lt Json.canonicalStyle record ("metadata", metadata)
  omega

end Sealed

/-- What is sent is accepted as it was signed exactly if no recording span is
current: its context would be written into the signed envelope. -/
theorem acceptedAsSent_iff {skB64 : String} {seed : List UInt8} (hseed : Base64.b64decode skB64 = some seed)
    {args : EnvelopeArgs} {draws : EnvelopeDraws} (hpayload : Json.wellFormedFields args.payload = true)
    {envelope : Dict} (hsign : signEnvelope p (some skB64) (makeEnvelope p args draws) = some envelope)
    (honly : ∀ message, p.verify (p.publicKey seed) message
      (p.sign seed (cjson (.obj (makeEnvelope p args draws)))) = true → message = cjson (.obj (makeEnvelope p args draws)))
    {tracing : Tracing} {g : GateEnforcer} {data : String}
    (hsent : (publishEnvelope p isPrintable tracing envelope g).1 = .ok data) :
    AcceptedAsSent p envelope data ↔ tracing.records = false := by
  obtain ⟨hnodup, hkeys⟩ := makeEnvelope_keys p args draws
  have hwell := makeEnvelope_wellFormed p draws hpayload
  obtain ⟨haccepted, _, hdata⟩ := publishEnvelope_sent p isPrintable hsent
  have hsealed := signEnvelope_eq p hseed hsign
  rw [← sealed] at hsealed
  have henvelope : Json.wellFormedFields envelope = true := by
    rw [hsealed]
    exact sealed_wellFormed hnodup hkeys hwell _ _
  have hplain : AcceptedAsSent p envelope (dumps envelope) :=
    ⟨envelope, decodeEnvelope_dumps henvelope, haccepted, rfl, rfl, rfl⟩
  rcases hdata with ⟨rfl, rfl⟩ | ⟨span, traced, rfl, htraced, rfl⟩
  · exact ⟨fun _ => rfl, fun _ => hplain⟩
  · have htracedWell := propagateContext_wellFormed henvelope htraced
    unfold propagateContext at htraced
    split at htraced
    next hrecording =>
      have hmetadata : "metadata" ∉ envelope.map Prod.fst := by
        rw [hsealed]
        exact sealed_metadata hkeys _ _
      have hnone : getOr envelope "metadata" (.obj []) = .obj [] := by
        rw [getOr, lookup_eq_none_of_not_mem hmetadata]
        rfl
      rw [hnone] at htraced
      have hextended : traced = envelope ++
          [("metadata", .obj [("trace_context", .obj span.context), ("trace_id", .str span.traceId)])] := by
        rw [← Option.some.inj htraced]
        exact Json.setField_append hmetadata _
      constructor
      · rintro ⟨received, hreceived, hvalid, _⟩
        rw [decodeEnvelope_dumps htracedWell] at hreceived
        cases hreceived
        have hverified := hvalid.signature
        rw [hextended, hsealed, sealed_extended_not_verified p hkeys _ _ _ honly] at hverified
        cases hverified
      · intro hoff
        rw [Tracing.records, hrecording] at hoff
        cases hoff
    next hsilent =>
      cases htraced
      exact ⟨fun _ => Bool.eq_false_of_not_eq_true hsilent, fun _ => hplain⟩

end Delivery

def needArgs : EnvelopeArgs :=
  { kind := "NEED", threadId := "t", senderPkB64 := "O2onvM62pC1io6jQKm8Nc2UyFXcd4kOmOsBIoYtZ2ik=", payload := [],
    policyEngineHash := none, policyCapsuleHash := none, policyEvalDigest := none, nonce := some "n" }

def needDraws : EnvelopeDraws := { counter := 0, id := "a", nonce := "", tsNs := 0 }

theorem makeEnvelope_need : makeEnvelope sampleValues needArgs needDraws = unsignedNeed := by
  have hempty : hashPayload sampleValues (.obj []) = emptyPayloadHash := rfl
  have hnonce : (truthy (some "n")).getD "" = "n" := by decide
  have hpolicy : (truthy none).getD (currentPolicyHash sampleValues) = contractHash := sampleValues_contract
  simp only [makeEnvelope, needArgs, needDraws, hempty, hpolicy, hnonce, unsignedNeed]
  rfl

theorem signEnvelope_need : signEnvelope sampleValues (some (Base64.b64encode aliceSeed))
    (makeEnvelope sampleValues needArgs needDraws) = some signedNeed := by
  have hkeys := (makeEnvelope_keys sampleValues needArgs needDraws).2
  have hne : Base64.b64encode aliceSeed ≠ "" := Base64.b64encode_ne_empty (by decide)
  rw [signEnvelope, unsigned_eq_self hkeys,
    signRecord_of_seed sampleValues hne (Base64.b64decode_b64encode aliceSeed) (by decide), withSignature_append hkeys,
    makeEnvelope_need]
  rfl

def permissiveEngine : Engine := fun _ => .ok { allowed := true, reasons := [], gasUsed := 0, policyVersion := "1.0.0" }

def permissiveGates : GateEnforcer := .new permissiveEngine permissiveEngine false

def recordingSpan : Span :=
  { recording := true, carrier := .empty, traceId := "00000000000000000000000000000001" }

theorem signedNeed_checked : checkEnvelope sampleValues (fun _ => true) signedNeed permissiveGates =
    (.ok (), permissiveGates) := by
  rw [checkEnvelope, (validateEnvelope_iff sampleValues).mpr signedNeed_accepted]
  rfl

theorem sampleValues_only (message : String)
    (h : sampleValues.verify (sampleValues.publicKey aliceSeed) message (sampleValues.sign aliceSeed
      (cjson (.obj (makeEnvelope sampleValues needArgs needDraws)))) = true) :
    message = cjson (.obj (makeEnvelope sampleValues needArgs needDraws)) := by
  rw [makeEnvelope_need]
  simp only [sampleValues, Bool.and_eq_true, decide_eq_true_eq] at h
  exact h.1

theorem acceptedAsSent_iff_untraced : AcceptedAsSent sampleValues signedNeed (dumps signedNeed) := by
  have hsent : (publishEnvelope sampleValues (fun _ => true) .missing signedNeed permissiveGates).1 =
      .ok (dumps signedNeed) := by
    rw [publishEnvelope, signedNeed_checked]
  exact (acceptedAsSent_iff sampleValues (fun _ => true) (Base64.b64decode_b64encode aliceSeed) rfl signEnvelope_need
    sampleValues_only hsent).mpr rfl

/-- With a recording span the same envelope is sent with the trace context in
it, and its signature fails at the subscriber. -/
theorem traced_need_refused : ∃ data,
    (publishEnvelope sampleValues (fun _ => true) (.current recordingSpan) signedNeed permissiveGates).1 = .ok data ∧
    ¬AcceptedAsSent sampleValues signedNeed data := by
  have hkeys := (makeEnvelope_keys sampleValues needArgs needDraws).2
  have hnodup := (makeEnvelope_keys sampleValues needArgs needDraws).1
  rw [makeEnvelope_need] at hkeys hnodup
  have htraced : propagateContext recordingSpan signedNeed = some (sealed unsignedNeed aliceKey aliceSignature ++
      [("metadata", .obj [("trace_context", .obj []), ("trace_id", .str recordingSpan.traceId)])]) := rfl
  have honly : ∀ message, sampleValues.verify aliceKey message aliceSignature = true →
      message = cjson (.obj unsignedNeed) := by
    intro message h
    simp only [sampleValues, Bool.and_eq_true, decide_eq_true_eq] at h
    exact h.1
  refine ⟨_, by rw [publishEnvelope, signedNeed_checked]; simp only [htraced]; rfl, ?_⟩
  rintro ⟨received, hreceived, hvalid, _⟩
  rw [decodeEnvelope_dumps (by decide +kernel)] at hreceived
  cases hreceived
  have hverified := hvalid.signature
  rw [sealed_extended_not_verified sampleValues hkeys _ _ _ honly] at hverified
  cases hverified

end AgentNetwork.Bus
