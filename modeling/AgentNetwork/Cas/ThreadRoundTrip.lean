import AgentNetwork.Cas.IpldFormat
import AgentNetwork.Bus.Delivery

/-! Which threads come back from their graph as they were: those whose envelopes
hold nothing but the fields that are copied, and no links of their own. -/

namespace AgentNetwork.Cas

open Policy

/-- A dictionary of JSON values, as a reconstructed envelope. -/
def inlined (fields : Dict) : List (String × Content) := fields.map fun field => (field.1, .json field.2)

/-- The reconstructed envelope is this one: every value is JSON, and they are equal as dictionaries. -/
def IsEnvelope (reconstructed : List (String × Content)) (envelope : Dict) : Prop :=
  ∃ fields, reconstructed = inlined fields ∧ SameDict fields envelope

section Fields

variable {Place : Type} {store : CasStore Place} {t : store.Contents}

theorem resolveField_of_unresolved {value : Json} (key : String)
    (h : ∀ id, getCidFromLink value = some (.str id) → t.at? (store.place id) = none) :
    resolveField (some t) key value = .json value := by
  unfold resolveField
  cases hlink : getCidFromLink value with
  | none => rfl
  | some cid =>
    have hget : CasStore.get t cid = none := by
      cases cid with
      | str id => exact h id hlink
      | null | bool | int | float | arr | obj => rfl
    simp [hget]

theorem resolveField_of_resolved {key id : String} {value : Json} {data : List UInt8} (hkey : key ≠ "payload")
    (hlink : getCidFromLink value = some (.str id)) (hget : t.at? (store.place id) = some data) :
    resolveField (some t) key value = .bytes data := by
  have hget' : CasStore.get t (.str id) = some data := hget
  simp [resolveField, hlink, hget', hkey]

/-- A payload is read back, linked or not. -/
theorem resolveField_payload {value : Json} (hw : value.wellFormed = true)
    (h : ∀ fields, value = .obj fields → t.at? (store.addressing.home (dumps value)) = some (dumps value)) :
    resolveField (some t) "payload" (ipldValue store "payload" value).sorted = .json value.sorted := by
  cases value with
  | obj fields =>
    have hlink : getCidFromLink (ipldValue store "payload" (.obj fields)).sorted = some (.str (store.cid (dumps (.obj fields)))) := rfl
    simp [resolveField, hlink, get_cid (h fields rfl), loads_dumps hw]
  | null | bool | int | float | str | arr => rfl

theorem getCidFromLink_sorted {value : Json} (hw : value.wellFormed = true) {id : String} :
    getCidFromLink value.sorted = some (.str id) ↔ getCidFromLink value = some (.str id) := by
  have htext : ∀ entry : Option Json, entry.map Json.sorted = some (.str id) ↔ entry = some (.str id) := by
    intro entry
    cases entry with
    | none => simp
    | some value => simp [sorted_eq_str_iff]
  cases value with
  | obj fields =>
    have hsame : SameDict (Json.sortFields (Json.sortedFields fields)) fields := Json.sorted_sorted (.obj fields)
    have hlookup := hsame.lookup (Json.wellFormedFields_iff.mp hw).1 "/"
    change List.lookup "/" (Json.sortFields (Json.sortedFields fields)) = _ ↔ List.lookup "/" fields = _
    rw [← htext, hlookup, htext]
  | null | bool | int | float | str | arr => exact Iff.rfl

theorem readBack_eq (envelope : Dict) : readBack t envelope =
    (Json.sortFields (copyFields envelope ipldFields)).map fun field =>
      (field.1, resolveField (some t) field.1 (ipldValue store field.1 field.2).sorted) := by
  have hsorted : Json.sortedFields (ipldForm store envelope) =
      (copyFields envelope ipldFields).map fun field => (field.1, (ipldValue store field.1 field.2).sorted) := by
    rw [Json.sortedFields_eq_map, ipldForm, List.map_map]
    rfl
  rw [readBack, hsorted, Json.sortFields_map fun key value => (ipldValue store key value).sorted, fromIpld, List.map_map]
  rfl

theorem mem_ipldFields_of_readBack {envelope fields : Dict} (hread : readBack t envelope = inlined fields) {key : String}
    (h : key ∈ fields.map Prod.fst) : key ∈ ipldFields := by
  have hkeys : (Json.sortFields (copyFields envelope ipldFields)).map Prod.fst = fields.map Prod.fst := by
    have hfst := congrArg (List.map Prod.fst) hread
    rw [readBack_eq, inlined, List.map_map, List.map_map] at hfst
    exact hfst
  rw [← hkeys] at h
  have hperm := (Json.perm_sortFields (copyFields envelope ipldFields)).map Prod.fst
  exact (keys_copyFields_sublist envelope ipldFields).subset (hperm.mem_iff.mp h)

end Fields

section Survival

variable {Place : Type} {store : CasStore Place}

/-- No field other than the payload looks like a link to a content that is in the
store or is stored with the thread. -/
def Unresolved (s : store.Contents) (contents : List (List UInt8)) (envelope : Dict) : Prop :=
  ∀ field ∈ envelope, field.1 ≠ "payload" → ∀ id, getCidFromLink field.2 = some (.str id) →
    s.at? (store.place id) = none ∧ ∀ data ∈ contents, store.place id ≠ store.place (store.cid data)

/-- Every field is one that `to_ipld` looks at, and stays what it is. -/
structure Carried (s : store.Contents) (contents : List (List UInt8)) (envelope : Dict) : Prop where
  copied : ∀ field ∈ envelope, field.1 ∈ ipldFields
  unresolved : Unresolved s contents envelope

theorem copyFields_perm {envelope : Dict} (hnodup : (envelope.map Prod.fst).Nodup)
    (h : ∀ field ∈ envelope, field.1 ∈ ipldFields) : (copyFields envelope ipldFields).Perm envelope := by
  have hcopied : (copyFields envelope ipldFields).Nodup :=
    (ipldFields_nodup.sublist (keys_copyFields_sublist envelope ipldFields)).of_map Prod.fst
  refine (List.perm_ext_iff_of_nodup hcopied (hnodup.of_map Prod.fst)).mpr ?_
  intro field
  rw [mem_copyFields, Relational.Table.lookup_eq_some_iff_mem hnodup]
  exact ⟨And.right, fun hfield => ⟨h field hfield, hfield⟩⟩

theorem payload_mem_threadContents {envelopes : List Dict} {envelope : Dict} (h : envelope ∈ envelopes) {data : List UInt8}
    (hdata : data ∈ payloadContents envelope) : data ∈ threadContents store envelopes :=
  List.mem_flatMap.mpr ⟨envelope, h, List.mem_append_left _ hdata⟩

theorem unresolved_of_plain {s : store.Contents} {contents : List (List UInt8)} {envelope : Dict}
    (h : ∀ field ∈ envelope, field.1 ≠ "payload" → getCidFromLink field.2 = none) : Unresolved s contents envelope := by
  intro field hfield hkey id hid
  rw [h field hfield hkey] at hid
  cases hid

variable [DecidableEq Place] {s : store.Contents} {contents : List (List UInt8)} {envelope : Dict}

/-- Without such links what was copied is read back as it was. -/
theorem readBack_eq_inlined (h : Unresolved s contents envelope) (hw : Json.wellFormedFields envelope = true)
    (hstored : ∀ data ∈ payloadContents envelope, data ∈ contents) :
    readBack (s.putAll contents) envelope = inlined (Json.sortedFields (Json.sortFields (copyFields envelope ipldFields))) := by
  obtain ⟨hnodup, hvalues⟩ := Json.wellFormedFields_iff.mp hw
  have hsort := Json.perm_sortFields (copyFields envelope ipldFields)
  rw [readBack_eq, inlined, Json.sortedFields_eq_map, List.map_map]
  refine List.map_congr_left ?_
  intro field hfield
  have hlookup := (mem_copyFields.mp (hsort.mem_iff.mp hfield)).2
  have hmem : field ∈ envelope := (Relational.Table.lookup_eq_some_iff_mem hnodup).mp hlookup
  refine congrArg (Prod.mk field.1) ?_
  by_cases hkey : field.1 = "payload"
  · rw [hkey]
    refine resolveField_payload (hvalues field hmem) ?_
    intro fields hfields
    rw [hkey] at hlookup
    have hdata : dumps field.2 ∈ payloadContents envelope := by
      rw [payloadContents, hlookup, hfields]
      exact List.mem_singleton_self _
    exact Addressing.Store.at?_putAll_home (hstored _ hdata)
  · rw [ipldValue_of_ne hkey]
    refine resolveField_of_unresolved field.1 ?_
    intro id hid
    obtain ⟨hold, hnew⟩ := h field hmem hkey id ((getCidFromLink_sorted (hvalues field hmem)).mp hid)
    exact (Addressing.Store.at?_putAll_eq_none_iff contents).mpr ⟨hold, hnew⟩

theorem carried_of_isEnvelope (hw : Json.wellFormedFields envelope = true)
    (h : IsEnvelope (readBack (s.putAll contents) envelope) envelope) : Carried s contents envelope := by
  obtain ⟨hnodup, hvalues⟩ := Json.wellFormedFields_iff.mp hw
  obtain ⟨fields, hread, hsame⟩ := h
  have hcopied : ∀ field ∈ envelope, field.1 ∈ ipldFields := by
    intro field hfield
    exact mem_ipldFields_of_readBack hread (hsame.keys_perm.mem_iff.mpr (List.mem_map_of_mem hfield))
  refine ⟨hcopied, ?_⟩
  intro field hfield hkey id hid
  refine (Addressing.Store.at?_putAll_eq_none_iff contents).mp (Option.eq_none_iff_forall_ne_some.mpr ?_)
  intro data hget
  -- the link is resolved, and a value that is not JSON is in the envelope
  have hlink : getCidFromLink field.2.sorted = some (.str id) := (getCidFromLink_sorted (hvalues field hfield)).mpr hid
  have hbytes : (field.1, Content.bytes data) ∈ readBack (s.putAll contents) envelope := by
    rw [readBack_eq]
    refine List.mem_map.mpr ⟨field, ?_, ?_⟩
    · exact (Json.perm_sortFields _).mem_iff.mpr ((copyFields_perm hnodup hcopied).mem_iff.mpr hfield)
    · rw [ipldValue_of_ne hkey, resolveField_of_resolved hkey hlink hget]
  rw [hread] at hbytes
  obtain ⟨other, _, hother⟩ := List.mem_map.mp hbytes
  cases (Prod.mk.inj hother).2

theorem Carried.isEnvelope (h : Carried s contents envelope) (hw : Json.wellFormedFields envelope = true)
    (hstored : ∀ data ∈ payloadContents envelope, data ∈ contents) :
    IsEnvelope (readBack (s.putAll contents) envelope) envelope := by
  obtain ⟨hnodup, _⟩ := Json.wellFormedFields_iff.mp hw
  refine ⟨_, readBack_eq_inlined h.unresolved hw hstored, ?_⟩
  have hperm : (Json.sortFields (copyFields envelope ipldFields)).Perm envelope :=
    (Json.perm_sortFields _).trans (copyFields_perm hnodup h.copied)
  have hsame : SameDict (Json.sortedFields (Json.sortFields (copyFields envelope ipldFields)))
      (Json.sortFields (copyFields envelope ipldFields)) := by
    rw [SameDict, Json.sorted, Json.sorted, Json.sortedFields_sortedFields]
  refine Eq.trans hsame (sameDict_of_perm ((hperm.map Prod.fst).nodup_iff.mpr hnodup) ?_)
  rw [Json.sortedFields_eq_map, Json.sortedFields_eq_map]
  exact hperm.map _

end Survival

section Threads

variable (p : Primitives) {Place : Type} [DecidableEq Place] {store : CasStore Place}

/-- The thread is read back from its graph: the same envelopes in the same order,
and each is still accepted. -/
def Survives (s : store.Contents) (envelopes : List Dict) (threadId : String) : Prop :=
  ∃ reconstructed,
    dagToEnvelopes (envelopesToDag (some s) envelopes threadId).2 (envelopesToDag (some s) envelopes threadId).1 =
      .ok reconstructed ∧
    List.Forall₂ IsEnvelope reconstructed envelopes ∧
    ∀ envelope ∈ reconstructed, ∃ fields, envelope = inlined fields ∧ validateEnvelope p fields = .ok true

variable {p} {s : store.Contents} {envelopes : List Dict} {threadId : String}

theorem Survives.carried (h : Survives p s envelopes threadId)
    (hw : ∀ envelope ∈ envelopes, Json.wellFormedFields envelope = true) {envelope : Dict} (henvelope : envelope ∈ envelopes) :
    Carried s (threadContents store envelopes) envelope := by
  obtain ⟨reconstructed, hread, hsame, _⟩ := h
  rw [dagToEnvelopes_envelopesToDag s threadId hw] at hread
  cases hread
  rw [List.forall₂_map_left_iff, List.forall₂_same] at hsame
  exact carried_of_isEnvelope (hw envelope henvelope) (hsame envelope henvelope)

/-- A thread of accepted envelopes survives exactly if all of each of them is carried. -/
theorem survives_iff (p : Primitives) (s : store.Contents) {envelopes : List Dict} (threadId : String)
    (hw : ∀ envelope ∈ envelopes, Json.wellFormedFields envelope = true)
    (haccepted : ∀ envelope ∈ envelopes, validateEnvelope p envelope = .ok true) :
    Survives p s envelopes threadId ↔ ∀ envelope ∈ envelopes, Carried s (threadContents store envelopes) envelope := by
  constructor
  · intro h envelope henvelope
    exact h.carried hw henvelope
  · intro h
    have hsame : ∀ envelope ∈ envelopes, IsEnvelope (readBack (s.putAll (threadContents store envelopes)) envelope) envelope := by
      intro envelope henvelope
      exact (h envelope henvelope).isEnvelope (hw envelope henvelope) fun _ => payload_mem_threadContents henvelope
    refine ⟨_, dagToEnvelopes_envelopesToDag s threadId hw, ?_, ?_⟩
    · rw [List.forall₂_map_left_iff, List.forall₂_same]
      exact hsame
    · intro reconstructed hreconstructed
      obtain ⟨envelope, henvelope, rfl⟩ := List.mem_map.mp hreconstructed
      obtain ⟨fields, hfields, hdict⟩ := hsame envelope henvelope
      have hnodup := (Json.wellFormedFields_iff.mp (hw envelope henvelope)).1
      have ha := (validateEnvelope_iff p).mp (haccepted envelope henvelope)
      exact ⟨fields, hfields, (validateEnvelope_iff p).mpr (ha.of_sameDict p hdict hnodup)⟩

end Threads

section Made

variable (p : Primitives)

theorem plain_optionalField {key : String} (hkey : key ∈ ipldFields) (text : Option String) :
    ∀ field ∈ optionalField key text, field.1 ∈ ipldFields ∧ (field.1 ≠ "payload" → getCidFromLink field.2 = none) := by
  unfold optionalField
  split
  next => exact List.forall_mem_singleton.mpr ⟨hkey, fun _ => rfl⟩
  next => exact List.forall_mem_nil _

/-- What `make_envelope` and `sign_envelope` build has no other fields and no links. -/
theorem signed_made_carried {Place : Type} {store : CasStore Place} (s : store.Contents) (contents : List (List UInt8))
    {skB64 : String} {seed : List UInt8} (hseed : Base64.b64decode skB64 = some seed) {args : EnvelopeArgs}
    {draws : EnvelopeDraws} {envelope : Dict} (hsign : signEnvelope p (some skB64) (makeEnvelope p args draws) = some envelope) :
    Carried s contents envelope := by
  have hfields : ∀ field ∈ envelope, field.1 ∈ ipldFields ∧ (field.1 ≠ "payload" → getCidFromLink field.2 = none) := by
    rw [Bus.signEnvelope_eq p hseed hsign, makeEnvelope]
    refine List.forall_mem_append.mpr ⟨List.forall_mem_append.mpr ⟨List.forall_mem_append.mpr ⟨?_, ?_⟩, ?_⟩, ?_⟩
    · simp [ipldFields, basicFields, optionalPolicyFields, getCidFromLink]
    · exact plain_optionalField (by decide) _
    · exact plain_optionalField (by decide) _
    · simp [ipldFields, basicFields, optionalPolicyFields, getCidFromLink]
  exact ⟨fun field hfield => (hfields field hfield).1, unresolved_of_plain fun field hfield => (hfields field hfield).2⟩

end Made

section Sample

/-- Ids for the contents of a list, and for all others ones that tell them apart. -/
theorem injective_getD_lookup {known : List (List UInt8 × String)} {other : List UInt8 → String}
    (hknown : (known.map Prod.snd).Nodup) (hother : Function.Injective other)
    (hapart : ∀ data, other data ∉ known.map Prod.snd) : Function.Injective fun data => (known.lookup data).getD (other data) := by
  have hmem : ∀ {data : List UInt8} {id : String}, known.lookup data = some id → (data, id) ∈ known := by
    intro data id h
    obtain ⟨before, after, hsplit, _⟩ := List.lookup_eq_some_iff.mp h
    rw [hsplit]
    exact List.mem_append_right _ (List.mem_cons_self ..)
  intro a b hab
  dsimp only at hab
  cases ha : known.lookup a with
  | some id =>
    cases hb : known.lookup b with
    | some id' =>
      rw [ha, hb, Option.getD_some, Option.getD_some] at hab
      subst hab
      exact congrArg Prod.fst (List.inj_on_of_nodup_map hknown (hmem ha) (hmem hb) rfl)
    | none =>
      rw [ha, hb, Option.getD_some, Option.getD_none] at hab
      exact absurd (List.mem_map.mpr ⟨_, hmem ha, hab⟩) (hapart b)
  | none =>
    cases hb : known.lookup b with
    | some id =>
      rw [ha, hb, Option.getD_some, Option.getD_none] at hab
      exact absurd (List.mem_map.mpr ⟨_, hmem hb, hab.symm⟩) (hapart a)
    | none =>
      rw [ha, hb, Option.getD_none, Option.getD_none] at hab
      exact hother hab

def linkedNeed (signature : List UInt8) : Dict :=
  [("v", .int 1), ("id", .str "a"), ("thread_id", .str "t"), ("kind", .str "NEED"), ("lamport", .int 1), ("ts_ns", .int 0),
    ("sender_pk_b64", .str "O2onvM62pC1io6jQKm8Nc2UyFXcd4kOmOsBIoYtZ2ik="), ("policy_engine_hash", .str contractHash),
    ("nonce", .str "n"), ("sig_pk_b64", .str (Base64.b64encode aliceKey)), ("sig_b64", .str (Base64.b64encode signature)),
    ("payload", link (.str emptyPayloadHash)), ("payload_hash", .str emptyPayloadHash)]

/-- A need with a field of its own, signed by the first key. -/
def notedNeed : Dict := unsignedNeed ++ [("note", .str "a")]

def notedSignature : List UInt8 :=
  [107, 240, 172, 93, 22, 47, 208, 187, 21, 248, 123, 129, 65, 1, 108, 232, 136, 128, 120, 247, 60, 67, 173, 28, 246, 99, 180, 95,
    215, 52, 221, 67, 59, 48, 88, 231, 84, 206, 149, 198, 1, 229, 218, 7, 112, 64, 155, 93, 226, 10, 124, 28, 193, 80, 47, 152, 93,
    140, 19, 38, 75, 248, 94, 7]

def signedNoted : Dict := Bus.sealed notedNeed aliceKey notedSignature

def notedValues : Primitives where
  sha256Hex := sampleValues.sha256Hex
  publicKey := sampleValues.publicKey
  sign _ _ := notedSignature
  verify pk message signature := decide (message = cjson (.obj notedNeed)) && decide (pk = aliceKey ∧ signature = notedSignature)

/-- SHA-256 on what is stored of the two needs. -/
def sampleIds : List (List UInt8 × String) :=
  [(dumps (.obj []), emptyPayloadHash),
    (dumps (.obj (linkedNeed aliceSignature)), "223abd19bf05d8aedcb2b9c19d2b27d00c39686b6731a01f7c304dacb17e7288"),
    (dumps (.obj (linkedNeed notedSignature)), "1df870ae0733e621f71c01c60f147f3427bec761a8d2c32ab0d99ac1592f9152")]

theorem colon_hex_injective : Function.Injective fun data => ":" ++ Python.hex data := by
  intro a b hab
  have hhex : Python.hex a = Python.hex b := by simpa using hab
  have hback := congrArg Python.fromHex hhex
  rw [Python.fromHex_hex, Python.fromHex_hex] at hback
  exact Option.some.inj hback

theorem sampleIds_apart (data : List UInt8) : ":" ++ Python.hex data ∉ sampleIds.map Prod.snd := by
  have hheads : ∀ id ∈ sampleIds.map Prod.snd, id.toList.head? ≠ some ':' := by
    simp [sampleIds, emptyPayloadHash]
  intro hmem
  exact hheads _ hmem (by simp [String.toList_append])

def sampleStore : CasStore String where
  cid data := (sampleIds.lookup data).getD (":" ++ Python.hex data)
  place := id
  collisionFree := injective_getD_lookup (by simp [sampleIds, emptyPayloadHash]) colon_hex_injective sampleIds_apart

theorem survives_iff_signedNeed : Survives sampleValues (.empty : sampleStore.Contents) [signedNeed] "t" := by
  have hfields : ∀ field ∈ signedNeed, field.1 ∈ ipldFields ∧ (field.1 ≠ "payload" → getCidFromLink field.2 = none) := by
    decide +kernel
  have hwell : ∀ envelope ∈ [signedNeed], Json.wellFormedFields envelope = true :=
    List.forall_mem_singleton.mpr signedNeed_wellFormed
  have haccepted : ∀ envelope ∈ [signedNeed], validateEnvelope sampleValues envelope = .ok true :=
    List.forall_mem_singleton.mpr ((validateEnvelope_iff sampleValues).mpr signedNeed_accepted)
  refine (survives_iff sampleValues .empty "t" hwell haccepted).mpr (List.forall_mem_singleton.mpr ?_)
  exact ⟨fun field hfield => (hfields field hfield).1, unresolved_of_plain fun field hfield => (hfields field hfield).2⟩

theorem notedNeed_keys : ∀ key ∈ ["sig_b64", "sig_pk_b64", "metadata"], key ∉ notedNeed.map Prod.fst := by
  simp [notedNeed, unsignedNeed]

theorem signedNoted_wellFormed : Json.wellFormedFields signedNoted = true := by decide +kernel

theorem signedNoted_accepted : Accepted notedValues signedNoted := by
  have hsample := signedNeed_accepted
  have hkind : getKey signedNoted "kind" = getKey signedNeed "kind" := rfl
  have hpayload : getOr signedNoted "payload" (.obj []) = getOr signedNeed "payload" (.obj []) := rfl
  have hlamport : getKey signedNoted "lamport" = getKey signedNeed "lamport" := rfl
  have hpolicy : getKey signedNoted "policy_engine_hash" = getKey signedNeed "policy_engine_hash" := rfl
  have hhash : notedValues.sha256Hex = sampleValues.sha256Hex := rfl
  have hcontract : currentPolicyHash notedValues = currentPolicyHash sampleValues := by
    rw [currentPolicyHash, currentPolicyHash, hhash]
  have hlengths : aliceKey.length = 32 ∧ notedSignature.length = 64 := by decide
  have hverifies : verifies notedValues aliceKey (cjson (.obj notedNeed)) notedSignature = true := by
    simp [verifies, notedValues, hlengths]
  constructor
  · rw [hkind]
    exact hsample.kind
  · rw [hpayload]
    exact hsample.size
  · rw [hpolicy, hcontract]
    exact hsample.policyHash
  · rw [hlamport]
    exact hsample.lamport
  · rw [hpayload]
    exact hsample.payloadHash
  · exact Bus.sealed_verifies notedValues notedNeed_keys hverifies

/-- An envelope comes back without the field of its own, and its signature no longer fits. -/
theorem noted_thread_lost :
    validateEnvelope notedValues signedNoted = .ok true ∧ Json.wellFormedFields signedNoted = true ∧
    (∃ fields, dagToEnvelopes (envelopesToDag (some (.empty : sampleStore.Contents)) [signedNoted] "t").2
        (envelopesToDag (some (.empty : sampleStore.Contents)) [signedNoted] "t").1 = .ok [inlined fields] ∧
      fields.lookup "note" = none ∧ verifyRecord notedValues fields = false) ∧
    ¬Survives notedValues (.empty : sampleStore.Contents) [signedNoted] "t" := by
  have hwell : ∀ envelope ∈ [signedNoted], Json.wellFormedFields envelope = true :=
    List.forall_mem_singleton.mpr signedNoted_wellFormed
  have hplain : ∀ field ∈ signedNoted, field.1 ≠ "payload" → getCidFromLink field.2 = none := by decide +kernel
  have hread := dagToEnvelopes_envelopesToDag (.empty : sampleStore.Contents) "t" hwell
  have hback : readBack ((.empty : sampleStore.Contents).putAll (threadContents sampleStore [signedNoted])) signedNoted =
      inlined (Json.sortedFields (Json.sortFields (copyFields signedNoted ipldFields))) :=
    readBack_eq_inlined (unresolved_of_plain hplain) signedNoted_wellFormed
      fun _ => payload_mem_threadContents (List.mem_singleton_self _)
  have hnote : "note" ∉ ipldFields := by decide
  refine ⟨(validateEnvelope_iff notedValues).mpr signedNoted_accepted, signedNoted_wellFormed,
    ⟨Json.sortedFields (Json.sortFields (copyFields signedNoted ipldFields)), ?_, ?_, ?_⟩, ?_⟩
  · rw [hread, List.map_singleton, hback]
  · exact Bus.lookup_eq_none_of_not_mem fun hmem => hnote (mem_ipldFields_of_readBack hback hmem)
  · rw [← Bool.not_eq_true, verifyRecord_iff]
    rintro ⟨signature, pk, _, _, _, _, hverifies⟩
    -- the signature is good for one message only, and that has the note in it
    simp only [verifies, notedValues, Bool.and_eq_true, decide_eq_true_eq] at hverifies
    have hcopied : Json.wellFormedFields (copyFields signedNoted ipldFields) = true := by decide +kernel
    have hfields := Json.wellFormed_sorted (.obj (copyFields signedNoted ipldFields)) hcopied
    rw [Json.sorted, ← Json.sortedFields_sortFields] at hfields
    have hnoted : Json.wellFormedFields notedNeed = true := by decide +kernel
    refine cjson_ne hnoted (wellFormed_unsigned hfields) (by decide +kernel : "note" ∈ notedNeed.map Prod.fst) ?_ hverifies.2.1.symm
    intro hmem
    exact hnote (mem_ipldFields_of_readBack hback ((List.filter_sublist.map Prod.fst).subset hmem))
  · intro h
    have hcarried := h.carried hwell (List.mem_singleton_self _)
    exact hnote (hcarried.copied ("note", .str "a") (by decide +kernel))

end Sample

end AgentNetwork.Cas
