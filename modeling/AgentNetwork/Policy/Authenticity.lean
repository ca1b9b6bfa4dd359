import Mathlib.Data.String.Basic
import AgentNetwork.Policy.Envelope
import AgentNetwork.Library.JsonSorted
import AgentNetwork.Library.StableSort
import AgentNetwork.Library.Table

namespace AgentNetwork.Policy

/-- The bytes a field holds in Base64. -/
def bytesOf (envelope : Dict) (key : String) : Option (List UInt8) :=
  match getKey envelope key with
  | .str text => Base64.b64decode text
  | _ => none

/-- The key that the handlers take the sender to be. -/
def senderKey (envelope : Dict) : Option (List UInt8) := bytesOf envelope "sender_pk_b64"

/-- The signatures that holders of keys have made: of which message, and which. -/
abbrev Signings := List UInt8 → String → List UInt8 → Prop

section Authentic

variable (p : Primitives)

/-- Nobody forges: if the envelope's signature verifies, the holder of the key made it. -/
def Explains (signed : Signings) (envelope : Dict) : Prop :=
  ∀ pk message signature, bytesOf envelope "sig_b64" = some signature → verifies p pk message signature = true →
    signed pk message signature

/-- The holder of the key that the envelope names signed exactly its fields. -/
def SignedBySender (signed : Signings) (envelope : Dict) (key signature : List UInt8) : Prop :=
  senderKey envelope = some key ∧ signed key (cjson (.obj (unsigned envelope))) signature

/-- The sender signed the envelope, its payload is the one whose hash is signed,
and it is, field for field, what the sender's signing returned. -/
structure Authentic (signed : Signings) (envelope : Dict) (key signature : List UInt8) : Prop where
  signedBySender : SignedBySender signed envelope key signature
  payload : getKey envelope "payload_hash" = .str (hashPayload p (getOr envelope "payload" (.obj [])))
  untampered : ∀ field, envelope.lookup field = (withSignature key signature (unsigned envelope)).lookup field

/-- The signing key is spelt as `sign_record` spells the key the envelope names,
and the signature as it spells a signature. -/
def NamesSigner (envelope : Dict) : Prop :=
  ∃ key signature, senderKey envelope = some key ∧ getKey envelope "sig_pk_b64" = .str (Base64.b64encode key) ∧
    getKey envelope "sig_b64" = .str (Base64.b64encode signature)

theorem verifyRecord_iff {record : Dict} : verifyRecord p record = true ↔
    ∃ signature pk, bytesOf record "sig_b64" = some signature ∧ bytesOf record "sig_pk_b64" = some pk ∧
      getKey record "sig_b64" ≠ .str "" ∧ getKey record "sig_pk_b64" ≠ .str "" ∧
      verifies p pk (cjson (.obj (unsigned record))) signature = true := by
  unfold verifyRecord bytesOf
  split
  next sigB64 pkB64 hsig hpk =>
    rw [hsig, hpk]
    simp only [ne_eq, Json.str.injEq]
    split
    next hempty =>
      constructor
      · intro h
        cases h
      · rintro ⟨_, _, _, _, hs, hk, _⟩
        exact absurd hempty (not_or.mpr ⟨hs, hk⟩)
    next hempty =>
      obtain ⟨hs, hk⟩ := not_or.mp hempty
      split
      next signature pk hsignature hkey =>
        rw [hsignature, hkey]
        constructor
        · exact fun h => ⟨signature, pk, rfl, rfl, hs, hk, h⟩
        · rintro ⟨_, _, he₁, he₂, _, _, h⟩
          rwa [Option.some.inj he₁, Option.some.inj he₂]
      next hnot =>
        constructor
        · intro h
          cases h
        · rintro ⟨signature, pk, he₁, he₂, _⟩
          exact absurd he₂ (hnot signature pk he₁)
  next hnot =>
    constructor
    · intro h
      cases h
    · rintro ⟨signature, pk, he₁, he₂, _⟩
      split at he₁
      next sigB64 hsig =>
        split at he₂
        next pkB64 hpk => exact absurd hpk (hnot sigB64 pkB64 hsig)
        next => cases he₂
      next => cases he₁

theorem bytesOf_encoded {envelope : Dict} {key : String} {bytes : List UInt8}
    (h : getKey envelope key = .str (Base64.b64encode bytes)) : bytesOf envelope key = some bytes := by
  simp [bytesOf, h, Base64.b64decode_b64encode]

theorem lookup_setField (fields : Dict) (key field : String) (value : Json) :
    (Json.setField fields key value).lookup field = if field = key then some value else fields.lookup field := by
  induction fields with
  | nil =>
    by_cases h : field = key
    · simp [Json.setField, h]
    · have hb : (field == key) = false := by simpa using h
      simp [Json.setField, List.lookup_cons, h, hb]
  | cons entry rest ih =>
    obtain ⟨k, v⟩ := entry
    rw [Json.setField]
    split
    next hk =>
      by_cases h : field = key
      · simp [h, hk]
      · have hb : (field == k) = false := by
          rw [hk]
          simpa using h
        simp [List.lookup_cons, h, hb]
    next hk =>
      rw [List.lookup_cons, List.lookup_cons]
      by_cases hf : field = k
      · have hne : field ≠ key := by rwa [hf]
        simp [hf, hk]
      · have hb : (field == k) = false := by simpa using hf
        simp [hb, ih]

theorem lookup_unsigned (record : Dict) {field : String} (h : isSignatureField field = false) :
    (unsigned record).lookup field = record.lookup field := by
  induction record with
  | nil => rfl
  | cons entry rest ih =>
    obtain ⟨k, v⟩ := entry
    by_cases hk : field = k
    · subst hk
      simp [unsigned, h]
    · have hb : (field == k) = false := by simpa using hk
      have hstep : (unsigned ((k, v) :: rest)).lookup field = (unsigned rest).lookup field := by
        rw [unsigned, List.filter_cons]
        split
        · rw [List.lookup_cons, hb]
          rfl
        · rfl
      rw [hstep, ih, List.lookup_cons, hb]

/-- An envelope is what signing returned if its signature fields are. -/
theorem untampered_iff {envelope : Dict} {key signature : List UInt8} :
    (∀ field, envelope.lookup field = (withSignature key signature (unsigned envelope)).lookup field) ↔
      getKey envelope "sig_pk_b64" = .str (Base64.b64encode key) ∧
      getKey envelope "sig_b64" = .str (Base64.b64encode signature) := by
  simp only [withSignature, lookup_setField]
  constructor
  · intro h
    constructor
    · rw [getKey, getOr, h]
      simp
    · rw [getKey, getOr, h]
      simp
  · rintro ⟨hkey, hsig⟩ field
    have hfound : ∀ {name text : String}, getKey envelope name = .str text → envelope.lookup name = some (.str text) := by
      intro name text hget
      unfold getKey getOr at hget
      cases hlookup : envelope.lookup name with
      | none =>
        rw [hlookup] at hget
        cases hget
      | some value =>
        rw [hlookup] at hget
        exact congrArg some hget
    split
    next hf => rw [hf, hfound hkey]
    next hnotKey =>
      split
      next hf => rw [hf, hfound hsig]
      next hnotSig =>
        rw [lookup_unsigned]
        simp [isSignatureField, hnotKey, hnotSig]

/-- Of an accepted envelope: its sender must have signed it exactly if the
signature verifies under the sender's key, and it must be the sender's own work
exactly if it names its signer. -/
theorem authentic_iff {envelope : Dict} (h : Accepted p envelope) :
    ((∀ signed, Explains p signed envelope → ∃ key signature, SignedBySender signed envelope key signature) ↔
      ∃ key signature, senderKey envelope = some key ∧ bytesOf envelope "sig_b64" = some signature ∧
        verifies p key (cjson (.obj (unsigned envelope))) signature = true) ∧
    ((∀ signed, Explains p signed envelope → ∃ key signature, Authentic p signed envelope key signature) ↔
      NamesSigner envelope) := by
  constructor
  · constructor
    · -- the least that can have been signed: what the envelope's signature verifies
      intro hall
      obtain ⟨key, signature, hsender, hsig, hverifies⟩ := hall
        (fun pk message signature => bytesOf envelope "sig_b64" = some signature ∧ verifies p pk message signature = true)
        fun _ _ _ hsig hverifies => ⟨hsig, hverifies⟩
      exact ⟨key, signature, hsender, hsig, hverifies⟩
    · rintro ⟨key, signature, hsender, hsig, hverifies⟩ signed hexplains
      exact ⟨key, signature, hsender, hexplains _ _ _ hsig hverifies⟩
  · constructor
    · intro hall
      obtain ⟨key, signature, ha⟩ := hall (fun _ _ _ => True) fun _ _ _ _ _ => trivial
      obtain ⟨hkeyField, hsigField⟩ := untampered_iff.mp ha.untampered
      exact ⟨key, signature, ha.signedBySender.1, hkeyField, hsigField⟩
    · rintro ⟨key, signature, hsender, hkeyField, hsigField⟩ signed hexplains
      obtain ⟨signature', pk, hsig, hpk, _, _, hverifies⟩ := (verifyRecord_iff p).mp h.signature
      rw [bytesOf_encoded hsigField] at hsig
      rw [bytesOf_encoded hkeyField] at hpk
      cases hsig
      cases hpk
      have hsigned := hexplains key _ signature (bytesOf_encoded hsigField) hverifies
      exact ⟨key, signature, ⟨hsender, hsigned⟩, h.payloadHash, untampered_iff.mpr ⟨hkeyField, hsigField⟩⟩

end Authentic

theorem senderKey_needSignedWith (key signature : List UInt8) :
    senderKey (needSignedWith key signature) = some aliceKey := by
  have hfield : getKey (needSignedWith key signature) "sender_pk_b64" =
      .str "O2onvM62pC1io6jQKm8Nc2UyFXcd4kOmOsBIoYtZ2ik=" := by
    simp [getKey, getOr, needSignedWith, unsignedNeed, List.lookup_cons]
  rw [senderKey, bytesOf, hfield]
  decide +kernel

theorem authentic_iff_signedNeed : NamesSigner signedNeed ∧
    ∀ signed, Explains sampleValues signed signedNeed →
      ∃ key signature, Authentic sampleValues signed signedNeed key signature := by
  have hnames : NamesSigner signedNeed :=
    ⟨aliceKey, aliceSignature, senderKey_needSignedWith _ _, needSignedWith_key _ _, needSignedWith_signature _ _⟩
  exact ⟨hnames, (authentic_iff sampleValues signedNeed_accepted).2.mpr hnames⟩

/-- The envelope that names the first key, signed with the other one. -/
def forgedNeed : Dict := needSignedWith malloryKey mallorySignature

theorem forgedNeed_accepted : Accepted sampleValues forgedNeed :=
  needSignedWith_accepted (by decide) (by decide) (by simp [sampleValues])

/-- A valid envelope names the first key, whose holder has signed nothing. -/
theorem forgedNeed_not_authentic : Accepted sampleValues forgedNeed ∧ senderKey forgedNeed = some aliceKey ∧
    ∃ signed : Signings, Explains sampleValues signed forgedNeed ∧ (∀ message signature, ¬signed aliceKey message signature) ∧
      ¬∃ key signature, Authentic sampleValues signed forgedNeed key signature := by
  have hsender : senderKey forgedNeed = some aliceKey := senderKey_needSignedWith _ _
  have hother : aliceKey ≠ malloryKey := by decide
  refine ⟨forgedNeed_accepted, hsender, fun pk _ _ => pk = malloryKey, ?_, fun _ _ => hother, ?_⟩
  · intro pk message signature hsig hverifies
    rw [forgedNeed, bytesOf_encoded (needSignedWith_signature _ _)] at hsig
    cases hsig
    have hsignature : mallorySignature ≠ aliceSignature := by decide
    simp only [verifies, sampleValues, Bool.and_eq_true, Bool.or_eq_true, decide_eq_true_eq] at hverifies
    rcases hverifies.2.2 with ⟨_, hs⟩ | ⟨hk, _⟩
    · exact absurd hs hsignature
    · exact hk
  · rintro ⟨key, signature, ha⟩
    obtain ⟨hkey, hsigned⟩ := ha.signedBySender
    rw [hsender] at hkey
    cases hkey
    exact hother hsigned

end AgentNetwork.Policy

/-! The order of the keys of an envelope, and of the dictionaries in it, does not
matter to the gates. -/

namespace AgentNetwork.Policy

/-- The same dictionary: the same fields in any order, at every depth. -/
def SameDict (d e : Dict) : Prop := (Json.obj d).sorted = (Json.obj e).sorted

instance (d e : Dict) : Decidable (SameDict d e) := inferInstanceAs (Decidable (_ = _))

section SameDict

variable {d e : Dict}

theorem SameDict.perm (h : SameDict d e) : (Json.sortedFields d).Perm (Json.sortedFields e) := by
  have hsorted : Json.sortFields (Json.sortedFields d) = Json.sortFields (Json.sortedFields e) := Json.obj.inj h
  have hd := Json.perm_sortFields (Json.sortedFields d)
  have he := Json.perm_sortFields (Json.sortedFields e)
  rw [hsorted] at hd
  exact hd.symm.trans he

theorem SameDict.keys_perm (h : SameDict d e) : (d.map Prod.fst).Perm (e.map Prod.fst) := by
  have hkeys := h.perm.map Prod.fst
  rwa [Json.keys_sortedFields, Json.keys_sortedFields] at hkeys

theorem sameDict_of_perm (hnodup : (d.map Prod.fst).Nodup) (h : (Json.sortedFields d).Perm (Json.sortedFields e)) :
    SameDict d e := by
  rw [← Json.keys_sortedFields] at hnodup
  exact congrArg Json.obj (StableSort.sortOn_eq_of_perm Prod.fst h hnodup)

theorem lookup_sortedFields (d : Dict) (key : String) :
    (Json.sortedFields d).lookup key = (d.lookup key).map Json.sorted := by
  induction d with
  | nil => rfl
  | cons field rest ih =>
    obtain ⟨k, v⟩ := field
    rw [Json.sortedFields, List.lookup_cons, List.lookup_cons, ih]
    cases key == k <;> rfl

theorem SameDict.lookup (h : SameDict d e) (hnodup : (e.map Prod.fst).Nodup) (key : String) :
    (d.lookup key).map Json.sorted = (e.lookup key).map Json.sorted := by
  have he : ((Json.sortedFields e).map Prod.fst).Nodup := by rwa [Json.keys_sortedFields]
  have hd : ((Json.sortedFields d).map Prod.fst).Nodup := (h.perm.map Prod.fst).nodup_iff.mpr he
  rw [← lookup_sortedFields, ← lookup_sortedFields]
  refine Option.ext fun value => ?_
  rw [Relational.Table.lookup_eq_some_iff_mem hd, Relational.Table.lookup_eq_some_iff_mem he]
  exact h.perm.mem_iff

theorem SameDict.getOr (h : SameDict d e) (hnodup : (e.map Prod.fst).Nodup) (key : String) (default : Json) :
    (getOr d key default).sorted = (getOr e key default).sorted := by
  have hlookup := h.lookup hnodup key
  unfold Policy.getOr
  cases hd : d.lookup key with
  | none =>
    cases he : e.lookup key with
    | none => rfl
    | some value => simp [hd, he] at hlookup
  | some value =>
    cases he : e.lookup key with
    | none => simp [hd, he] at hlookup
    | some other => simpa [hd, he] using hlookup

theorem SameDict.filter (h : SameDict d e) (hnodup : (e.map Prod.fst).Nodup) (p : String → Bool) :
    SameDict (d.filter fun field => p field.1) (e.filter fun field => p field.1) := by
  have hfilter : ∀ fields : Dict, Json.sortedFields (fields.filter fun field => p field.1) =
      (Json.sortedFields fields).filter fun field => p field.1 := by
    intro fields
    rw [Json.sortedFields_eq_map, Json.sortedFields_eq_map, List.filter_map]
    rfl
  have hd : (d.map Prod.fst).Nodup := h.keys_perm.nodup_iff.mpr hnodup
  refine sameDict_of_perm (hd.sublist (List.filter_sublist.map _)) ?_
  rw [hfilter, hfilter]
  exact h.perm.filter _

/-- What does not depend on the order of keys is the same of what both hold. -/
theorem SameDict.congr {β : Type} (h : SameDict d e) (hnodup : (e.map Prod.fst).Nodup) (f : Json → β)
    (hf : ∀ value, f value.sorted = f value) (key : String) (default : Json) :
    f (Policy.getOr d key default) = f (Policy.getOr e key default) := by
  rw [← hf, h.getOr hnodup, hf]

end SameDict

section Values

/-- A value with its keys sorted is a text if the value is. -/
theorem sorted_eq_str_iff {value : Json} {s : String} : value.sorted = .str s ↔ value = .str s := by
  cases value with
  | str => exact Iff.rfl
  | null | bool | int | float | arr | obj => simp [Json.sorted]

theorem isAllowedKind_sorted (kinds : List String) (value : Json) :
    isAllowedKind kinds value.sorted = isAllowedKind kinds value := by
  cases value <;> rfl

theorem isPositiveInt_sorted (value : Json) : isPositiveInt value.sorted = isPositiveInt value := by
  cases value <;> rfl

theorem cjson_sorted (value : Json) : cjson value.sorted = cjson value := by
  have hencode : ∀ value : Json, value.encode Json.canonicalStyle = value.sorted.encode ⟨false, ",", ":"⟩ :=
    Json.encode_sorted "," ":"
  rw [cjson, cjson, Json.write, Json.write, hencode, hencode, Json.sorted_sorted]

end Values

variable (p : Primitives) {d e : Dict}

theorem bytesOf_eq_of_sameDict (h : SameDict d e) (hnodup : (e.map Prod.fst).Nodup) (key : String) :
    bytesOf d key = bytesOf e key := by
  have hf : ∀ value : Json, bytesOf [(key, value.sorted)] key = bytesOf [(key, value)] key := by
    intro value
    cases value <;> simp [bytesOf, getKey, getOr, Json.sorted]
  have hbytes : ∀ fields : Dict, bytesOf [(key, getOr fields key .null)] key = bytesOf fields key := by
    intro fields
    simp [bytesOf, getKey, getOr]
  rw [← hbytes d, ← hbytes e]
  exact h.congr hnodup (fun value => bytesOf [(key, value)] key) hf key .null

theorem getKey_eq_str_iff_of_sameDict (h : SameDict d e) (hnodup : (e.map Prod.fst).Nodup) {key s : String} :
    getKey d key = .str s ↔ getKey e key = .str s := by
  rw [← sorted_eq_str_iff, getKey, h.getOr hnodup, sorted_eq_str_iff]
  exact Iff.rfl

theorem cjson_eq_of_sameDict (h : SameDict d e) : cjson (.obj d) = cjson (.obj e) := by
  rw [← cjson_sorted (.obj d), h, cjson_sorted]

theorem wellFormed_unsigned {record : Dict} (h : Json.wellFormedFields record = true) :
    Json.wellFormedFields (unsigned record) = true := by
  obtain ⟨hnodup, hvalues⟩ := Json.wellFormedFields_iff.mp h
  have hsublist : (unsigned record).Sublist record := List.filter_sublist
  exact Json.wellFormedFields_iff.mpr
    ⟨hnodup.sublist (hsublist.map Prod.fst), fun field hfield => hvalues field (hsublist.subset hfield)⟩

/-- Dictionaries with different keys have different canonical texts. -/
theorem cjson_ne {fields others : Dict} (hfields : Json.wellFormedFields fields = true)
    (hothers : Json.wellFormedFields others = true) {key : String} (hkey : key ∈ fields.map Prod.fst)
    (hnot : key ∉ others.map Prod.fst) : cjson (.obj fields) ≠ cjson (.obj others) := by
  intro he
  have hperm := Json.keys_perm_of_write_eq Json.compactStyle_readable hfields hothers he
  exact hnot (hperm.mem_iff.mp hkey)

/-- A signature covers the fields whatever their order. -/
theorem verifyRecord_of_sameDict (h : SameDict d e) (hnodup : (e.map Prod.fst).Nodup) (he : verifyRecord p e = true) :
    verifyRecord p d = true := by
  have htext : ∀ {key s : String}, getKey d key = .str s ↔ getKey e key = .str s := getKey_eq_str_iff_of_sameDict h hnodup
  obtain ⟨signature, pk, hsig, hpk, hsome, hpksome, hverifies⟩ := (verifyRecord_iff p).mp he
  have hmessage : cjson (.obj (unsigned d)) = cjson (.obj (unsigned e)) :=
    cjson_eq_of_sameDict (h.filter hnodup fun key => !isSignatureField key)
  refine (verifyRecord_iff p).mpr ⟨signature, pk, ?_, ?_, mt htext.mp hsome, mt htext.mp hpksome, ?_⟩
  · rw [bytesOf_eq_of_sameDict h hnodup, hsig]
  · rw [bytesOf_eq_of_sameDict h hnodup, hpk]
  · rwa [hmessage]

/-- The gates read an envelope as a dictionary: the order of its keys is nothing to them. -/
theorem Accepted.of_sameDict (ha : Accepted p e) (h : SameDict d e) (hnodup : (e.map Prod.fst).Nodup) : Accepted p d := by
  have htext : ∀ {key s : String}, getKey d key = .str s ↔ getKey e key = .str s := getKey_eq_str_iff_of_sameDict h hnodup
  have hpayload : cjson (getOr d "payload" (.obj [])) = cjson (getOr e "payload" (.obj [])) :=
    h.congr hnodup cjson cjson_sorted "payload" (.obj [])
  constructor
  · rw [getKey, h.congr hnodup _ (isAllowedKind_sorted _) "kind"]
    exact ha.kind
  · rw [canonicalPayloadSize, hpayload]
    exact ha.size
  · exact htext.mpr ha.policyHash
  · rw [getKey, h.congr hnodup _ isPositiveInt_sorted "lamport"]
    exact ha.lamport
  · rw [hashPayload, hpayload]
    exact htext.mpr ha.payloadHash
  · exact verifyRecord_of_sameDict p h hnodup ha.signature

theorem signedNeed_wellFormed : Json.wellFormedFields signedNeed = true := by decide +kernel

end AgentNetwork.Policy
