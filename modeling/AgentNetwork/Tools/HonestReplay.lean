import AgentNetwork.Tools.BusRuns
import AgentNetwork.Policy.Authenticity

/-! When the log of an honest run is replayed with success. -/

namespace AgentNetwork.Tools

open Policy Bus Python

/-- The dictionary on a line. -/
def eventOf (line : String) : Dict :=
  match readLine line with
  | some (.obj event) => event
  | _ => []

/-- A decision that is taken to be for the need "unknown", as one without a need is. -/
def decidesUnknown (envelope : Dict) : Prop := isKind "DECIDE" envelope = true ∧ takenNeed envelope = some (.str "unknown")

/-- What the records under a thread must be for the checks of the thread to pass. -/
structure Replayable (p : Primitives) (thread : String) (s : BusRun) : Prop where
  recorded : s.under thread ≠ []
  inOrder : (s.under thread).Pairwise fun a b => a.position < b.position
  accepted : ∀ r ∈ s.under thread, Accepted p r.envelope
  named : ∀ r ∈ s.under thread, isKind "DECIDE" r.envelope = true →
    ∃ needId, takenNeed r.envelope = some needId ∧ needId.hashable = true
  oneUnknown : (s.under thread).Pairwise fun a b => ¬(decidesUnknown a.envelope ∧ decidesUnknown b.envelope)

/-- What the records that the simulator loads must be besides. -/
structure Simulable (p : Primitives) (thread : String) (s : BusRun) : Prop where
  accepted : thread = "" → ∀ r ∈ s.log, Accepted p r.envelope
  need : ∀ r ∈ s.loaded thread, readsNeed r.envelope = true →
    ∃ needId, needKey (getOr r.envelope "payload" (.obj [])) = .ok needId
  apart : thread = "" → s.log.Pairwise fun a b => NoClash a.envelope b.envelope

section Reading

variable {p : Primitives}

theorem readEvents_map {lines : List String} (h : ∀ line ∈ lines, ∃ event, readLine line = some (.obj event)) :
    readEvents lines = .ok (lines.map eventOf) := by
  induction lines with
  | nil => rfl
  | cons line rest ih =>
    obtain ⟨event, hline⟩ := h line List.mem_cons_self
    have hrest := ih fun l hl => h l (List.mem_cons_of_mem _ hl)
    have hevent : eventOf line = event := by simp [eventOf, hline]
    rw [readEvents, hline]
    simp only [Python.asDict, hrest, List.map_cons, hevent]
    rfl

theorem ReadsAs.eventOf {line threadId : String} {payload event : Dict} (h : ReadsAs p line threadId payload event) :
    eventOf line = event := by
  simp [Tools.eventOf, h.read]

/-- The payloads of the events of records are their envelopes. -/
theorem filterMap_payloadOf {records : List LogRecord}
    (h : ∀ r ∈ records, ∃ event, ReadsAs p r.line r.threadId r.envelope event) :
    (records.map fun r => eventOf r.line).filterMap payloadOf = records.map LogRecord.envelope := by
  induction records with
  | nil => rfl
  | cons r rest ih =>
    obtain ⟨event, hevent⟩ := h r List.mem_cons_self
    have hpayload : payloadOf event = some r.envelope := by simp [payloadOf, hevent.envelope]
    rw [List.map_cons, List.filterMap_cons, hevent.eventOf, hpayload, List.map_cons,
      ih fun r hr => h r (List.mem_cons_of_mem _ hr)]

end Reading

section Needs

variable {envelope : Dict} {needId : Json}

/-- A decision is taken to be for the need it names, or for none. -/
theorem takenNeed_cases (hkind : isKind "DECIDE" envelope = true) (h : takenNeed envelope = some needId) :
    namedNeed envelope = some needId ∨ needId = .str "unknown" := by
  cases hpayload : getOr envelope "payload" (.obj []) with
  | obj payload =>
    rw [takenNeed_obj hpayload, Option.some.injEq] at h
    cases hfound : payload.lookup "need_id" with
    | none =>
      rw [getOr, hfound] at h
      exact Or.inr h.symm
    | some value =>
      rw [getOr, hfound] at h
      exact Or.inl (by simp [namedNeed, hkind, hpayload, hfound, ← h])
  | null | bool | int | float | str | arr => simp [takenNeed, hpayload] at h

theorem takenNeed_of_namedNeed (h : namedNeed envelope = some needId) :
    isKind "DECIDE" envelope = true ∧ takenNeed envelope = some needId := by
  unfold namedNeed at h
  split at h
  next hkind =>
    split at h
    next payload hpayload =>
      refine ⟨hkind, ?_⟩
      rw [takenNeed_obj hpayload, getOr, h]
      rfl
    next => cases h
  next => cases h

/-- The simulator keeps a decision under the need it is taken to be for. -/
theorem takenNeed_of_decidedKey (h : decidedKey envelope = some needId) :
    isKind "DECIDE" envelope = true ∧ takenNeed envelope = some needId := by
  unfold decidedKey at h
  split at h
  next hkind =>
    refine ⟨hkind, ?_⟩
    cases hpayload : getOr envelope "payload" (.obj []) with
    | obj payload =>
      rw [hpayload] at h
      simp only [needKey, Python.asDict, bind, Except.bind] at h
      cases hfound : payload.lookup "need_id" with
      | none =>
        have hvalue : getKey payload "need_id" = .null := by simp [getKey, getOr, hfound]
        rw [hvalue] at h
        cases h
      | some value =>
        have hvalue : getKey payload "need_id" = value := by simp [getKey, getOr, hfound]
        rw [hvalue] at h
        rw [takenNeed_obj hpayload, getOr, hfound]
        split at h
        next needId' hneed =>
          split at hneed
          next => cases hneed; cases h
          next =>
            split at hneed
            next =>
              cases hneed
              exact h
            next => cases hneed
        next => cases h
    | null | bool | int | float | str | arr =>
      rw [hpayload] at h
      cases h
  next => cases h

theorem sameKey_str {text : String} {value : Json} (h : sameKey (.str text) value = true) : value = .str text := by
  cases value with
  | str s =>
    simp only [sameKey, equal, Bool.or_eq_true, decide_eq_true_eq, Json.str.injEq, or_self] at h
    rw [h]
  | null | bool | int | float | arr | obj => simp [sameKey, equal] at h

end Needs

section Honest

variable {p : Primitives} {s : BusRun} (hinv : RunInvariant p s)

include hinv

theorem RunInvariant.readEvents : Tools.readEvents s.lines = .ok (s.log.map fun r => eventOf r.line) := by
  have h : ∀ line ∈ s.lines, ∃ event, readLine line = some (.obj event) := by
    intro line hline
    obtain ⟨r, hr, rfl⟩ := List.mem_map.mp hline
    obtain ⟨event, hevent⟩ := hinv.reads r hr
    exact ⟨event, hevent.read⟩
  rw [readEvents_map h, BusRun.lines, List.map_map]
  rfl

/-- The events under a thread are those of the records under it. -/
theorem RunInvariant.filter_hasThread (thread : String) :
    (s.log.map fun r => eventOf r.line).filter (hasThread thread) = (s.under thread).map fun r => eventOf r.line := by
  rw [List.filter_map, BusRun.under]
  refine congrArg _ (List.filter_congr fun r hr => ?_)
  obtain ⟨event, hevent⟩ := hinv.reads r hr
  simp [hasThread, hevent.eventOf, hevent.thread]

theorem RunInvariant.reads_under {thread : String} {r : LogRecord} (hr : r ∈ s.under thread) :
    ∃ event, ReadsAs p r.line r.threadId r.envelope event :=
  hinv.reads r (BusRun.mem_log hr)

/-- Of each record: the message it is of. -/
theorem RunInvariant.sound_record {r : LogRecord} (hr : r ∈ s.log) :
    isPositiveInt (getKey r.envelope "lamport") = true ∧
    isAllowedKind (allowedKinds ++ legacyAllowedKinds) (getKey r.envelope "kind") = true := by
  obtain ⟨m, hm, he⟩ := hinv.record r hr
  have hsound := hinv.sound m (List.mem_of_getElem? hm)
  rw [← he]
  exact ⟨hsound.lamport, hsound.kind⟩

theorem RunInvariant.hasKeys {r : LogRecord} (hr : r ∈ s.log) :
    hasKey "lamport" r.envelope = true ∧ hasKey "kind" r.envelope = true := by
  obtain ⟨hlamport, hkind⟩ := hinv.sound_record hr
  constructor
  · cases hfound : r.envelope.lookup "lamport" with
    | some value => simp [hasKey, hfound]
    | none => simp [getKey, getOr, hfound, isPositiveInt] at hlamport
  · cases hfound : r.envelope.lookup "kind" with
    | some value => simp [hasKey, hfound]
    | none => simp [getKey, getOr, hfound, isAllowedKind] at hkind

theorem RunInvariant.filter_hasKey {records : List LogRecord} (h : ∀ r ∈ records, r ∈ s.log) :
    (records.map LogRecord.envelope).filter (hasKey "lamport") = records.map LogRecord.envelope ∧
    (records.map LogRecord.envelope).filter (hasKey "kind") = records.map LogRecord.envelope := by
  rw [List.filter_eq_self, List.filter_eq_self]
  constructor <;> intro e he <;> obtain ⟨r, hr, rfl⟩ := List.mem_map.mp he
  · exact (hinv.hasKeys (h r hr)).1
  · exact (hinv.hasKeys (h r hr)).2

theorem RunInvariant.lamports_positive {records : List LogRecord} (h : ∀ r ∈ records, r ∈ s.log) :
    ∀ e ∈ records.map LogRecord.envelope, isPositiveInt (getKey e "lamport") = true := by
  intro e he
  obtain ⟨r, hr, rfl⟩ := List.mem_map.mp he
  exact (hinv.sound_record (h r hr)).1

/-- The Lamport check passes exactly if the records stand in the order of
publication, one for each message at most. -/
theorem RunInvariant.lamportViolations_iff {records : List LogRecord} (h : ∀ r ∈ records, r ∈ s.log) :
    lamportViolations (.int 0) 0 (records.map LogRecord.envelope) = .ok 0 ↔
      records.Pairwise fun a b => a.position < b.position := by
  have hpositive := hinv.lamports_positive h
  have hzero : Number.ofJson? (.int 0) = some (.finite ((0 : Int) : ℚ)) := rfl
  have habove : ∀ e ∈ records.map LogRecord.envelope, 0 < clock e := fun e he => (ofJson_clock (hpositive e he)).2
  rw [Tools.lamportViolations_iff hzero hpositive, List.pairwise_map]
  have hiff : ∀ a ∈ records, ∀ b ∈ records, clock a.envelope < clock b.envelope ↔ a.position < b.position := by
    intro a ha b hb
    obtain ⟨m, hm, hma⟩ := hinv.record a (h a ha)
    obtain ⟨n, hn, hnb⟩ := hinv.record b (h b hb)
    rw [← hma, ← hnb]
    exact hinv.clock_lt_iff hm hn
  constructor
  · rintro ⟨_, hpairs⟩
    exact hpairs.imp_of_mem fun ha hb hab => (hiff _ ha _ hb).mp hab
  · intro hpairs
    exact ⟨habove, hpairs.imp_of_mem fun ha hb hab => (hiff _ ha _ hb).mpr hab⟩

theorem RunInvariant.apart {a b : LogRecord} (ha : a ∈ s.log) (hb : b ∈ s.log) (hab : a.position < b.position) {m n : Json}
    (hm : namedNeed a.envelope = some m) (hn : namedNeed b.envelope = some n) : sameKey m n = false := by
  obtain ⟨x, hx, hxa⟩ := hinv.record a ha
  obtain ⟨y, hy, hyb⟩ := hinv.record b hb
  obtain ⟨hi, rfl⟩ := List.getElem?_eq_some_iff.mp hx
  obtain ⟨hj, rfl⟩ := List.getElem?_eq_some_iff.mp hy
  rw [← hxa] at hm
  rw [← hyb] at hn
  exact List.pairwise_iff_getElem.mp hinv.needs a.position b.position hi hj hab m n hm hn

/-- In the order of publication decisions are apart if they can be keys and at most
one is for no need. -/
theorem RunInvariant.decidesApart_iff {records : List LogRecord} (h : ∀ r ∈ records, r ∈ s.log)
    (horder : records.Pairwise fun a b => a.position < b.position) :
    DecidesApart ((records.map LogRecord.envelope).filter (isKind "DECIDE")) ↔
      (∀ r ∈ records, isKind "DECIDE" r.envelope = true →
        ∃ needId, takenNeed r.envelope = some needId ∧ needId.hashable = true) ∧
      records.Pairwise fun a b => ¬(decidesUnknown a.envelope ∧ decidesUnknown b.envelope) := by
  have hnamed : (∀ e ∈ (records.map LogRecord.envelope).filter (isKind "DECIDE"),
        ∃ needId, takenNeed e = some needId ∧ needId.hashable = true) ↔
      ∀ r ∈ records, isKind "DECIDE" r.envelope = true →
        ∃ needId, takenNeed r.envelope = some needId ∧ needId.hashable = true := by
    simp only [List.mem_filter, List.mem_map, and_imp, forall_exists_index, forall_apply_eq_imp_iff₂]
  constructor
  · rintro ⟨hkeys, hapart⟩
    refine ⟨hnamed.mp hkeys, ?_⟩
    rw [List.pairwise_filter, List.pairwise_map] at hapart
    refine hapart.imp ?_
    rintro a b hab ⟨⟨hka, hta⟩, hkb, htb⟩
    have hsame : sameKey (.str "unknown") (.str "unknown") = true := by simp [sameKey]
    rw [hab hka hkb _ _ hta htb] at hsame
    cases hsame
  · rintro ⟨hkeys, hunknown⟩
    refine ⟨hnamed.mpr hkeys, ?_⟩
    rw [List.pairwise_filter, List.pairwise_map]
    refine (horder.and hunknown).imp_of_mem ?_
    rintro a b ha hb ⟨hab, hnot⟩ hka hkb m n hm hn
    by_contra hsame
    rw [Bool.not_eq_false] at hsame
    have hhashable : ∀ {r : LogRecord} {k : Json}, r ∈ records → isKind "DECIDE" r.envelope = true →
        takenNeed r.envelope = some k → k.hashable = true := by
      intro r k hr hkind htaken
      obtain ⟨needId, hneed, hhash⟩ := hkeys r hr hkind
      rw [htaken] at hneed
      cases hneed
      exact hhash
    rcases takenNeed_cases hka hm with hma | rfl
    · rcases takenNeed_cases hkb hn with hnb | rfl
      · rw [hinv.apart (h a ha) (h b hb) hab hma hnb] at hsame
        cases hsame
      · rw [sameKey_comm (hhashable ha hka hm) (hhashable hb hkb hn)] at hsame
        rw [sameKey_str hsame] at hm
        exact hnot ⟨⟨hka, hm⟩, hkb, hn⟩
    · rw [sameKey_str hsame] at hn
      exact hnot ⟨⟨hka, hm⟩, hkb, hn⟩

theorem RunInvariant.loadAuditLog (thread : String) :
    Tools.loadAuditLog s.lines thread = .ok ((s.loaded thread).map LogRecord.envelope) := by
  refine Transactional.except_bind_ok.mpr ⟨_, hinv.readEvents, ?_⟩
  dsimp only
  unfold BusRun.loaded
  split
  next => rw [filterMap_payloadOf hinv.reads, (hinv.filter_hasKey fun _ hr => hr).2]
  next =>
    have hmem : ∀ r ∈ s.under thread, r ∈ s.log := fun _ => BusRun.mem_log
    rw [hinv.filter_hasThread, filterMap_payloadOf fun r hr => hinv.reads_under hr, (hinv.filter_hasKey hmem).2]

theorem RunInvariant.verified (thread : String) :
    ∀ event ∈ (s.under thread).map fun r => eventOf r.line, verifyRecord p event = true := by
  intro event hevent
  obtain ⟨r, hr, rfl⟩ := List.mem_map.mp hevent
  obtain ⟨event, hreads⟩ := hinv.reads_under hr
  rw [hreads.eventOf]
  exact hreads.verified

theorem RunInvariant.payloads (thread : String) :
    ((s.under thread).map fun r => eventOf r.line).filterMap payloadOf = (s.under thread).map LogRecord.envelope :=
  filterMap_payloadOf fun _ => hinv.reads_under

/-- A thread with a second record of one message, or with records out of the order of
publication, is refused. -/
theorem RunInvariant.replayThread_disordered {gates : Option GateEnforcer} {thread : String} (useSimulator : Bool)
    (h : ¬(s.under thread).Pairwise fun a b => a.position < b.position) :
    replayThread p gates (some s.lines) thread useSimulator = .ok false := by
  have hmem : ∀ r ∈ s.under thread, r ∈ s.log := fun _ => BusRun.mem_log
  have hzero : Number.ofJson? (.int 0) = some (.finite ((0 : Int) : ℚ)) := rfl
  obtain ⟨count, hcount⟩ := lamportViolations_total 0 hzero (hinv.lamports_positive hmem)
  have hlate : count ≠ 0 := by
    rintro rfl
    exact h ((hinv.lamportViolations_iff hmem).mp hcount)
  have hnonempty : (s.under thread).map (fun r => eventOf r.line) ≠ [] := by
    intro hnil
    rw [List.map_eq_nil_iff.mp hnil] at h
    exact h List.Pairwise.nil
  rw [← (hinv.filter_hasKey hmem).1, ← hinv.payloads, ← hinv.filter_hasThread] at hcount
  rw [← hinv.filter_hasThread] at hnonempty
  refine replayThread_late hinv.readEvents hnonempty ?_ hcount hlate
  rw [hinv.filter_hasThread]
  exact hinv.verified thread

/-- The checks of a thread's events pass exactly if its records are replayable. -/
theorem RunInvariant.checked_iff {gates : Option GateEnforcer} (hgates : AllowsAll gates) (thread : String) :
    Checked p gates ((s.log.map fun r => eventOf r.line).filter (hasThread thread)) ↔ Replayable p thread s := by
  have hmem : ∀ r ∈ s.under thread, r ∈ s.log := fun _ => BusRun.mem_log
  have hpayloads := hinv.payloads thread
  have hlamport := (hinv.filter_hasKey hmem).1
  have hnil : ((s.under thread).map fun r => eventOf r.line) ≠ [] ↔ s.under thread ≠ [] := by simp
  have haccepted : (∀ e ∈ (s.under thread).map LogRecord.envelope, Accepted p e) ↔
      ∀ r ∈ s.under thread, Accepted p r.envelope := List.forall_mem_map
  rw [hinv.filter_hasThread]
  constructor
  · rintro ⟨hnonempty, _, hincreasing, hdecides, hallowed⟩
    rw [hpayloads] at hincreasing hdecides hallowed
    rw [hlamport] at hincreasing hallowed
    have horder := (hinv.lamportViolations_iff hmem).mp hincreasing
    obtain ⟨hnamed, hunknown⟩ := (hinv.decidesApart_iff hmem horder).mp hdecides
    exact ⟨hnil.mp hnonempty, horder, haccepted.mp ((policyFailures_iff hgates).mp hallowed), hnamed, hunknown⟩
  · rintro ⟨hrecorded, horder, hall, hnamed, hunknown⟩
    refine ⟨hnil.mpr hrecorded, hinv.verified thread, ?_, ?_, ?_⟩
    · rw [hpayloads, hlamport]
      exact (hinv.lamportViolations_iff hmem).mpr horder
    · rw [hpayloads]
      exact (hinv.decidesApart_iff hmem horder).mpr ⟨hnamed, hunknown⟩
    · rw [hpayloads, hlamport]
      exact (policyFailures_iff hgates).mpr (haccepted.mpr hall)

/-- The simulation of a replayable thread succeeds exactly if what it loads can be processed. -/
theorem RunInvariant.simulationSucceeds_iff {thread : String} (h : Replayable p thread s) :
    simulationSucceeds p s.lines thread = true ↔ Simulable p thread s := by
  have hmem : ∀ r ∈ s.under thread, r ∈ s.log := fun _ => BusRun.mem_log
  rw [Tools.simulationSucceeds_iff (hinv.loadAuditLog thread), List.forall_mem_map, List.pairwise_map]
  by_cases hthread : thread = ""
  · have hloaded : s.loaded thread = s.log := if_pos hthread
    have hnonempty : s.log.map LogRecord.envelope ≠ [] := by
      obtain ⟨r, hr⟩ := List.exists_mem_of_ne_nil _ h.recorded
      exact List.ne_nil_of_mem (List.mem_map_of_mem (hmem r hr))
    rw [hloaded]
    constructor
    · rintro ⟨_, hall, hpairs⟩
      refine ⟨fun _ r hr => (hall r hr).accepted, ?_, fun _ => hpairs⟩
      rw [hloaded]
      exact fun r hr => (hall r hr).need
    · rintro ⟨haccepted, hneed, hapart⟩
      rw [hloaded] at hneed
      exact ⟨hnonempty, fun r hr => ⟨haccepted hthread r hr, hneed r hr⟩, hapart hthread⟩
  · have hloaded : s.loaded thread = s.under thread := if_neg hthread
    have hnonempty : (s.under thread).map LogRecord.envelope ≠ [] := by simpa using h.recorded
    have hdecides := (hinv.decidesApart_iff hmem h.inOrder).mpr ⟨h.named, h.oneUnknown⟩
    have hpairs : (s.under thread).Pairwise fun a b => NoClash a.envelope b.envelope := by
      have hapart := hdecides.apart
      rw [List.pairwise_filter, List.pairwise_map] at hapart
      refine hapart.imp fun hab m n hm hn => ?_
      obtain ⟨hka, hta⟩ := takenNeed_of_decidedKey hm
      obtain ⟨hkb, htb⟩ := takenNeed_of_decidedKey hn
      exact hab hka hkb m n hta htb
    rw [hloaded]
    constructor
    · rintro ⟨_, hall, _⟩
      refine ⟨fun he => absurd he hthread, ?_, fun he => absurd he hthread⟩
      rw [hloaded]
      exact fun r hr => (hall r hr).need
    · rintro ⟨_, hneed, _⟩
      rw [hloaded] at hneed
      exact ⟨hnonempty, fun r hr => ⟨h.accepted r hr, hneed r hr⟩, hpairs⟩

end Honest

/-- What a thread's events show about it: each is signed, and no two decisions with
different identifiers name one need. -/
structure Trustworthy (p : Primitives) (events : List Dict) : Prop where
  signed : ∀ event ∈ events, verifyRecord p event = true
  oneDecide : ∀ x ∈ events, ∀ y ∈ events, ∀ a b, payloadOf x = some a → payloadOf y = some b →
    getKey a "id" ≠ getKey b "id" → ∀ m n, namedNeed a = some m → namedNeed b = some n → sameKey m n = false

theorem Checked.trustworthy {p : Primitives} {gates : Option GateEnforcer} {events : List Dict} (h : Checked p gates events) :
    Trustworthy p events := by
  refine ⟨h.verified, ?_⟩
  intro x hx y hy a b ha hb hid m n hm hn
  obtain ⟨hka, hta⟩ := takenNeed_of_namedNeed hm
  obtain ⟨hkb, htb⟩ := takenNeed_of_namedNeed hn
  have hmema := List.mem_filter.mpr ⟨List.mem_filterMap.mpr ⟨x, hx, ha⟩, hka⟩
  have hmemb := List.mem_filter.mpr ⟨List.mem_filterMap.mpr ⟨y, hy, hb⟩, hkb⟩
  have hne : a ≠ b := by
    rintro rfl
    exact hid rfl
  exact h.decides.of_mem hmema hmemb hne m n hta htb

/-- The log of an honest run is replayed with success exactly if the records under
the thread are replayable; whatever the log, success means that the events of the
thread are signed and decide no need twice. -/
theorem replayThread_honest_iff {p : Primitives} {isPrintable : Char → Bool} {gates : Option GateEnforcer}
    (hp : SignaturesVerify p) (hgates : AllowsAll gates) :
    (∀ thread s useSimulator, Reached p isPrintable thread s →
      (replayThread p gates (some s.lines) thread useSimulator = .ok true ↔
        Replayable p thread s ∧ (useSimulator = true → Simulable p thread s))) ∧
    ∀ log threadId useSimulator, replayThread p gates log threadId useSimulator = .ok true →
      ∃ lines found, log = some lines ∧ readEvents lines = .ok found ∧
        Trustworthy p (found.filter (hasThread threadId)) := by
  constructor
  · intro thread s useSimulator hreached
    have hinv := hreached.invariant hp
    rw [replayThread_ok_iff]
    constructor
    · rintro ⟨found, hfound, hchecked, hsimulated⟩
      rw [hinv.readEvents] at hfound
      cases hfound
      have hreplayable := (hinv.checked_iff hgates thread).mp hchecked
      exact ⟨hreplayable, fun huse => (hinv.simulationSucceeds_iff hreplayable).mp (hsimulated huse)⟩
    · rintro ⟨hreplayable, hsimulable⟩
      refine ⟨_, hinv.readEvents, (hinv.checked_iff hgates thread).mpr hreplayable, ?_⟩
      exact fun huse => (hinv.simulationSucceeds_iff hreplayable).mpr (hsimulable huse)
  · intro log threadId useSimulator h
    cases log with
    | none => cases h
    | some lines =>
      obtain ⟨found, hfound, hchecked, _⟩ := replayThread_ok_iff.mp h
      exact ⟨lines, found, rfl, hfound, hchecked.trustworthy⟩

section Sample

def publishSignature : List UInt8 :=
  [240, 64, 202, 190, 240, 93, 186, 84, 26, 244, 122, 64, 78, 56, 26, 39, 128, 9, 0, 181, 187, 23, 244, 57, 143, 117, 178, 208,
    98, 249, 152, 112, 6, 181, 72, 25, 3, 53, 229, 64, 51, 19, 56, 227, 200, 163, 228, 103, 75, 137, 168, 36, 62, 56, 101, 111,
    117, 206, 221, 71, 10, 59, 45, 12]

def deliverSignature : List UInt8 :=
  [148, 16, 9, 26, 222, 110, 39, 64, 87, 187, 90, 244, 144, 65, 170, 129, 95, 172, 218, 37, 242, 52, 235, 202, 129, 180, 80, 129,
    7, 238, 234, 172, 22, 26, 35, 96, 251, 94, 142, 211, 182, 228, 164, 139, 41, 78, 35, 194, 243, 171, 91, 55, 216, 156, 53, 33,
    59, 30, 164, 149, 112, 12, 93, 0]

/-- What is logged of the signed need. -/
def needEvent (kind : String) : LogEvent := ⟨1700000000000000000, "t", "thread.t.need", kind, signedNeed⟩

/-- The sample values with the hash of the signed need. -/
def hashedValues : Primitives :=
  { sampleValues with
    sha256Hex := fun text =>
      if text = cjson (.obj signedNeed) then "f734674c8a73269c12942a856e82b43765526604a69a665b5caa2634050f1718"
      else sampleValues.sha256Hex text }

/-- The signatures of the two records of the signed need, and of the need. -/
def auditSignature (key : List UInt8) (message : String) : List UInt8 :=
  if message = cjson (.obj ((needEvent "BUS.PUBLISH").record hashedValues)) then publishSignature
  else if message = cjson (.obj ((needEvent "BUS.DELIVER").record hashedValues)) then deliverSignature
  else if key = aliceKey then aliceSignature
  else mallorySignature

def auditValues : Primitives :=
  { hashedValues with
    sign := fun seed message => auditSignature (sampleValues.publicKey seed) message
    verify := fun key message signature => decide (signature = auditSignature key message) }

theorem auditSignature_length (key : List UInt8) (message : String) : (auditSignature key message).length = 64 := by
  unfold auditSignature
  split
  · rfl
  split
  · rfl
  split <;> rfl

theorem auditValues_verify : SignaturesVerify auditValues := by
  intro seed message _
  have hkey : (sampleValues.publicKey seed).length = 32 := by
    simp only [sampleValues]
    split <;> rfl
  have hsignature := auditSignature_length (sampleValues.publicKey seed) message
  simp [verifies, auditValues, hashedValues, hkey, hsignature]

theorem sortedStrings_wellFormed (l : List String) : Json.wellFormed (sortedStrings l) = true := by
  have hitems : ∀ l : List String, Json.wellFormedItems (l.map Json.str) = true := by
    intro l
    induction l with
    | nil => rfl
    | cons text rest ih => simp [Json.wellFormedItems, Json.wellFormed, ih]
  exact hitems _

theorem auditValues_sha256Hex {text : String} (h : text ≠ cjson (.obj signedNeed)) :
    auditValues.sha256Hex text = sampleValues.sha256Hex text := by
  simp only [auditValues, hashedValues, if_neg h]

theorem auditValues_contract : currentPolicyHash auditValues = contractHash := by
  have hcontract : Json.wellFormedFields [("allowed_kinds", sortedStrings allowedKinds),
      ("max_payload_bytes", .int maxPayloadBytes),
      ("required_fields", sortedStrings ["kind", "thread_id", "lamport", "payload", "policy_engine_hash"]),
      ("version", .str "legacy-v0-compat")] = true := by
    rw [Json.wellFormedFields_iff]
    simp [sortedStrings_wellFormed, Json.wellFormed]
  have hid : "id" ∈ signedNeed.map Prod.fst := by decide
  rw [currentPolicyHash, auditValues_sha256Hex (cjson_ne signedNeed_wellFormed hcontract hid (by simp)).symm]
  exact sampleValues_contract

theorem unsignedNeed_keys : ∀ key ∈ ["sig_b64", "sig_pk_b64", "metadata"], key ∉ unsignedNeed.map Prod.fst := by
  simp [unsignedNeed]

/-- The signature of the need is the one that was made. -/
theorem auditSignature_need : auditSignature aliceKey (cjson (.obj unsignedNeed)) = aliceSignature := by
  have hneed : Json.wellFormedFields unsignedNeed = true := by decide +kernel
  have hid : "id" ∈ unsignedNeed.map Prod.fst := by decide
  have hother : ∀ kind, cjson (.obj unsignedNeed) ≠ cjson (.obj ((needEvent kind).record hashedValues)) := by
    intro kind
    have hrecord : Json.wellFormedFields ((needEvent kind).record hashedValues) = true :=
      Json.wellFormedFields_iff.mpr ⟨(LogEvent.record_keys _).1, LogEvent.record_wellFormed signedNeed_wellFormed⟩
    exact cjson_ne hneed hrecord hid (by simp [LogEvent.record])
  rw [auditSignature, if_neg (hother _), if_neg (hother _), if_pos rfl]

theorem signedNeed_audited : Accepted auditValues signedNeed := by
  have hsample := signedNeed_accepted
  have hempty : hashPayload auditValues (.obj []) = emptyPayloadHash := by
    have hne : cjson (.obj []) ≠ cjson (.obj signedNeed) := (cjson_obj_ne_empty (List.cons_ne_nil _ _)).symm
    rw [hashPayload, auditValues_sha256Hex hne]
    rfl
  have hverifies : verifies auditValues aliceKey (cjson (.obj unsignedNeed)) aliceSignature = true := by
    simp only [verifies, auditValues, auditSignature_need, decide_true, Bool.and_true]
    rfl
  refine ⟨hsample.kind, hsample.size, ?_, hsample.lamport, ?_, sealed_verifies auditValues unsignedNeed_keys hverifies⟩
  · rw [hsample.policyHash, auditValues_contract, sampleValues_contract]
  · have hpayload : getOr signedNeed "payload" (.obj []) = .obj [] := rfl
    rw [hpayload, hempty]
    rfl

theorem needEvent_logged (kind : String) :
    ∃ line, logEvent auditValues (some (Base64.b64encode aliceSeed)) (needEvent kind) = some line := by
  have hne : Base64.b64encode aliceSeed ≠ "" := Base64.b64encode_ne_empty (by decide)
  have hsigned := signRecord_of_seed auditValues hne (Base64.b64decode_b64encode aliceSeed) (by decide)
    ((needEvent kind).record auditValues)
  exact ⟨_, by rw [logEvent, writeJsonl, hsigned]; rfl⟩

/-- The need is published and its publication is logged. -/
def publishedNeed (line : String) : BusRun := ⟨[⟨signedNeed, dumps signedNeed⟩], [], [⟨0, "t", signedNeed, line⟩]⟩

theorem publishedNeed_reached {line : String}
    (hline : logEvent auditValues (some (Base64.b64encode aliceSeed)) (needEvent "BUS.PUBLISH") = some line) :
    Reached auditValues (fun _ => true) "t" (publishedNeed line) := by
  have hsent : (publishEnvelope auditValues (fun _ => true) .missing signedNeed permissiveGates).1 =
      .ok (dumps signedNeed) := by
    rw [publishEnvelope, checkEnvelope, (validateEnvelope_iff auditValues).mpr signedNeed_audited]
    rfl
  have hpublish : BusStep auditValues (fun _ => true) "t" .start ⟨[⟨signedNeed, dumps signedNeed⟩], [0], []⟩ :=
    .publish signedNeed_wellFormed hsent rfl ⟨by simp [BusRun.start], by simp [BusRun.start]⟩
  have hlog : BusStep auditValues (fun _ => true) "t" ⟨[⟨signedNeed, dumps signedNeed⟩], [0], []⟩ (publishedNeed line) :=
    @BusStep.logPublish auditValues (fun _ => true) "t" _ 0 ⟨signedNeed, dumps signedNeed⟩ _ 1700000000000000000
      "thread.t.need" line List.mem_cons_self rfl hline
  exact (Relation.ReflTransGen.single hpublish).tail hlog

theorem permissiveGates_allowsAll : AllowsAll (some permissiveGates) := by
  intro g hg envelope
  cases hg
  rfl

/-- A need that is published and delivered to nobody is replayed with success. -/
theorem replayThread_honest_iff_published : ∃ line,
    logEvent auditValues (some (Base64.b64encode aliceSeed)) (needEvent "BUS.PUBLISH") = some line ∧
    replayThread auditValues (some permissiveGates) (some [line]) "t" true = .ok true ∧
    ∃ lines found, some [line] = some lines ∧ readEvents lines = .ok found ∧
      Trustworthy auditValues (found.filter (hasThread "t")) := by
  obtain ⟨line, hline⟩ := needEvent_logged "BUS.PUBLISH"
  have hreached := publishedNeed_reached hline
  have hunder : (publishedNeed line).under "t" = [⟨0, "t", signedNeed, line⟩] := by simp [BusRun.under, publishedNeed]
  have hkind : isKind "DECIDE" signedNeed = false := by decide
  have hreplayable : Replayable auditValues "t" (publishedNeed line) := by
    constructor
    · simp [hunder]
    · simp [hunder]
    · simp [hunder, signedNeed_audited]
    · simp [hunder, hkind]
    · simp [hunder]
  have hsimulable : Simulable auditValues "t" (publishedNeed line) := by
    constructor
    · exact fun he => absurd he (by decide)
    · intro r hr _
      have hloaded : (publishedNeed line).loaded "t" = [⟨0, "t", signedNeed, line⟩] := hunder
      rw [hloaded] at hr
      rw [List.mem_singleton.mp hr]
      exact ⟨none, rfl⟩
    · exact fun he => absurd he (by decide)
  have hthm := @replayThread_honest_iff auditValues (fun _ => true) (some permissiveGates) auditValues_verify
    permissiveGates_allowsAll
  have hok := (hthm.1 "t" _ true hreached).mpr ⟨hreplayable, fun _ => hsimulable⟩
  exact ⟨line, hline, hok, hthm.2 _ _ _ hok⟩

/-- The need is published, its publication is logged, and one subscriber of the same
thread takes it in: the log of this honest run is refused. -/
theorem replayThread_refuses_delivered : ∃ s : BusRun, Reached auditValues (fun _ => true) "t" s ∧
    AllowsAll (some permissiveGates) ∧ SignaturesVerify auditValues ∧ s.published.map Published.message = [signedNeed] ∧
    s.unlogged = [] ∧ s.log.map LogRecord.envelope = [signedNeed, signedNeed] ∧
    (∀ r ∈ s.log, r.threadId = "t") ∧
    replayThread auditValues (some permissiveGates) (some s.lines) "t" true = .ok false := by
  obtain ⟨line, hline⟩ := needEvent_logged "BUS.PUBLISH"
  obtain ⟨other, hother⟩ := needEvent_logged "BUS.DELIVER"
  have hdelivered : deliveredPayload (dumps signedNeed) = signedNeed := by
    rw [deliveredPayload, decodeEnvelope_dumps signedNeed_wellFormed]
    rfl
  have hdeliver : BusStep auditValues (fun _ => true) "t" (publishedNeed line)
      { publishedNeed line with log := [⟨0, "t", signedNeed, line⟩, ⟨0, "t", signedNeed, other⟩] } := by
    have hstep := @BusStep.deliver auditValues (fun _ => true) "t" (publishedNeed line) 0 ⟨signedNeed, dumps signedNeed⟩
      (some (Base64.b64encode aliceSeed)) 1700000000000000000 "t" "thread.t.need" other rfl
      (by rw [hdelivered]; exact hother)
    rw [hdelivered] at hstep
    exact hstep
  have hreached := (publishedNeed_reached hline).tail hdeliver
  refine ⟨_, hreached, permissiveGates_allowsAll, auditValues_verify, rfl, rfl, rfl, ?_, ?_⟩
  · simp
  · refine (Reached.invariant auditValues_verify hreached).replayThread_disordered true ?_
    simp [BusRun.under]

end Sample

end AgentNetwork.Tools
