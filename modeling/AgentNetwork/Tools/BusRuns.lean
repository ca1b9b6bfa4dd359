import AgentNetwork.Tools.Replay
import Mathlib.Logic.Relation

/-! Runs of honest nodes that publish the envelopes of a thread and share one log. -/

namespace AgentNetwork.Tools

open Policy Bus Python

/-- What `publish_envelope` hands to `publish_raw`. -/
def sentMessage (tracing : Tracing) (envelope : Dict) : Option Dict :=
  match tracing with
  | .missing => some envelope
  | .notInitialized => none
  | .current span => propagateContext span envelope

/-- What the loop of `subscribe_envelopes` logs of a message. -/
def deliveredPayload (data : String) : Dict := (decodeEnvelope data).getD [("_raw", .str data)]

/-- The need a decision names. -/
def namedNeed (envelope : Dict) : Option Json :=
  if isKind "DECIDE" envelope then
    match getOr envelope "payload" (.obj []) with
    | .obj payload => payload.lookup "need_id"
    | _ => none
  else none

/-- A published message: the dictionary and the text that is sent. -/
structure Published where
  message : Dict
  data : String

/-- A line of the log, with what it is the record of: the message at a position. -/
structure LogRecord where
  position : Nat
  threadId : String
  envelope : Dict
  line : String

/-- The messages published so far, those whose publication is still to be logged,
and the log. -/
structure BusRun where
  published : List Published
  unlogged : List Nat
  log : List LogRecord

namespace BusRun

def start : BusRun := ⟨[], [], []⟩

def lines (s : BusRun) : List String := s.log.map LogRecord.line

/-- The records under a thread identifier. -/
def under (s : BusRun) (threadId : String) : List LogRecord := s.log.filter fun r => decide (r.threadId = threadId)

/-- The records whose envelopes the simulator loads for a thread identifier. -/
def loaded (s : BusRun) (threadId : String) : List LogRecord := if threadId = "" then s.log else s.under threadId

theorem mem_log {s : BusRun} {threadId : String} {r : LogRecord} (hr : r ∈ s.under threadId) : r ∈ s.log :=
  (List.mem_filter.mp hr).1

end BusRun

section Steps

variable (p : Primitives) (isPrintable : Char → Bool) (thread : String)

/-- The messages go on: the clock is above all earlier ones and a decision is the
first for the need it names. -/
structure Continues (published : List Published) (message : Dict) : Prop where
  clock : ∀ m ∈ published, clock m.message < clock message
  need : ∀ m ∈ published, ∀ a b, namedNeed m.message = some a → namedNeed message = some b → sameKey a b = false

/-- A node publishes an envelope of the thread, the publication is logged, or a
subscriber takes in a message and logs it under the thread identifier it was given. -/
inductive BusStep : BusRun → BusRun → Prop
  | publish {s : BusRun} {tracing : Tracing} {g : GateEnforcer} {envelope message : Dict} {data : String} :
    Json.wellFormedFields envelope = true → (publishEnvelope p isPrintable tracing envelope g).1 = .ok data →
    sentMessage tracing envelope = some message → Continues s.published message →
    BusStep s { s with published := s.published ++ [⟨message, data⟩], unlogged := s.unlogged ++ [s.published.length] }
  | logPublish {s : BusRun} {i : Nat} {m : Published} {skB64 : Option String} {tsNs : Int} {subject line : String} :
    i ∈ s.unlogged → s.published[i]? = some m →
    logEvent p skB64 ⟨tsNs, thread, subject, "BUS.PUBLISH", m.message⟩ = some line →
    BusStep s { s with unlogged := s.unlogged.erase i, log := s.log ++ [⟨i, thread, m.message, line⟩] }
  | deliver {s : BusRun} {i : Nat} {m : Published} {skB64 : Option String} {tsNs : Int}
    {threadId subject line : String} :
    s.published[i]? = some m →
    logEvent p skB64 ⟨tsNs, threadId, subject, "BUS.DELIVER", deliveredPayload m.data⟩ = some line →
    BusStep s { s with log := s.log ++ [⟨i, threadId, deliveredPayload m.data, line⟩] }

/-- The runs from an empty bus and an empty log. -/
def Reached (s : BusRun) : Prop := Relation.ReflTransGen (BusStep p isPrintable thread) .start s

end Steps

/-- What every published message is. -/
structure Sound (m : Published) : Prop where
  wellFormed : Json.wellFormedFields m.message = true
  data : m.data = dumps m.message
  lamport : isPositiveInt (getKey m.message "lamport") = true
  kind : isAllowedKind (allowedKinds ++ legacyAllowedKinds) (getKey m.message "kind") = true

/-- What holds in every run: sound messages in the order of their clocks, one
decision for each need, and a log of their records. -/
structure RunInvariant (p : Primitives) (s : BusRun) : Prop where
  sound : ∀ m ∈ s.published, Sound m
  clocks : s.published.Pairwise fun a b => clock a.message < clock b.message
  needs : s.published.Pairwise fun a b =>
    ∀ m n, namedNeed a.message = some m → namedNeed b.message = some n → sameKey m n = false
  record : ∀ r ∈ s.log, ∃ m, s.published[r.position]? = some m ∧ m.message = r.envelope
  reads : ∀ r ∈ s.log, ∃ event, ReadsAs p r.line r.threadId r.envelope event

section Invariant

variable {p : Primitives} {isPrintable : Char → Bool} {thread : String} {s s' : BusRun}

theorem getKey_congr {a b : Dict} {key : String} (h : a.lookup key = b.lookup key) : getKey a key = getKey b key := by
  rw [getKey, getKey, getOr, getOr, h]

/-- A published message is sound. -/
theorem sound_of_published {tracing : Tracing} {g : GateEnforcer} {envelope message : Dict} {data : String}
    (hwell : Json.wellFormedFields envelope = true) (hsent : (publishEnvelope p isPrintable tracing envelope g).1 = .ok data)
    (hmessage : sentMessage tracing envelope = some message) : Sound ⟨message, data⟩ := by
  obtain ⟨haccepted, _, hdata⟩ := publishEnvelope_sent p isPrintable hsent
  rcases hdata with ⟨rfl, rfl⟩ | ⟨span, traced, rfl, htraced, rfl⟩
  · cases hmessage
    exact ⟨hwell, rfl, haccepted.lamport, haccepted.kind⟩
  · rw [sentMessage, htraced] at hmessage
    cases hmessage
    have hlamport := getKey_congr (propagateContext_lookup htraced (by decide : "lamport" ≠ "metadata"))
    have hkind := getKey_congr (propagateContext_lookup htraced (by decide : "kind" ≠ "metadata"))
    refine ⟨propagateContext_wellFormed hwell htraced, rfl, ?_, ?_⟩
    · rw [hlamport]
      exact haccepted.lamport
    · rw [hkind]
      exact haccepted.kind

theorem Sound.delivered {m : Published} (h : Sound m) : deliveredPayload m.data = m.message := by
  rw [deliveredPayload, h.data, decodeEnvelope_dumps h.wellFormed]
  rfl

theorem RunInvariant.start : RunInvariant p .start := ⟨nofun, List.Pairwise.nil, List.Pairwise.nil, nofun, nofun⟩

theorem RunInvariant.log (hinv : RunInvariant p s) {i : Nat} {m : Published} {threadId line : String} {event : Dict}
    (unlogged : List Nat) (hm : s.published[i]? = some m) (hreads : ReadsAs p line threadId m.message event) :
    RunInvariant p { s with unlogged := unlogged, log := s.log ++ [⟨i, threadId, m.message, line⟩] } := by
  refine ⟨hinv.sound, hinv.clocks, hinv.needs, ?_, ?_⟩
  · intro r hr
    rcases List.mem_append.mp hr with hr | hr
    · exact hinv.record r hr
    · rw [List.mem_singleton.mp hr]
      exact ⟨m, hm, rfl⟩
  · intro r hr
    rcases List.mem_append.mp hr with hr | hr
    · exact hinv.reads r hr
    · rw [List.mem_singleton.mp hr]
      exact ⟨event, hreads⟩

theorem RunInvariant.step (hp : SignaturesVerify p) (hinv : RunInvariant p s) (h : BusStep p isPrintable thread s s') :
    RunInvariant p s' := by
  cases h with
  | publish hwell hsent hmessage hnext =>
    have hsound := sound_of_published hwell hsent hmessage
    refine ⟨?_, ?_, ?_, ?_, hinv.reads⟩
    · intro m hm
      rcases List.mem_append.mp hm with hm | hm
      · exact hinv.sound m hm
      · rw [List.mem_singleton.mp hm]
        exact hsound
    · refine List.pairwise_append.mpr ⟨hinv.clocks, List.pairwise_singleton _ _, ?_⟩
      intro m hm new hnew
      rw [List.mem_singleton.mp hnew]
      exact hnext.clock m hm
    · refine List.pairwise_append.mpr ⟨hinv.needs, List.pairwise_singleton _ _, ?_⟩
      intro m hm new hnew
      rw [List.mem_singleton.mp hnew]
      exact hnext.need m hm
    · intro r hr
      obtain ⟨m, hm, he⟩ := hinv.record r hr
      exact ⟨m, List.getElem?_append_left (List.getElem?_eq_some_iff.mp hm).1 ▸ hm, he⟩
  | logPublish _ hm hline =>
    have hwell := (hinv.sound _ (List.mem_of_getElem? hm)).wellFormed
    obtain ⟨event, hreads⟩ := logEvent_readsAs hp hwell hline
    exact hinv.log _ hm hreads
  | deliver hm hline =>
    have hsound := hinv.sound _ (List.mem_of_getElem? hm)
    rw [hsound.delivered] at hline ⊢
    obtain ⟨event, hreads⟩ := logEvent_readsAs hp hsound.wellFormed hline
    exact hinv.log _ hm hreads

theorem Reached.invariant (hp : SignaturesVerify p) (h : Reached p isPrintable thread s) : RunInvariant p s := by
  induction h with
  | refl => exact RunInvariant.start
  | tail _ hstep ih => exact ih.step hp hstep

/-- The clocks of two messages stand as their positions do. -/
theorem RunInvariant.clock_lt_iff (hinv : RunInvariant p s) {i j : Nat} {a b : Published} (ha : s.published[i]? = some a)
    (hb : s.published[j]? = some b) : clock a.message < clock b.message ↔ i < j := by
  have hordered : ∀ {i j : Nat} {a b : Published}, s.published[i]? = some a → s.published[j]? = some b → i < j →
      clock a.message < clock b.message := by
    intro i j a b ha hb hij
    obtain ⟨hi, rfl⟩ := List.getElem?_eq_some_iff.mp ha
    obtain ⟨hj, rfl⟩ := List.getElem?_eq_some_iff.mp hb
    exact List.pairwise_iff_getElem.mp hinv.clocks i j hi hj hij
  constructor
  · intro hlt
    rcases Nat.lt_trichotomy i j with hij | rfl | hji
    · exact hij
    · rw [ha] at hb
      cases hb
      exact absurd hlt (Int.lt_irrefl _)
    · have hgt := hordered hb ha hji
      omega
  · exact hordered ha hb

end Invariant

end AgentNetwork.Tools
