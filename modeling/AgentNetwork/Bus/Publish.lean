import AgentNetwork.Policy.Gates

/-! Publishing an envelope and taking one in, over the NATS bus. -/

namespace AgentNetwork.Bus

open Policy

/-- The span that is current while an envelope is published: whether it records,
what the propagator injects for it, and its identifier. -/
structure Span where
  recording : Bool
  carrier : Relational.Table String String
  traceId : String

/-- Tracing in a process: the library is missing, no tracer is set up, or there
is a current span. -/
inductive Tracing
  | missing
  | notInitialized
  | current (span : Span)

inductive PublishError
  | tracingNotInitialized
  | validation (error : ValidationError)
  | preflight (reason : Option String)
  | metadataNotADict
  deriving DecidableEq

def Span.context (span : Span) : Dict := span.carrier.entries.map fun e => (e.1, .str e.2)

/-- `propagate_context`. -/
def propagateContext (span : Span) (envelope : Dict) : Option Dict :=
  if span.recording then
    match getOr envelope "metadata" (.obj []) with
    | .obj metadata =>
      let metadata := Json.setField metadata "trace_context" (.obj span.context)
      let metadata := Json.setField metadata "trace_id" (.str span.traceId)
      some (Json.setField envelope "metadata" (.obj metadata))
    | _ => none
  else some envelope

def dumps (envelope : Dict) : String := (Json.obj envelope).write Json.defaultStyle

section Publish

variable (p : Primitives) (isPrintable : Char → Bool)

/-- The checks of `publish_envelope`, the same with and without tracing. -/
def checkEnvelope (envelope : Dict) (g : GateEnforcer) : Except PublishError Unit × GateEnforcer :=
  match validateEnvelope p envelope with
  | .error e => (.error (.validation e), g)
  | .ok _ =>
    let (decision, g) := g.preflightValidate isPrintable envelope
    if decision.allowed then (.ok (), g) else (.error (.preflight decision.reason), g)

/-- `publish_envelope`: the text that is sent, or what is raised. -/
def publishEnvelope (tracing : Tracing) (envelope : Dict) (g : GateEnforcer) : Except PublishError String × GateEnforcer :=
  match tracing with
  | .notInitialized => (.error .tracingNotInitialized, g)
  | .missing =>
    match checkEnvelope p isPrintable envelope g with
    | (.error e, g) => (.error e, g)
    | (.ok _, g) => (.ok (dumps envelope), g)
  | .current span =>
    match checkEnvelope p isPrintable envelope g with
    | (.error e, g) => (.error e, g)
    | (.ok _, g) =>
      match propagateContext span envelope with
      | none => (.error .metadataNotADict, g)
      | some envelope => (.ok (dumps envelope), g)

/-- `json.loads(msg.data.decode())`, where it gives a dictionary. -/
def decodeEnvelope (data : String) : Option Dict :=
  match Json.loads data with
  | some (.obj envelope) => some envelope
  | _ => none

/-- What the loop of `subscribe_envelopes` hands to the handler of one message:
nothing for one it drops. -/
def receiveEnvelope (data : String) (g : GateEnforcer) : Option Dict × GateEnforcer :=
  match decodeEnvelope data with
  | none => (none, g)
  | some envelope =>
    match validateEnvelope p envelope with
    | .error _ => (none, g)
    | .ok _ =>
      let (decision, g) := g.ingressValidate envelope
      if decision.allowed then (some envelope, g) else (none, g)

/-- An envelope that is sent is valid, and what is sent is it or what tracing makes of it. -/
theorem publishEnvelope_sent {tracing : Tracing} {envelope : Dict} {g : GateEnforcer} {data : String}
    (h : (publishEnvelope p isPrintable tracing envelope g).1 = .ok data) :
    Accepted p envelope ∧ (g.preflightValidate isPrintable envelope).1.allowed = true ∧
    ((tracing = .missing ∧ data = dumps envelope) ∨
      ∃ span traced, tracing = .current span ∧ propagateContext span envelope = some traced ∧ data = dumps traced) := by
  have hchecked : ∀ {g' : GateEnforcer}, checkEnvelope p isPrintable envelope g = (.ok (), g') →
      Accepted p envelope ∧ (g.preflightValidate isPrintable envelope).1.allowed = true := by
    intro g' hcheck
    unfold checkEnvelope at hcheck
    split at hcheck
    next => cases hcheck
    next hvalid =>
      dsimp only at hcheck
      split at hcheck
      next hallowed =>
        exact ⟨accepted_of_ok p hvalid, hallowed⟩
      next => cases hcheck
  unfold publishEnvelope at h
  split at h
  next => cases h
  next =>
    split at h
    next => cases h
    next g' hcheck =>
      obtain ⟨hvalid, hallowed⟩ := hchecked hcheck
      exact ⟨hvalid, hallowed, Or.inl ⟨rfl, (Except.ok.inj h).symm⟩⟩
  next span =>
    split at h
    next => cases h
    next g' hcheck =>
      obtain ⟨hvalid, hallowed⟩ := hchecked hcheck
      split at h
      next => cases h
      next traced htraced => exact ⟨hvalid, hallowed, Or.inr ⟨span, traced, rfl, htraced, (Except.ok.inj h).symm⟩⟩

end Publish

end AgentNetwork.Bus
