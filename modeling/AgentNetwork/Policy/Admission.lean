import AgentNetwork.Bus.Publish
import AgentNetwork.Library.Traces

namespace AgentNetwork.Policy

open Relational Transition Bus

def wrapperFields : List String := ["thread_id", "sender_pk_b64", "lamport", "operation", "payload"]

section Wrapper

variable (isPrintable : Char → Bool)

/-- `require_policy_validation`: what it raises, or the enforcer as the handler is called. -/
def requirePolicyValidation (envelope : Dict) (g : GateEnforcer) : Except String GateEnforcer :=
  let missing := wrapperFields.filter fun field => field ∉ envelope.map Prod.fst
  if missing ≠ [] then
    .error ("Envelope missing required fields: " ++ Python.str isPrintable (.arr (missing.map Json.str)))
  else
    let (decision, g) := g.ingressValidate envelope
    if decision.allowed then .ok g
    else
      .error ("Policy enforcement failed: " ++ decision.reason.getD "None" ++ ". Operation '" ++
        Python.str isPrintable (getKey envelope "operation") ++ "' is not allowed.")

end Wrapper

inductive GateCall
  | preflight (envelope : Dict)
  | ingress (envelope : Dict)
  | commitGate (envelope telemetry : Dict)
  | clearCache

namespace GateEnforcer

variable (isPrintable : Char → Bool)

def run (g : GateEnforcer) : GateCall → GateEnforcer
  | .preflight envelope => (g.preflightValidate isPrintable envelope).2
  | .ingress envelope => (g.ingressValidate envelope).2
  | .commitGate envelope telemetry => (g.commitGateValidate isPrintable envelope telemetry).2
  | .clearCache => g.clearCache

/-- An enforcer as it is after any calls since it was made. -/
def Reached (start : GateEnforcer) : GateEnforcer → Prop :=
  Visits (fun g call g' => g' = g.run isPrintable call) (fun _ _ => True) start

/-- `GateEnforcer()` with its default engines, the cache on or off. -/
def default (enableCache : Bool) : GateEnforcer :=
  .new (defaultOpaEngine isPrintable) (defaultWasmRuntime isPrintable) enableCache

/-- The enforcer has the default engines, and no permission in its cache. -/
structure Denying (g : GateEnforcer) : Prop where
  opaEngine : g.opaEngine = defaultOpaEngine isPrintable
  wasmRuntime : g.wasmRuntime = defaultWasmRuntime isPrintable
  cache : ∀ key decision, g.preflightCache.get? key = some decision → decision.allowed = false

theorem default_denying (enableCache : Bool) : (default isPrintable enableCache).Denying isPrintable := by
  refine ⟨rfl, rfl, ?_⟩
  intro key decision h
  cases h

theorem policyInput_kind (envelope : Dict) (gate : PolicyGate) (rest : Dict) (hrest : rest.lookup "kind" = none) :
    isAllowedKind allowedKinds (getKey (extractPolicyInput envelope gate ++ rest) "kind") = false := by
  have hnone : (extractPolicyInput envelope gate).lookup "kind" = none := rfl
  simp [getKey, getOr, List.lookup_append, hnone, hrest, isAllowedKind]

theorem opaEngine_denies (envelope : Dict) (gate : PolicyGate) {result : PolicyResult}
    (h : defaultOpaEngine isPrintable (extractPolicyInput envelope gate) = .ok result) : result.allowed = false := by
  have hkind := policyInput_kind envelope gate [] rfl
  rw [List.append_nil] at hkind
  exact baseEvaluate_denies isPrintable hkind h

theorem wasmRuntime_denies (envelope : Dict) (gate : PolicyGate) (rest : Dict) (hrest : rest.lookup "kind" = none)
    {result : PolicyResult}
    (h : defaultWasmRuntime isPrintable (extractPolicyInput envelope gate ++ rest) = .ok result) :
    result.allowed = false := by
  apply wasmEvaluate_denies _ h
  intro inner hinner
  exact baseEvaluate_denies isPrintable (policyInput_kind envelope gate rest hrest) hinner

theorem Denying.preflight {g : GateEnforcer} (hd : g.Denying isPrintable) (envelope : Dict) :
    (g.preflightValidate isPrintable envelope).1.allowed = false ∧
    (g.preflightValidate isPrintable envelope).2.Denying isPrintable := by
  unfold preflightValidate
  dsimp only
  split
  next decision hcached =>
    split at hcached
    next => exact ⟨hd.cache _ decision hcached, hd⟩
    next => cases hcached
  next =>
    split
    next => exact ⟨rfl, hd⟩
    next result hresult =>
      rw [hd.opaEngine] at hresult
      have hdenied := opaEngine_denies isPrintable envelope .preflight hresult
      split
      next =>
        refine ⟨hdenied, hd.opaEngine, hd.wasmRuntime, ?_⟩
        intro key decision hget
        rw [Table.get?_upsert] at hget
        split at hget
        next =>
          rw [← Option.some.inj hget]
          exact hdenied
        next => exact hd.cache key decision hget
      next => exact ⟨hdenied, hd⟩

theorem Denying.ingress {g : GateEnforcer} (hd : g.Denying isPrintable) (envelope : Dict) :
    (g.ingressValidate envelope).1.allowed = false ∧ (g.ingressValidate envelope).2.Denying isPrintable := by
  have hreset : GateEnforcer.Denying isPrintable { g with gasMeter := g.gasMeter.reset } :=
    ⟨hd.opaEngine, hd.wasmRuntime, hd.cache⟩
  unfold ingressValidate
  dsimp only
  split
  next => exact ⟨rfl, hreset⟩
  next result hresult =>
    rw [hd.wasmRuntime, ← List.append_nil (extractPolicyInput envelope .ingress)] at hresult
    exact ⟨wasmRuntime_denies isPrintable envelope .ingress [] rfl hresult, hreset⟩

theorem Denying.commitGate {g : GateEnforcer} (hd : g.Denying isPrintable) (envelope telemetry : Dict) :
    (g.commitGateValidate isPrintable envelope telemetry).1.allowed = false ∧
    (g.commitGateValidate isPrintable envelope telemetry).2.Denying isPrintable := by
  have hreset : GateEnforcer.Denying isPrintable { g with gasMeter := g.gasMeter.reset } :=
    ⟨hd.opaEngine, hd.wasmRuntime, hd.cache⟩
  unfold commitGateValidate
  dsimp only
  split
  next => exact ⟨rfl, hreset⟩
  next decision hchecked =>
    obtain ⟨result, hresult, hrest⟩ := Transactional.except_bind_ok.mp hchecked
    obtain ⟨violations, _, hdecision⟩ := Transactional.except_bind_ok.mp hrest
    rw [hd.wasmRuntime] at hresult
    have hdenied := wasmRuntime_denies isPrintable envelope .commitGate _ rfl hresult
    cases hdecision
    refine ⟨?_, hreset⟩
    unfold commitDecision
    cases violations with
    | none => exact hdenied
    | some text => rfl

theorem Denying.run {g : GateEnforcer} (hd : g.Denying isPrintable) (call : GateCall) :
    (g.run isPrintable call).Denying isPrintable := by
  cases call with
  | preflight envelope => exact (hd.preflight isPrintable envelope).2
  | ingress envelope => exact (hd.ingress isPrintable envelope).2
  | commitGate envelope telemetry => exact (hd.commitGate isPrintable envelope telemetry).2
  | clearCache =>
    refine ⟨hd.opaEngine, hd.wasmRuntime, ?_⟩
    intro key decision h
    cases h

theorem Reached.denying {enableCache : Bool} {g : GateEnforcer}
    (hrun : Reached isPrintable (default isPrintable enableCache) g) : g.Denying isPrintable := by
  apply Visits.invariant hrun (default_denying isPrintable enableCache)
  rintro g call _ hd _ rfl
  exact hd.run isPrintable call

theorem Denying.publishes_nothing (p : Primitives) {g : GateEnforcer} (hd : g.Denying isPrintable) (envelope : Dict)
    (tracing : Tracing) (data : String) : (publishEnvelope p isPrintable tracing envelope g).1 ≠ .ok data := by
  intro hsent
  have hallowed := (publishEnvelope_sent p isPrintable hsent).2.1
  rw [(hd.preflight isPrintable envelope).1] at hallowed
  cases hallowed

theorem Denying.handles_nothing {g : GateEnforcer} (hd : g.Denying isPrintable) (envelope : Dict) (g' : GateEnforcer) :
    requirePolicyValidation isPrintable envelope g ≠ .ok g' := by
  intro hhandled
  unfold requirePolicyValidation at hhandled
  dsimp only at hhandled
  split at hhandled
  next => cases hhandled
  next =>
    rw [(hd.ingress isPrintable envelope).1] at hhandled
    cases hhandled

end GateEnforcer

section Protocol

variable (p : Primitives) (isPrintable : Char → Bool)

/-- A message of the protocol: valid, and of a kind the policy engine knows. -/
def Legal (envelope : Dict) : Prop := Accepted p envelope ∧ isAllowedKind allowedKinds (getKey envelope "kind") = true

/-- Each actual resource is a number that is at most the claimed one. -/
def WithinClaims (envelope telemetry : Dict) : Prop :=
  ∃ payload claimed actual, asDict (getOr envelope "payload" (.obj [])) = .ok payload ∧
    asDict (getOr payload "resources" (.obj [])) = .ok claimed ∧
    asDict (getOr telemetry "resources" (.obj [])) = .ok actual ∧
    ∀ r ∈ resources, ∃ limit used, (claimed.lookup r.key).elim (some .posInf) Python.Number.ofJson? = some limit ∧
      Python.Number.ofJson? (getOr actual r.key (.int 0)) = some used ∧ used.le limit = true

/-- The gates, the publisher and the wrapped handlers admit an envelope if it is
legal, and the gates deny it if its kind is not known. -/
structure AdmitsProtocol (g : GateEnforcer) (envelope : Dict) : Prop where
  admits : Legal p envelope → (g.preflightValidate isPrintable envelope).1.allowed = true ∧
    (g.ingressValidate envelope).1.allowed = true ∧
    ∀ telemetry, WithinClaims envelope telemetry →
      (g.commitGateValidate isPrintable envelope telemetry).1.allowed = true
  denies : isAllowedKind allowedKinds (getKey envelope "kind") = false →
    (g.preflightValidate isPrintable envelope).1.allowed = false ∧ (g.ingressValidate envelope).1.allowed = false ∧
    ∀ telemetry, (g.commitGateValidate isPrintable envelope telemetry).1.allowed = false
  publishes : Legal p envelope → ∃ data, (publishEnvelope p isPrintable .missing envelope g).1 = .ok data
  handles : Legal p envelope → ∃ g', requirePolicyValidation isPrintable envelope g = .ok g'

/-- With the default engines every gate denies every envelope, so that the
protocol is admitted only where nothing is legal. -/
theorem admitsProtocol_iff {enableCache : Bool} {g : GateEnforcer}
    (hrun : GateEnforcer.Reached isPrintable (.default isPrintable enableCache) g) (envelope : Dict) :
    AdmitsProtocol p isPrintable g envelope ↔ ¬Legal p envelope := by
  have hd := hrun.denying
  constructor
  · intro hadmits hlegal
    have hallowed := (hadmits.admits hlegal).1
    rw [(hd.preflight isPrintable envelope).1] at hallowed
    cases hallowed
  · intro hnot
    refine ⟨fun h => absurd h hnot, fun _ => ?_, fun h => absurd h hnot, fun h => absurd h hnot⟩
    exact ⟨(hd.preflight isPrintable envelope).1, (hd.ingress isPrintable envelope).1,
      fun telemetry => (hd.commitGate isPrintable envelope telemetry).1⟩

end Protocol

theorem signedNeed_legal : Legal sampleValues signedNeed := by
  refine ⟨signedNeed_accepted, ?_⟩
  simp [getKey, getOr, signedNeed, needSignedWith, unsignedNeed, List.lookup_cons, isAllowedKind, allowedKinds]

theorem admitsProtocol_iff_signedNeed :
    ¬AdmitsProtocol sampleValues (fun _ => true) (.default (fun _ => true) true) signedNeed := fun h =>
  (admitsProtocol_iff sampleValues (fun _ => true) .start signedNeed).mp h signedNeed_legal

/-- A signed NEED that is valid is denied by the default gates, cannot be
published and reaches no wrapped handler. -/
theorem signedNeed_denied : Legal sampleValues signedNeed ∧
    ((GateEnforcer.default (fun _ => true) true).preflightValidate (fun _ => true) signedNeed).1.allowed = false ∧
    ((GateEnforcer.default (fun _ => true) true).ingressValidate signedNeed).1.allowed = false ∧
    ((GateEnforcer.default (fun _ => true) true).commitGateValidate (fun _ => true) signedNeed []).1.allowed = false ∧
    (∀ tracing data, (publishEnvelope sampleValues (fun _ => true) tracing signedNeed
      (.default (fun _ => true) true)).1 ≠ .ok data) ∧
    ∀ g', requirePolicyValidation (fun _ => true) signedNeed (.default (fun _ => true) true) ≠ .ok g' := by
  have hd := GateEnforcer.default_denying (fun _ => true) true
  exact ⟨signedNeed_legal, (hd.preflight _ signedNeed).1, (hd.ingress _ signedNeed).1, (hd.commitGate _ signedNeed []).1,
    hd.publishes_nothing _ sampleValues signedNeed, hd.handles_nothing _ signedNeed⟩

end AgentNetwork.Policy
