import AgentNetwork.Policy.Engine
import AgentNetwork.Library.Table

namespace AgentNetwork.Policy

open Relational

inductive PolicyGate
  | preflight
  | ingress
  | commitGate
  deriving DecidableEq

def PolicyGate.value : PolicyGate → String
  | .preflight => "preflight"
  | .ingress => "ingress"
  | .commitGate => "commit_gate"

structure PolicyDecision where
  allowed : Bool
  gate : PolicyGate
  reason : Option String
  gasUsed : Nat
  policyHash : Option String
  deriving DecidableEq

structure GateEnforcer where
  opaEngine : Engine
  wasmRuntime : Engine
  gasMeter : GasMeter
  enableCache : Bool
  preflightCache : Table String PolicyDecision

/-- `_extract_policy_input`. -/
def extractPolicyInput (envelope : Dict) (gate : PolicyGate) : Dict :=
  [("gate", .str gate.value),
    ("operation", getKey envelope "operation"),
    ("agent_id", getKey envelope "agent_id"),
    ("thread_id", getKey envelope "thread_id"),
    ("payload", getOr envelope "payload" (.obj [])),
    ("lamport", getOr envelope "lamport" (.int 0)),
    ("signature", getKey envelope "signature"),
    ("timestamp", getKey envelope "timestamp")]

/-- `x.get` of a value that need not be a dictionary. -/
def asDict : Json → Except String Dict
  | .obj fields => .ok fields
  | value => .error ("'" ++ Python.typeName value ++ "' object has no attribute 'get'")

/-- What `value * 1.1` raises. -/
def cannotMultiply (value : Json) : String :=
  match value with
  | .str _ | .arr _ => "can't multiply sequence by non-int of type 'float'"
  | _ => "unsupported operand type(s) for *: '" ++ Python.typeName value ++ "' and 'float'"

def marginFactor : ℚ := Double.nearest (11 / 10)

/-- `actual > claimed * 1.1`; a claim that is not there is infinite. -/
def exceedsMargin (claimed : Option Json) (actual : Json) : Except String Bool := do
  let limit ← match claimed with
    | none => .ok Python.Number.posInf
    | some value =>
      match Python.Number.ofJson? value with
      | some number => .ok number
      | none => .error (cannotMultiply value)
  match Python.Number.ofJson? actual with
  | some number => .ok ((limit.times marginFactor).lt number)
  | none => .error ("'>' not supported between instances of '" ++ Python.typeName actual ++ "' and 'float'")

/-- One of the three resources: its key, what its excess is called and its unit. -/
structure Resource where
  key : String
  label : String
  unit : String

def resources : List Resource :=
  [⟨"cpu_ms", "CPU", "ms"⟩, ⟨"memory_mb", "Memory", "MB"⟩, ⟨"gas", "Gas", ""⟩]

section Gates

variable (isPrintable : Char → Bool)

def violationOf (claimed actual : Dict) (r : Resource) : Except String (Option String) := do
  let claimedValue := claimed.lookup r.key
  let actualValue := getOr actual r.key (.int 0)
  if ← exceedsMargin claimedValue actualValue then
    .ok (some (r.label ++ " exceeded: claimed " ++ ((claimedValue.map (Python.str isPrintable)).getD "inf") ++ r.unit ++
      ", actual " ++ Python.str isPrintable actualValue ++ r.unit))
  else .ok none

/-- `_check_resource_violations`. -/
def checkResourceViolations (envelope telemetry : Dict) : Except String (Option String) := do
  let payload ← asDict (getOr envelope "payload" (.obj []))
  let claimedResources ← asDict (getOr payload "resources" (.obj []))
  let actualResources ← asDict (getOr telemetry "resources" (.obj []))
  let violations ← resources.mapM (violationOf isPrintable claimedResources actualResources)
  let found := violations.filterMap id
  .ok (if found = [] then none else some ("; ".intercalate found))

namespace GateEnforcer

/-- `GateEnforcer(opa_engine, wasm_runtime, enable_cache=...)`. -/
def new (opaEngine wasmRuntime : Engine) (enableCache : Bool) : GateEnforcer :=
  ⟨opaEngine, wasmRuntime, .new defaultGasLimit, enableCache, .empty⟩

/-- `_make_cache_key`. -/
def makeCacheKey (envelope : Dict) : String :=
  Python.str isPrintable (getOr envelope "operation" (.str "unknown")) ++ ":" ++
    Python.str isPrintable (getOr envelope "agent_id" (.str "unknown"))

def errorDecision (gate : PolicyGate) (text message : String) : PolicyDecision :=
  { allowed := false, gate := gate, reason := some (text ++ " error: " ++ message), gasUsed := 0, policyHash := none }

def decisionOf (gate : PolicyGate) (gasUsed : Nat) (result : PolicyResult) : PolicyDecision :=
  { allowed := result.allowed, gate := gate, reason := result.reasons.head?, gasUsed := gasUsed,
    policyHash := some result.policyVersion }

def preflightValidate (envelope : Dict) (g : GateEnforcer) : PolicyDecision × GateEnforcer :=
  let cacheKey := makeCacheKey isPrintable envelope
  match if g.enableCache then g.preflightCache.get? cacheKey else none with
  | some decision => (decision, g)
  | none =>
    match g.opaEngine (extractPolicyInput envelope .preflight) with
    | .error message => (errorDecision .preflight "Preflight" message, g)
    | .ok result =>
      let decision := decisionOf .preflight 0 result
      if g.enableCache then (decision, { g with preflightCache := g.preflightCache.upsert cacheKey decision })
      else (decision, g)

/-- `ingress_validate`: the gas meter it resets and reads is its own, not the one
the runtime spends. -/
def ingressValidate (envelope : Dict) (g : GateEnforcer) : PolicyDecision × GateEnforcer :=
  let g := { g with gasMeter := g.gasMeter.reset }
  match g.wasmRuntime (extractPolicyInput envelope .ingress) with
  | .error message => (errorDecision .ingress "Ingress" message, g)
  | .ok result => (decisionOf .ingress g.gasMeter.used result, g)

def commitDecision (gasUsed : Nat) (result : PolicyResult) (violations : Option String) : PolicyDecision :=
  let decision := decisionOf .commitGate gasUsed result
  match violations with
  | none => decision
  | some text =>
    let reason :=
      match decision.reason.filter (· ≠ "") with
      | some r => r ++ "; Violations: " ++ text
      | none => "Violations: " ++ text
    { decision with allowed := false, reason := some reason }

def commitGateValidate (envelope telemetry : Dict) (g : GateEnforcer) : PolicyDecision × GateEnforcer :=
  let policyInput := extractPolicyInput envelope .commitGate ++ [("telemetry", .obj telemetry)]
  let g := { g with gasMeter := g.gasMeter.reset }
  let checked : Except String PolicyDecision := do
    let result ← g.wasmRuntime policyInput
    let violations ← checkResourceViolations isPrintable envelope telemetry
    .ok (commitDecision g.gasMeter.used result violations)
  match checked with
  | .error message => (errorDecision .commitGate "Commit gate" message, g)
  | .ok decision => (decision, g)

def clearCache (g : GateEnforcer) : GateEnforcer := { g with preflightCache := .empty }

end GateEnforcer

end Gates

end AgentNetwork.Policy
