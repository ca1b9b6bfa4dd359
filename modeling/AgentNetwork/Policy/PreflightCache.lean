import AgentNetwork.Policy.Gates

namespace AgentNetwork.Policy

open Relational GateEnforcer

section Cache

variable (isPrintable : Char → Bool)

/-- What `preflight_validate` answers to envelopes one after another. -/
def validateAll : GateEnforcer → List Dict → List Bool
  | _, [] => []
  | g, envelope :: rest =>
    (g.preflightValidate isPrintable envelope).1.allowed ::
      validateAll (g.preflightValidate isPrintable envelope).2 rest

variable (engine wasmRuntime : Engine)

def Transparent (envelopes : List Dict) : Prop :=
  validateAll isPrintable (.new engine wasmRuntime true) envelopes =
    validateAll isPrintable (.new engine wasmRuntime false) envelopes

/-- The engine's own answer; an exception is a denial. -/
def allowedBy (envelope : Dict) : Bool :=
  match engine (extractPolicyInput envelope .preflight) with
  | .ok result => result.allowed
  | .error _ => false

def Completes (envelope : Dict) : Prop := ∃ result, engine (extractPolicyInput envelope .preflight) = .ok result

/-- The later envelope may be answered with the decision of the earlier one. -/
def Interchangeable (earlier later : Dict) : Prop :=
  makeCacheKey isPrintable later = makeCacheKey isPrintable earlier → Completes engine earlier →
    allowedBy engine later = allowedBy engine earlier

/-- Every cached decision is the engine's answer to each of the envelopes it would serve. -/
def Serves (cache : Table String PolicyDecision) (envelopes : List Dict) : Prop :=
  ∀ envelope ∈ envelopes, ∀ decision, cache.get? (makeCacheKey isPrintable envelope) = some decision →
    allowedBy engine envelope = decision.allowed

theorem allowedBy_of_ok {envelope : Dict} {result : PolicyResult}
    (h : engine (extractPolicyInput envelope .preflight) = .ok result) : allowedBy engine envelope = result.allowed := by
  simp [allowedBy, h]

theorem allowedBy_of_error {envelope : Dict} {message : String}
    (h : engine (extractPolicyInput envelope .preflight) = .error message) : allowedBy engine envelope = false := by
  simp [allowedBy, h]

theorem validateAll_uncached {g : GateEnforcer} (hengine : g.opaEngine = engine) (hcache : g.enableCache = false)
    (envelopes : List Dict) : validateAll isPrintable g envelopes = envelopes.map (allowedBy engine) := by
  induction envelopes with
  | nil => rfl
  | cons envelope rest ih =>
    have hanswer : (g.preflightValidate isPrintable envelope).1.allowed = allowedBy engine envelope ∧
        (g.preflightValidate isPrintable envelope).2 = g := by
      cases hresult : engine (extractPolicyInput envelope .preflight) with
      | ok result => simp [preflightValidate, hcache, hengine, hresult, allowedBy_of_ok engine hresult, decisionOf]
      | error message =>
        simp [preflightValidate, hcache, hengine, hresult, allowedBy_of_error engine hresult, errorDecision]
    rw [validateAll, hanswer.1, hanswer.2, ih, List.map_cons]

theorem serves_cons {cache : Table String PolicyDecision} {envelope : Dict} {rest : List Dict} :
    Serves isPrintable engine cache (envelope :: rest) ↔
      (∀ decision, cache.get? (makeCacheKey isPrintable envelope) = some decision →
        allowedBy engine envelope = decision.allowed) ∧ Serves isPrintable engine cache rest :=
  List.forall_mem_cons

/-- A new entry serves the envelopes with its key, the old ones serve the others. -/
theorem serves_upsert {cache : Table String PolicyDecision} {envelope : Dict} {decision : PolicyDecision}
    (hmiss : cache.get? (makeCacheKey isPrintable envelope) = none) (rest : List Dict) :
    Serves isPrintable engine (cache.upsert (makeCacheKey isPrintable envelope) decision) rest ↔
      (∀ later ∈ rest, makeCacheKey isPrintable later = makeCacheKey isPrintable envelope →
        allowedBy engine later = decision.allowed) ∧ Serves isPrintable engine cache rest := by
  constructor
  · intro hs
    constructor
    · intro later hlater hkey
      exact hs later hlater decision (by rw [Table.get?_upsert, if_pos hkey])
    · intro later hlater other hget
      apply hs later hlater other
      rw [Table.get?_upsert, if_neg, hget]
      intro hkey
      rw [hkey, hmiss] at hget
      cases hget
  · rintro ⟨hnew, hs⟩ later hlater other hget
    rw [Table.get?_upsert] at hget
    split at hget
    next hkey =>
      rw [← Option.some.inj hget]
      exact hnew later hlater hkey
    next => exact hs later hlater other hget

/-- By induction on the envelopes, with whatever the cache holds when they begin. -/
theorem validateAll_cached_iff {g : GateEnforcer} (hengine : g.opaEngine = engine) (hcache : g.enableCache = true)
    (envelopes : List Dict) :
    validateAll isPrintable g envelopes = envelopes.map (allowedBy engine) ↔
      Serves isPrintable engine g.preflightCache envelopes ∧ envelopes.Pairwise (Interchangeable isPrintable engine) := by
  induction envelopes generalizing g with
  | nil => simp [validateAll, Serves]
  | cons envelope rest ih =>
    rw [validateAll, List.map_cons, List.cons.injEq, serves_cons, List.pairwise_cons]
    cases hget : g.preflightCache.get? (makeCacheKey isPrintable envelope) with
    | some decision =>
      have hhit : g.preflightValidate isPrintable envelope = (decision, g) := by
        simp [preflightValidate, hcache, hget]
      rw [hhit, ih hengine hcache]
      constructor
      · rintro ⟨hfirst, hserves, hpairs⟩
        refine ⟨⟨fun other hother => ?_, hserves⟩, fun later hlater hkey _ => ?_, hpairs⟩
        · rw [← Option.some.inj hother, hfirst]
        · rw [hserves later hlater decision (by rw [hkey, hget]), hfirst]
      · rintro ⟨⟨hfirst, hserves⟩, _, hpairs⟩
        exact ⟨(hfirst decision rfl).symm, hserves, hpairs⟩
    | none =>
      cases hresult : engine (extractPolicyInput envelope .preflight) with
      | error message =>
        have hmiss : g.preflightValidate isPrintable envelope = (errorDecision .preflight "Preflight" message, g) := by
          simp [preflightValidate, hcache, hget, hengine, hresult]
        have hnot : ¬Completes engine envelope := by
          rintro ⟨result, hok⟩
          rw [hresult] at hok
          cases hok
        rw [hmiss, ih hengine hcache, allowedBy_of_error engine hresult]
        constructor
        · rintro ⟨_, hserves, hpairs⟩
          exact ⟨⟨fun _ hother => absurd hother (Option.some_ne_none _).symm, hserves⟩,
            fun _ _ _ hcompletes => absurd hcompletes hnot, hpairs⟩
        · rintro ⟨⟨_, hserves⟩, _, hpairs⟩
          exact ⟨rfl, hserves, hpairs⟩
      | ok result =>
        obtain ⟨g', hmiss, hengine', hcache', hstored⟩ : ∃ g' : GateEnforcer,
            g.preflightValidate isPrintable envelope = (decisionOf .preflight 0 result, g') ∧ g'.opaEngine = engine ∧
            g'.enableCache = true ∧ g'.preflightCache =
              g.preflightCache.upsert (makeCacheKey isPrintable envelope) (decisionOf .preflight 0 result) := by
          simp [preflightValidate, hcache, hget, hengine, hresult]
        have hallowed := allowedBy_of_ok engine hresult
        rw [hmiss, ih hengine' hcache', hstored, serves_upsert isPrintable engine hget]
        constructor
        · rintro ⟨_, ⟨hnew, hserves⟩, hpairs⟩
          refine ⟨⟨fun _ hother => absurd hother (Option.some_ne_none _).symm, hserves⟩,
            fun later hlater hkey _ => ?_, hpairs⟩
          rw [hnew later hlater hkey, hallowed]
          rfl
        · rintro ⟨⟨_, hserves⟩, hlater, hpairs⟩
          refine ⟨hallowed.symm, ⟨fun later hmem hkey => ?_, hserves⟩, hpairs⟩
          rw [hlater later hmem hkey ⟨result, hresult⟩, hallowed]
          rfl

/-- The cache is transparent exactly where envelopes that share a key, of which
the earlier is evaluated, get the same answer from the engine. -/
theorem preflightCache_transparent_iff (envelopes : List Dict) :
    Transparent isPrintable engine wasmRuntime envelopes ↔
      envelopes.Pairwise (Interchangeable isPrintable engine) := by
  have hempty : Serves isPrintable engine (GateEnforcer.new engine wasmRuntime true).preflightCache envelopes := by
    intro envelope _ decision hget
    cases hget
  have hon : validateAll isPrintable (.new engine wasmRuntime true) envelopes = envelopes.map (allowedBy engine) ↔ _ :=
    validateAll_cached_iff isPrintable engine rfl rfl envelopes
  have hoff : validateAll isPrintable (.new engine wasmRuntime false) envelopes = envelopes.map (allowedBy engine) :=
    validateAll_uncached isPrintable engine rfl rfl envelopes
  rw [Transparent, hoff, hon]
  exact ⟨And.right, fun hpairs => ⟨hempty, hpairs⟩⟩

end Cache

/-- Allows one thread only. -/
def oneThreadEngine : Engine := fun input =>
  .ok { allowed := decide (getKey input "thread_id" = .str "t"), reasons := [], gasUsed := 0, policyVersion := "1.0.0" }

/-- Neither envelope has an operation or an agent: the second is answered with
the decision of the first. -/
theorem preflightCache_allows_denied_thread :
    ¬Transparent (fun _ => true) oneThreadEngine oneThreadEngine [signedNeed, [("thread_id", .str "u")]] := by
  rw [Transparent]
  decide +kernel

end AgentNetwork.Policy
