import AgentNetwork.Library.Traces
import AgentNetwork.Routing.Bandit
import AgentNetwork.Routing.Shortlist

namespace AgentNetwork.Routing

open Relational Python Transition
open AgentNetwork.Policy (Dict getOr)

/-- The parts of the pipeline that read a need and may raise. -/
structure Readers where
  createMicroTask : Dict → Except Exn Unit
  extractContext : Dict → Except Exn (List ℚ)

structure RouterConfig where
  filter : CapabilityFilter
  minQuality : ℚ
  minQualityThreshold : ℚ
  enableCanary : Bool
  enableBandit : Bool
  readers : Readers

inductive RoutingMethod
  | filter
  | score
  | canary
  | bandit
  | error
  deriving DecidableEq

structure RoutingMetrics where
  needId : Json
  selectedAgent : Option String
  routingMethod : RoutingMethod
  success : Bool
  fallbackUsed : Bool
  deriving DecidableEq

structure OutcomeRecord where
  needId : String
  agentId : String
  actualReward : ℚ
  deriving DecidableEq

structure IntelligentRouter where
  registry : ManifestRegistry
  bandit : ContextualBandit
  routingHistory : List RoutingMetrics
  outcomeHistory : List OutcomeRecord

/-- A need with all that `route_need` does not decide: the scores, how each agent does
in its canary test, and the samples of the bandit. -/
structure RouteCall where
  need : Dict
  score : AgentManifest → Except Exn ℚ
  trials : String → Trial
  samples : Samples

structure OutcomeCall where
  needId : String
  need : Dict
  agentId : String
  reward : Except Exn ℚ

section Stages

variable (config : RouterConfig) (call : RouteCall)

def agentIds (scored : List ScoredAgent) : List String := scored.map fun s => s.manifest.agentId

/-- The winner of the canary tests, where they run and there is one. -/
def canaryWinner (scored : List ScoredAgent) : Except Exn (Option String) :=
  if config.enableCanary ∧ 2 ≤ scored.length then do
    config.readers.createMicroTask call.need
    let results := runCanaries config.minQuality call.trials (agentIds (scored.take 3))
    .ok ((selectWinner config.minQualityThreshold results).filter (· ≠ ""))
  else .ok none

/-- What is selected, how, and the bandit afterwards. -/
def selectAgent (registry : ManifestRegistry) (bandit : ContextualBandit) :
    Except Exn (Option String × RoutingMethod × ContextualBandit) := do
  let qualified ← config.filter.filterAll call.need registry.getAll
  if qualified.isEmpty then .ok (none, .filter, bandit)
  else
    let scored ← AgentScorer.scoreAndSelect call.score qualified (min 10 qualified.length)
    match scored with
    | [] => .ok (none, .score, bandit)
    | best :: others =>
      match ← canaryWinner config call (best :: others) with
      | some winner =>
        if config.enableBandit then
          let _ ← config.readers.extractContext call.need
          .ok (some winner, .bandit, bandit.addArm winner)
        else .ok (some winner, .canary, bandit)
      | none =>
        if config.enableBandit then
          let _ ← config.readers.extractContext call.need
          let bandit := bandit.addArms (agentIds (best :: others))
          match (bandit.thompsonSampling call.samples).filter (· ≠ "") with
          | some selected => .ok (some selected, .bandit, bandit)
          | none => .ok (some best.manifest.agentId, .score, bandit)
        else .ok (some best.manifest.agentId, .score, bandit)

end Stages

namespace IntelligentRouter

variable (config : RouterConfig)

def routeNeed (call : RouteCall) (r : IntelligentRouter) : Option String × IntelligentRouter :=
  let needId := getOr call.need "need_id" (.str "unknown")
  match selectAgent config call r.registry r.bandit with
  | .ok (selected, method, bandit) =>
    (selected, { r with
      bandit := bandit
      routingHistory := r.routingHistory ++ [⟨needId, selected, method, selected.isSome, selected.isNone⟩] })
  | .error _ => (none, { r with routingHistory := r.routingHistory ++ [⟨needId, none, .error, false, true⟩] })

def recordOutcome (call : OutcomeCall) (r : IntelligentRouter) : Except Exn Unit × IntelligentRouter :=
  match call.reward, config.readers.extractContext call.need with
  | .ok reward, .ok features =>
    (.ok (), { r with
      bandit := if config.enableBandit then r.bandit.update call.agentId reward features else r.bandit
      outcomeHistory := r.outcomeHistory ++ [⟨call.needId, call.agentId, reward⟩] })
  | .error e, _ => (.error e, r)
  | .ok _, .error e => (.error e, r)

end IntelligentRouter

/-- What happens to a router. -/
inductive RouterCall
  | register (manifest : AgentManifest)
  | unregister (agentId : String)
  | routeNeed (call : RouteCall)
  | recordOutcome (call : OutcomeCall)

def IntelligentRouter.run (config : RouterConfig) (r : IntelligentRouter) : RouterCall → IntelligentRouter
  | .register manifest => { r with registry := r.registry.register manifest }
  | .unregister agentId => { r with registry := r.registry.unregister agentId }
  | .routeNeed call => (r.routeNeed config call).2
  | .recordOutcome call => (r.recordOutcome config call).2

/-- The agent is registered and passes all filters for the need. -/
def Qualified (config : RouterConfig) (need : Dict) (r : IntelligentRouter) (agentId : String) : Prop :=
  r.registry.registered agentId = true ∧
    ∃ qualified, config.filter.filterAll need r.registry.getAll = .ok qualified ∧ agentId ∈ qualified.map AgentManifest.agentId

/-- Whatever the bandit samples, the call gives nothing or an agent that qualifies. -/
def RoutesQualified (config : RouterConfig) (r : IntelligentRouter) : RouterCall → Prop
  | .routeNeed call => ∀ samples agentId,
    (r.routeNeed config { call with samples := samples }).1 = some agentId → Qualified config call.need r agentId
  | _ => True

/-- The call comes to the draw of the bandit. -/
def ReachesBandit (config : RouterConfig) (call : RouteCall) (registry : ManifestRegistry) : Prop :=
  config.enableBandit = true ∧ (∃ features, config.readers.extractContext call.need = .ok features) ∧
    ∃ qualified scored, config.filter.filterAll call.need registry.getAll = .ok qualified ∧ qualified ≠ [] ∧
      AgentScorer.scoreAndSelect call.score qualified (min 10 qualified.length) = .ok scored ∧
      canaryWinner config call scored = .ok none

/-- Every arm that the bandit has when it draws qualifies for the need. -/
def ArmsQualify (config : RouterConfig) (r : IntelligentRouter) : RouterCall → Prop
  | .routeNeed call => ReachesBandit config call r.registry →
    ∀ armId ∈ r.bandit.arms.keys, armId ≠ "" → Qualified config call.need r armId
  | _ => True

section Exits

variable {config : RouterConfig} {call : RouteCall} {registry : ManifestRegistry} {bandit bandit' : ContextualBandit}
  {qualified : List AgentManifest} {scored : List ScoredAgent} {agentId : String} {method : RoutingMethod}

theorem mem_of_canaryWinner (h : canaryWinner config call scored = .ok (some agentId)) : agentId ∈ agentIds scored := by
  unfold canaryWinner at h
  split at h
  · obtain ⟨_, _, hwinner⟩ := Transactional.except_bind_ok.mp h
    have hselected := (Option.filter_eq_some_iff.mp (Except.ok.inj hwinner)).1
    have hmem := mem_of_selectWinner hselected
    rw [agentIds, List.map_take] at hmem
    exact List.mem_of_mem_take hmem
  · cases h

/-- The exits of the pipeline that give an agent: the winner of the canary tests, the
draw of the bandit, the best score. -/
theorem selectAgent_some (h : selectAgent config call registry bandit = .ok (some agentId, method, bandit')) :
    ∃ qualified scored, config.filter.filterAll call.need registry.getAll = .ok qualified ∧ qualified ≠ [] ∧
      AgentScorer.scoreAndSelect call.score qualified (min 10 qualified.length) = .ok scored ∧
      (agentId ∈ agentIds scored ∨
        (config.enableBandit = true ∧ (∃ features, config.readers.extractContext call.need = .ok features) ∧
          canaryWinner config call scored = .ok none ∧
          (bandit.addArms (agentIds scored)).thompsonSampling call.samples = some agentId ∧ agentId ≠ "")) := by
  obtain ⟨qualified, hqualified, hrest⟩ := Transactional.except_bind_ok.mp h
  split at hrest
  next => cases hrest
  next hsome =>
    obtain ⟨scored, hscored, hrest⟩ := Transactional.except_bind_ok.mp hrest
    refine ⟨qualified, scored, hqualified, by simpa using hsome, hscored, ?_⟩
    cases scored with
    | nil => cases hrest
    | cons best others =>
      obtain ⟨winner, hwinner, hrest⟩ := Transactional.except_bind_ok.mp hrest
      have hbest : best.manifest.agentId ∈ agentIds (best :: others) := List.mem_cons_self
      cases winner with
      | some winner =>
        have hmem := mem_of_canaryWinner hwinner
        dsimp only at hrest
        split at hrest
        next =>
          obtain ⟨_, _, hresult⟩ := Transactional.except_bind_ok.mp hrest
          cases hresult
          exact .inl hmem
        next =>
          cases hrest
          exact .inl hmem
      | none =>
        dsimp only at hrest
        split at hrest
        next henabled =>
          obtain ⟨features, hfeatures, hresult⟩ := Transactional.except_bind_ok.mp hrest
          split at hresult
          next selected hselected =>
            cases hresult
            obtain ⟨hdraw, hne⟩ := Option.filter_eq_some_iff.mp hselected
            exact .inr ⟨henabled, ⟨features, hfeatures⟩, hwinner, hdraw, by simpa using hne⟩
          next =>
            cases hresult
            exact .inl hbest
        next =>
          cases hrest
          exact .inl hbest

/-- A call adds arms and takes none out. -/
theorem selectAgent_arms {selected : Option String} (h : selectAgent config call registry bandit = .ok (selected, method, bandit')) :
    ∃ armIds, bandit' = bandit.addArms armIds := by
  obtain ⟨qualified, _, hrest⟩ := Transactional.except_bind_ok.mp h
  split at hrest
  next =>
    cases hrest
    exact ⟨[], rfl⟩
  next =>
    obtain ⟨scored, _, hrest⟩ := Transactional.except_bind_ok.mp hrest
    cases scored with
    | nil =>
      cases hrest
      exact ⟨[], rfl⟩
    | cons best others =>
      obtain ⟨winner, _, hrest⟩ := Transactional.except_bind_ok.mp hrest
      cases winner with
      | some winner =>
        dsimp only at hrest
        split at hrest
        next =>
          obtain ⟨_, _, hresult⟩ := Transactional.except_bind_ok.mp hrest
          cases hresult
          exact ⟨[winner], rfl⟩
        next =>
          cases hrest
          exact ⟨[], rfl⟩
      | none =>
        dsimp only at hrest
        split at hrest
        next =>
          obtain ⟨_, _, hresult⟩ := Transactional.except_bind_ok.mp hrest
          split at hresult
          next =>
            cases hresult
            exact ⟨agentIds (best :: others), rfl⟩
          next =>
            cases hresult
            exact ⟨agentIds (best :: others), rfl⟩
        next =>
          cases hrest
          exact ⟨[], rfl⟩

/-- Where the bandit draws an arm with an id, that arm is selected. -/
theorem selectAgent_drawn (hqualified : config.filter.filterAll call.need registry.getAll = .ok qualified)
    (hsome : qualified ≠ []) (hscored : AgentScorer.scoreAndSelect call.score qualified (min 10 qualified.length) = .ok scored)
    (henabled : config.enableBandit = true) {features : List ℚ} (hfeatures : config.readers.extractContext call.need = .ok features)
    (hwinner : canaryWinner config call scored = .ok none)
    (hdraw : (bandit.addArms (agentIds scored)).thompsonSampling call.samples = some agentId) (hne : agentId ≠ "") :
    selectAgent config call registry bandit = .ok (some agentId, .bandit, bandit.addArms (agentIds scored)) := by
  have hpos : 0 < min 10 qualified.length := by
    have := List.length_pos_of_ne_nil hsome
    omega
  obtain ⟨best, others, hlist⟩ := List.exists_cons_of_ne_nil (AgentScorer.scoreAndSelect_ne_nil hscored hsome hpos)
  rw [hlist] at hscored hwinner hdraw ⊢
  have hkept : (some agentId).filter (· ≠ "") = some agentId := by simp [Option.filter, hne]
  have hempty : qualified.isEmpty = false := by simpa using hsome
  unfold selectAgent
  rw [hqualified]
  dsimp only [bind, Except.bind]
  rw [hempty, hscored]
  dsimp only
  rw [hwinner]
  dsimp only
  rw [if_pos henabled, hfeatures]
  dsimp only
  rw [hdraw, hkept]
  rfl

end Exits

section Runs

variable {config : RouterConfig} {r : IntelligentRouter} {call : RouteCall} {agentId : String}

theorem routeNeed_some : (r.routeNeed config call).1 = some agentId ↔
    ∃ method bandit, selectAgent config call r.registry r.bandit = .ok (some agentId, method, bandit) := by
  unfold IntelligentRouter.routeNeed
  cases hselect : selectAgent config call r.registry r.bandit with
  | error e => simp
  | ok result =>
    obtain ⟨selected, method, bandit⟩ := result
    simp

/-- Who passes the filters is registered and meets the need. -/
theorem Qualified.meets {need : Dict} (h : Qualified config need r agentId) :
    ∃ m ∈ r.registry.getAll, m.agentId = agentId ∧ config.filter.Qualifies need m := by
  obtain ⟨_, qualified, hfilter, hmem⟩ := h
  obtain ⟨m, hm, hid⟩ := List.mem_map.mp hmem
  obtain ⟨hgiven, hmeets⟩ := CapabilityFilter.filterAll_sound hfilter hm
  exact ⟨m, hgiven, hid, hmeets⟩

theorem qualified_of_shortlisted {qualified : List AgentManifest} {scored : List ScoredAgent} {k : Nat}
    (hfilter : config.filter.filterAll call.need r.registry.getAll = .ok qualified)
    (hscored : AgentScorer.scoreAndSelect call.score qualified k = .ok scored) (h : agentId ∈ agentIds scored) :
    Qualified config call.need r agentId := by
  obtain ⟨a, ha, rfl⟩ := List.mem_map.mp h
  have hmem := AgentScorer.mem_of_scoreAndSelect hscored ha
  obtain ⟨hgiven, _⟩ := CapabilityFilter.filterAll_sound hfilter hmem
  exact ⟨ManifestRegistry.registered_of_mem_getAll hgiven, qualified, hfilter, List.mem_map_of_mem hmem⟩

theorem routesQualified_of_armsQualify (h : ArmsQualify config r (.routeNeed call)) :
    RoutesQualified config r (.routeNeed call) := by
  intro samples agentId hrouted
  obtain ⟨method, bandit, hselect⟩ := routeNeed_some.mp hrouted
  obtain ⟨qualified, scored, hfilter, hsome, hscored, hlisted | ⟨henabled, hfeatures, hwinner, hdraw, hne⟩⟩ :=
    selectAgent_some hselect
  · exact qualified_of_shortlisted hfilter hscored hlisted
  · rcases ContextualBandit.mem_addArms.mp (ContextualBandit.mem_of_thompsonSampling hdraw) with hlisted | harm
    · exact qualified_of_shortlisted hfilter hscored hlisted
    · exact h ⟨henabled, hfeatures, qualified, scored, hfilter, hsome, hscored, hwinner⟩ agentId harm hne

theorem armsQualify_of_routesQualified (h : RoutesQualified config r (.routeNeed call)) :
    ArmsQualify config r (.routeNeed call) := by
  rintro ⟨henabled, ⟨features, hfeatures⟩, qualified, scored, hfilter, hsome, hscored, hwinner⟩ armId harm hne
  have hdraw : (r.bandit.addArms (agentIds scored)).thompsonSampling (.favoring armId) = some armId :=
    ContextualBandit.thompsonSampling_favoring (ContextualBandit.mem_addArms.mpr (.inr harm))
  have hselect := @selectAgent_drawn config { call with samples := .favoring armId } r.registry r.bandit qualified scored armId
    hfilter hsome hscored henabled features hfeatures hwinner hdraw hne
  exact h (.favoring armId) armId (routeNeed_some.mpr ⟨_, _, hselect⟩)

theorem routeNeed_arms {armId : String} (h : armId ∈ r.bandit.arms.keys) :
    armId ∈ (r.routeNeed config call).2.bandit.arms.keys := by
  unfold IntelligentRouter.routeNeed
  dsimp only
  split
  next hselect =>
    obtain ⟨armIds, hadded⟩ := selectAgent_arms hselect
    rw [hadded]
    exact ContextualBandit.mem_addArms.mpr (.inr h)
  next => exact h

theorem recordOutcome_arms (outcome : OutcomeCall) {armId : String} (h : armId ∈ r.bandit.arms.keys) :
    armId ∈ (r.recordOutcome config outcome).2.bandit.arms.keys := by
  unfold IntelligentRouter.recordOutcome
  split
  · dsimp only
    split
    · exact ContextualBandit.mem_update.mpr (.inr h)
    · exact h
  · exact h
  · exact h

theorem run_arms (c : RouterCall) {armId : String} (h : armId ∈ r.bandit.arms.keys) :
    armId ∈ (r.run config c).bandit.arms.keys := by
  cases c with
  | register manifest => exact h
  | unregister agentId => exact h
  | routeNeed call => exact routeNeed_arms h
  | recordOutcome call => exact recordOutcome_arms call h

/-- An arm is never taken out again, whatever becomes of its agent. -/
theorem arms_persist (calls : List RouterCall) {armId : String} (h : armId ∈ r.bandit.arms.keys) :
    armId ∈ (calls.foldl (IntelligentRouter.run config) r).bandit.arms.keys := by
  induction calls generalizing r with
  | nil => exact h
  | cons c rest ih => exact ih (run_arms c h)

/-- In every history of a router: its calls give only agents that qualify, whatever the
bandit samples, if and only if the bandit holds only such agents whenever it draws. -/
theorem routes_qualified_iff (config : RouterConfig) (start : IntelligentRouter) (calls : List RouterCall) :
    (∀ e ∈ stepsOf (IntelligentRouter.run config) start calls, RoutesQualified config e.1 e.2.1) ↔
      ∀ e ∈ stepsOf (IntelligentRouter.run config) start calls, ArmsQualify config e.1 e.2.1 := by
  have hrun : Trace (fun r c r' => r' = IntelligentRouter.run config r c) start
      (stepsOf (IntelligentRouter.run config) start calls) (calls.foldl (IntelligentRouter.run config) start) :=
    Trace.ofCalls stepsOf_call
  refine hrun.forall_iff (I := fun _ => True) (P := fun r c _ => RoutesQualified config r c) trivial (fun _ _ _ => trivial) ?_
  intro r c _ _ _
  cases c with
  | routeNeed call => exact ⟨armsQualify_of_routesQualified, routesQualified_of_armsQualify⟩
  | _ => exact Iff.rfl

end Runs

/-- Without canaries; no need and no outcome makes the readers raise. -/
def sampleConfig : RouterConfig := ⟨⟨false⟩, 3 / 5, 3 / 5, false, true, ⟨fun _ => .ok (), fun _ => .ok []⟩⟩

def sampleManifest (agentId : String) : AgentManifest := ⟨agentId, [], [], [], [], .finite 0, .finite 0, .finite 1, none⟩

def sampleCall (needId armId : String) : RouteCall :=
  ⟨[("need_id", .str needId)], fun _ => .ok 1, fun _ => .failed 0, .favoring armId⟩

def sampleRouter : IntelligentRouter := ⟨.empty, ⟨.empty, 0⟩, [], []⟩

/-- The first agent gets a need and leaves; the second comes for the next need. -/
def sampleCalls : List RouterCall :=
  [.register (sampleManifest "old"), .routeNeed (sampleCall "first" "old"), .unregister "old", .register (sampleManifest "new")]

/-- The second need goes to the agent that has left. -/
theorem routes_to_unregistered :
    let r := sampleCalls.foldl (IntelligentRouter.run sampleConfig) sampleRouter
    (r.routeNeed sampleConfig (sampleCall "second" "old")).1 = some "old" ∧ r.registry.registered "old" = false ∧
      r.registry.registered "new" = true := by
  decide +kernel

end AgentNetwork.Routing
