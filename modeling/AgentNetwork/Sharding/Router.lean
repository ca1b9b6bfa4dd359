import AgentNetwork.Library.Double
import AgentNetwork.Library.Traces
import AgentNetwork.Sharding.Registry
import AgentNetwork.Sharding.Topology

/-! The router of messages between shards. It caches the address it gave out last for
each shard and keeps the dependencies of needs on other shards. -/

namespace AgentNetwork.Sharding

open Relational Transition

/-- `NodeInfo.is_healthy` at a reading of the clock, in seconds. -/
def healthyAt (timestamp : ℚ) (lastHeartbeatNs : Int) : Bool :=
  Double.nearest (Double.nearest (timestamp * 1000000000) - Double.nearest lastHeartbeatNs) < 30000000000

def NodeInfo.isHealthy (timestamp : ℚ) (node : NodeInfo) : Bool := healthyAt timestamp node.lastHeartbeatNs

/-- How one call visits the members of a shard, and what the clock reads for each of them
when the cached address is checked and when an address is selected. -/
structure Look where
  order : List NodeInfo → List NodeInfo
  perm : ∀ nodes, (order nodes).Perm nodes
  checkedAt : String → ℚ
  selectedAt : String → ℚ

namespace ShardRegistry

def getHealthyNodes (shardId : Int) (order : List NodeInfo → List NodeInfo) (readAt : String → ℚ) (r : ShardRegistry) :
    List NodeInfo :=
  (order (r.getShardNodes shardId)).filter fun node => node.isHealthy (readAt node.nodeId)

def updateHeartbeat (nodeId : String) (nowNs : Int) (r : ShardRegistry) : ShardRegistry :=
  { r with nodes := r.nodes.modify nodeId fun node => { node with lastHeartbeatNs := nowNs } }

def getAllShards (r : ShardRegistry) : List Int := r.shardMap.keys

end ShardRegistry

structure CrossShardDependency where
  needId : String
  fromShard : Int
  toShard : Int
  artifactRefs : List String
  deriving DecidableEq

structure CrossShardRouter where
  topology : ShardTopology
  registry : ShardRegistry
  dependencies : Table String (List CrossShardDependency)
  endpointCache : Table Int String
  deriving DecidableEq

namespace CrossShardRouter

def init (topology : ShardTopology) : CrossShardRouter := ⟨topology, .init, .empty, .empty⟩

/-- The first healthy node is selected and cached. -/
def selectEndpoint (shardId : Int) (look : Look) (c : CrossShardRouter) : Option String × CrossShardRouter :=
  match c.registry.getHealthyNodes shardId look.order look.selectedAt with
  | [] => (none, c)
  | node :: _ => (some node.address, { c with endpointCache := c.endpointCache.upsert shardId node.address })

def getShardEndpoint (shardId : Int) (look : Look) (c : CrossShardRouter) : Option String × CrossShardRouter :=
  match c.endpointCache.get? shardId with
  | none => selectEndpoint shardId look c
  | some cached =>
    if (c.registry.getHealthyNodes shardId look.order look.checkedAt).any (fun node => node.address = cached) then (some cached, c)
    else selectEndpoint shardId look { c with endpointCache := c.endpointCache.erase shardId }

def getDependencies (needId : String) (c : CrossShardRouter) : List CrossShardDependency := (c.dependencies.get? needId).getD []

/-- The reference goes to the first dependency on the shard. -/
def addArtifact (depShard : Int) (artifactRef : String) : List CrossShardDependency → List CrossShardDependency
  | [] => []
  | dep :: rest =>
    if dep.toShard = depShard then { dep with artifactRefs := dep.artifactRefs ++ [artifactRef] } :: rest
    else dep :: addArtifact depShard artifactRef rest

def addDependencyArtifact (needId : String) (depShard : Int) (artifactRef : String) (c : CrossShardRouter) : CrossShardRouter :=
  { c with dependencies := c.dependencies.modify needId (addArtifact depShard artifactRef) }

def clearDependencies (needId : String) (c : CrossShardRouter) : CrossShardRouter :=
  { c with dependencies := c.dependencies.erase needId }

def getShardsWithCapability (capability : String) (c : CrossShardRouter) : List Int :=
  c.registry.getAllShards.filter fun shardId => capability ∈ c.registry.getShardCapabilities shardId

def invalidateEndpointCache (shardId : Option Int) (c : CrossShardRouter) : CrossShardRouter :=
  match shardId with
  | some shardId => { c with endpointCache := c.endpointCache.erase shardId }
  | none => { c with endpointCache := .empty }

section Hashed

variable (sha256 : List UInt8 → List UInt8)

/-- The error is the text of the `ValueError`. -/
def routeToShard (needId : String) (look : Look) (c : CrossShardRouter) : Except String (Int × String) × CrossShardRouter :=
  let shardId := c.topology.getShardForNeed sha256 needId
  match getShardEndpoint shardId look c with
  | (none, c') => (.error ("Shard " ++ toString shardId ++ " has no healthy nodes"), c')
  | (some endpoint, c') => (.ok (shardId, endpoint), c')

def trackCrossShardDeps (needId : String) (depShardIds : List Int) (c : CrossShardRouter) : CrossShardRouter :=
  let sourceShard := c.topology.getShardForNeed sha256 needId
  match depShardIds.filter fun depShard => depShard ≠ sourceShard with
  | [] => c
  | shards => { c with dependencies := c.dependencies.upsert needId (shards.map fun depShard => ⟨needId, sourceShard, depShard, []⟩) }

end Hashed

end CrossShardRouter

/-- A call of the router, or of the registry it reads. -/
inductive RouterCall
  | registry (call : RegistryCall)
  | updateHeartbeat (nodeId : String) (nowNs : Int)
  | routeToShard (needId : String) (look : Look)
  | getShardEndpoint (shardId : Int) (look : Look)
  | trackCrossShardDeps (needId : String) (depShardIds : List Int)
  | addDependencyArtifact (needId : String) (depShard : Int) (artifactRef : String)
  | clearDependencies (needId : String)
  | invalidateEndpointCache (shardId : Option Int)

namespace RouterCall

def registryCall : RouterCall → Option RegistryCall
  | registry call => some call
  | _ => none

/-- The address and the last heartbeat of a node after a call. -/
def seen (nodeId : String) (before : Option (String × Int)) : RouterCall → Option (String × Int)
  | registry (.registerShard _ nodeId' address _ nowNs) => if nodeId' = nodeId then some (address, nowNs) else before
  | registry (.unregisterNode nodeId') => if nodeId' = nodeId then none else before
  | updateHeartbeat nodeId' nowNs => if nodeId' = nodeId then before.map fun known => (known.1, nowNs) else before
  | _ => before

/-- How a call looks for the endpoint of a shard, if it does. -/
def asks (shardOf : String → Int) (shardId : Int) : RouterCall → Option Look
  | routeToShard needId look => if shardOf needId = shardId then some look else none
  | getShardEndpoint shardId' look => if shardId' = shardId then some look else none
  | _ => none

def Invalidates (shardId : Int) : RouterCall → Prop
  | invalidateEndpointCache shardId' => shardId' = none ∨ shardId' = some shardId
  | _ => False

/-- The call puts new dependencies in the place of those of the need, or clears them. -/
def Renews (shardOf : String → Int) (needId : String) : RouterCall → Prop
  | trackCrossShardDeps needId' depShardIds => needId' = needId ∧ ∃ depShard ∈ depShardIds, depShard ≠ shardOf needId
  | clearDependencies needId' => needId' = needId
  | _ => False

/-- The artifact that a call adds for a shard. -/
def artifactFor (needId : String) (depShard : Int) : RouterCall → Option String
  | addDependencyArtifact needId' depShard' artifactRef => if needId' = needId ∧ depShard' = depShard then some artifactRef else none
  | _ => none

end RouterCall

section Runs

variable (sha256 : List UInt8 → List UInt8) (topology : ShardTopology)

def CrossShardRouter.apply (c : CrossShardRouter) : RouterCall → CrossShardRouter
  | .registry call => { c with registry := call.apply c.registry }
  | .updateHeartbeat nodeId nowNs => { c with registry := c.registry.updateHeartbeat nodeId nowNs }
  | .routeToShard needId look => (c.routeToShard sha256 needId look).2
  | .getShardEndpoint shardId look => (c.getShardEndpoint shardId look).2
  | .trackCrossShardDeps needId depShardIds => c.trackCrossShardDeps sha256 needId depShardIds
  | .addDependencyArtifact needId depShard artifactRef => c.addDependencyArtifact needId depShard artifactRef
  | .clearDependencies needId => c.clearDependencies needId
  | .invalidateEndpointCache shardId => c.invalidateEndpointCache shardId

def routed (calls : List RouterCall) : CrossShardRouter := calls.foldl (CrossShardRouter.apply sha256) (.init topology)

/-- The address and the last heartbeat of a node, since it last left. -/
def seenOf (calls : List RouterCall) (nodeId : String) : Option (String × Int) := calls.foldl (RouterCall.seen nodeId) none

/-- A member of the shard with the address is healthy at the clock. -/
def HealthyMember (calls : List RouterCall) (shardId : Int) (readAt : String → ℚ) (address : String) : Prop :=
  ∃ nodeId heartbeat, isMember (calls.filterMap RouterCall.registryCall) shardId nodeId = true ∧
    seenOf calls nodeId = some (address, heartbeat) ∧ healthyAt (readAt nodeId) heartbeat = true

/-- The last look for the endpoint of the shard gave the address, and nothing has invalidated it. -/
def LastGiven (calls : List RouterCall) (shardId : Int) (address : String) : Prop :=
  ∃ after, Since
    (fun before call => ∃ look, call.asks (topology.getShardForNeed sha256) shardId = some look ∧
      ((routed sha256 topology before).getShardEndpoint shardId look).1 = some address)
    (fun call => (call.asks (topology.getShardForNeed sha256) shardId).isSome ∨ call.Invalidates shardId) calls after

/-- The need has the dependencies on the shards since before the calls `after`. -/
def TrackedSince (needId : String) (depShardIds : List Int) (calls after : List RouterCall) : Prop :=
  Since (fun _ call => call = .trackCrossShardDeps needId depShardIds ∧ call.Renews (topology.getShardForNeed sha256) needId)
    (RouterCall.Renews (topology.getShardForNeed sha256) needId) calls after

end Runs

namespace CrossShardRouter

variable {sha256 : List UInt8 → List UInt8} {c : CrossShardRouter} {shardId s : Int} {look : Look}

/-- A look for an endpoint changes the cache at most, and there the entry of the shard, to
what it gives. -/
structure Caches (c : CrossShardRouter) (shardId : Int) (answer : Option String) (c' : CrossShardRouter) : Prop where
  topology : c'.topology = c.topology
  registry : c'.registry = c.registry
  dependencies : c'.dependencies = c.dependencies
  cached : ∀ s, c'.endpointCache.get? s = if s = shardId then answer else c.endpointCache.get? s

theorem caches_select (h : c.endpointCache.get? shardId = none) (look : Look) :
    Caches c shardId (c.selectEndpoint shardId look).1 (c.selectEndpoint shardId look).2 := by
  unfold selectEndpoint
  cases c.registry.getHealthyNodes shardId look.order look.selectedAt with
  | nil =>
    refine ⟨rfl, rfl, rfl, fun s => ?_⟩
    by_cases hs : s = shardId
    · rw [if_pos hs, hs, h]
    · rw [if_neg hs]
  | cons node rest => exact ⟨rfl, rfl, rfl, fun s => Table.get?_upsert ..⟩

theorem caches_getShardEndpoint (c : CrossShardRouter) (shardId : Int) (look : Look) :
    Caches c shardId (c.getShardEndpoint shardId look).1 (c.getShardEndpoint shardId look).2 := by
  unfold getShardEndpoint
  cases hcached : c.endpointCache.get? shardId with
  | none => exact caches_select hcached look
  | some cached =>
    simp only
    split
    next =>
      refine ⟨rfl, rfl, rfl, fun s => ?_⟩
      by_cases hs : s = shardId
      · rw [if_pos hs, hs, hcached]
      · rw [if_neg hs]
    next =>
      have herased : (c.endpointCache.erase shardId).get? shardId = none := by rw [Table.get?_erase, if_pos rfl]
      have hselect := caches_select (c := { c with endpointCache := c.endpointCache.erase shardId }) herased look
      refine ⟨hselect.topology, hselect.registry, hselect.dependencies, fun s => (hselect.cached s).trans ?_⟩
      by_cases hs : s = shardId
      · rw [if_pos hs, if_pos hs]
      · rw [if_neg hs, if_neg hs, Table.get?_erase, if_neg hs]

theorem caches_routeToShard (c : CrossShardRouter) (needId : String) (look : Look) :
    Caches c (c.topology.getShardForNeed sha256 needId) (c.getShardEndpoint (c.topology.getShardForNeed sha256 needId) look).1
      (c.routeToShard sha256 needId look).2 := by
  have hstate : (c.routeToShard sha256 needId look).2 = (c.getShardEndpoint (c.topology.getShardForNeed sha256 needId) look).2 := by
    unfold routeToShard
    simp only
    split
    next h => rw [h]
    next h => rw [h]
  rw [hstate]
  exact caches_getShardEndpoint ..

/-- What a call asks for it gives and caches; else the cache changes where it is invalidated. -/
theorem apply_cache (c : CrossShardRouter) (call : RouterCall) (s : Int) :
    (∀ look, call.asks (c.topology.getShardForNeed sha256) s = some look →
      (c.apply sha256 call).endpointCache.get? s = (c.getShardEndpoint s look).1) ∧
    (call.asks (c.topology.getShardForNeed sha256) s = none → call.Invalidates s → (c.apply sha256 call).endpointCache.get? s = none) ∧
    (call.asks (c.topology.getShardForNeed sha256) s = none → ¬call.Invalidates s →
      (c.apply sha256 call).endpointCache.get? s = c.endpointCache.get? s) := by
  have hasked : ∀ {shardId : Int} {given : Look} {c' : CrossShardRouter}, Caches c shardId (c.getShardEndpoint shardId given).1 c' →
      (∀ look, (if shardId = s then some given else none) = some look → c'.endpointCache.get? s = (c.getShardEndpoint s look).1) ∧
      ((if shardId = s then some given else none) = none → c'.endpointCache.get? s = c.endpointCache.get? s) := by
    intro shardId given c' h
    by_cases hs : shardId = s
    · subst hs
      rw [if_pos rfl]
      refine ⟨fun look hlook => ?_, nofun⟩
      cases hlook
      rw [h.cached, if_pos rfl]
    · rw [if_neg hs]
      refine ⟨nofun, fun _ => ?_⟩
      rw [h.cached, if_neg fun he => hs he.symm]
  cases call with
  | routeToShard needId given =>
    obtain ⟨hgiven, hnone⟩ := hasked (@caches_routeToShard sha256 c needId given)
    exact ⟨hgiven, nofun, fun h _ => hnone h⟩
  | getShardEndpoint shardId given =>
    obtain ⟨hgiven, hnone⟩ := hasked (caches_getShardEndpoint c shardId given)
    exact ⟨hgiven, nofun, fun h _ => hnone h⟩
  | trackCrossShardDeps needId depShardIds =>
    refine ⟨nofun, nofun, fun _ _ => ?_⟩
    show (c.trackCrossShardDeps sha256 needId depShardIds).endpointCache.get? s = c.endpointCache.get? s
    unfold trackCrossShardDeps
    simp only
    split <;> rfl
  | invalidateEndpointCache shardId =>
    cases shardId with
    | none => exact ⟨nofun, fun _ _ => Table.get?_empty s, fun _ h => absurd (Or.inl rfl) h⟩
    | some shardId =>
      have herase : (c.apply sha256 (.invalidateEndpointCache (some shardId))).endpointCache.get? s =
        if s = shardId then none else c.endpointCache.get? s := Table.get?_erase ..
      refine ⟨nofun, fun _ h => ?_, fun _ h => ?_⟩
      · obtain hnone | hsome := h
        · cases hnone
        · rw [herase, if_pos (Option.some.inj hsome).symm]
      · rw [herase, if_neg fun he => h (Or.inr (congrArg some he.symm))]
  | registry | updateHeartbeat | addDependencyArtifact | clearDependencies => exact ⟨nofun, nofun, fun _ _ => rfl⟩

theorem apply_topology (c : CrossShardRouter) (call : RouterCall) : (c.apply sha256 call).topology = c.topology := by
  cases call with
  | routeToShard needId look => exact (caches_routeToShard c needId look).topology
  | getShardEndpoint shardId look => exact (caches_getShardEndpoint c shardId look).topology
  | trackCrossShardDeps needId depShardIds =>
    show (c.trackCrossShardDeps sha256 needId depShardIds).topology = c.topology
    unfold trackCrossShardDeps
    simp only
    split <;> rfl
  | invalidateEndpointCache shardId => cases shardId <;> rfl
  | registry | updateHeartbeat | addDependencyArtifact | clearDependencies => rfl

/-- The registry changes by its own calls only. -/
theorem apply_registry (c : CrossShardRouter) (call : RouterCall) : (c.apply sha256 call).registry =
    match call with
    | .registry call => call.apply c.registry
    | .updateHeartbeat nodeId nowNs => c.registry.updateHeartbeat nodeId nowNs
    | _ => c.registry := by
  cases call with
  | routeToShard needId look => exact (caches_routeToShard c needId look).registry
  | getShardEndpoint shardId look => exact (caches_getShardEndpoint c shardId look).registry
  | trackCrossShardDeps needId depShardIds =>
    show (c.trackCrossShardDeps sha256 needId depShardIds).registry = c.registry
    unfold trackCrossShardDeps
    simp only
    split <;> rfl
  | invalidateEndpointCache shardId => cases shardId <;> rfl
  | registry | updateHeartbeat | addDependencyArtifact | clearDependencies => rfl

end CrossShardRouter

namespace ShardRegistry

variable {r : ShardRegistry} {nodeId : String} {record : Option (String × Int)}

/-- The registry has the node under its id with the address and the last heartbeat. -/
def Sees (r : ShardRegistry) (nodeId : String) (record : Option (String × Int)) : Prop :=
  (r.nodes.get? nodeId).map (fun node => (node.nodeId, node.address, node.lastHeartbeatNs)) = record.map fun known => (nodeId, known)

theorem sees_registerShard (h : r.Sees nodeId record) (shardId : Int) (nodeId' address : String) (capabilities : List String)
    (nowNs : Int) : (r.registerShard shardId nodeId' address capabilities nowNs).Sees nodeId
      (if nodeId' = nodeId then some (address, nowNs) else record) := by
  unfold Sees registerShard
  by_cases hsame : nodeId' = nodeId
  · subst hsame
    rw [if_pos rfl]
    cases hnode : r.nodes.get? nodeId' with
    | none => simp only [Table.get?_upsert, if_pos, Option.map_some]
    | some node =>
      have hid : node.nodeId = nodeId' := by
        rw [Sees, hnode, Option.map_some] at h
        obtain ⟨known, _, hknown⟩ := Option.map_eq_some_iff.mp h.symm
        exact congrArg Prod.fst hknown.symm
      simp only [Table.get?_upsert, if_pos, Option.map_some, hid]
  · rw [if_neg hsame]
    cases r.nodes.get? nodeId' with
    | none =>
      simp only [Table.get?_upsert, if_neg (Ne.symm hsame)]
      exact h
    | some node =>
      simp only [Table.get?_upsert, if_neg (Ne.symm hsame)]
      exact h

theorem sees_unregisterNode (h : r.Sees nodeId record) (nodeId' : String) :
    (r.unregisterNode nodeId').Sees nodeId (if nodeId' = nodeId then none else record) := by
  unfold Sees unregisterNode
  by_cases hsame : nodeId' = nodeId
  · subst hsame
    rw [if_pos rfl]
    cases hnode : r.nodes.get? nodeId' with
    | none => simp only [hnode, Option.map_none]
    | some node => simp only [Table.get?_erase, if_pos, Option.map_none]
  · rw [if_neg hsame]
    cases r.nodes.get? nodeId' with
    | none => exact h
    | some node =>
      simp only [Table.get?_erase, if_neg (Ne.symm hsame)]
      exact h

theorem sees_updateHeartbeat (h : r.Sees nodeId record) (nodeId' : String) (nowNs : Int) :
    (r.updateHeartbeat nodeId' nowNs).Sees nodeId
      (if nodeId' = nodeId then record.map fun known => (known.1, nowNs) else record) := by
  unfold Sees updateHeartbeat
  rw [Table.get?_modify]
  by_cases hsame : nodeId' = nodeId
  · subst hsame
    rw [if_pos rfl, if_pos rfl, Option.map_map, Option.map_map]
    rw [Sees] at h
    cases hnode : r.nodes.get? nodeId' with
    | none =>
      rw [hnode] at h
      rw [Option.map_eq_none_iff.mp h.symm]
      rfl
    | some node =>
      rw [hnode] at h
      obtain ⟨known, rfl, hknown⟩ := Option.map_eq_some_iff.mp h.symm
      cases hknown
      rfl
  · rw [if_neg (Ne.symm hsame), if_neg hsame]
    exact h

/-- Heartbeats change neither members nor capabilities. -/
theorem updateHeartbeat_known (h : r.MembersKnown) (nodeId : String) (nowNs : Int) : (r.updateHeartbeat nodeId nowNs).MembersKnown := by
  intro shardId id hid
  obtain ⟨node, hnode⟩ := h shardId id hid
  by_cases hsame : id = nodeId
  · subst hsame
    refine ⟨{ node with lastHeartbeatNs := nowNs }, ?_⟩
    rw [updateHeartbeat, Table.get?_modify, if_pos rfl, hnode]
    rfl
  · exact ⟨node, by rw [updateHeartbeat, Table.get?_modify, if_neg hsame, hnode]⟩

theorem apply_shards (h : ∀ s, (r.shardMap.get? s).isSome = (r.shardCapabilities.get? s).isSome) (call : RegistryCall) (s : Int) :
    ((call.apply r).shardMap.get? s).isSome = ((call.apply r).shardCapabilities.get? s).isSome := by
  cases call with
  | registerShard shardId nodeId address capabilities nowNs =>
    show ((r.registerShard shardId nodeId address capabilities nowNs).shardMap.get? s).isSome =
      ((r.registerShard shardId nodeId address capabilities nowNs).shardCapabilities.get? s).isSome
    simp only [registerShard, Table.get?_upsert]
    by_cases hs : s = shardId
    · rw [if_pos hs, if_pos hs, Option.isSome_some, Option.isSome_some]
    · rw [if_neg hs, if_neg hs, h]
  | unregisterNode nodeId =>
    show ((r.unregisterNode nodeId).shardMap.get? s).isSome = ((r.unregisterNode nodeId).shardCapabilities.get? s).isSome
    unfold unregisterNode
    cases r.nodes.get? nodeId with
    | none => exact h s
    | some node => simp only [Table.get?_mapRows, Option.isSome_map, h]

end ShardRegistry

section Endpoints

variable {sha256 : List UInt8 → List UInt8} {topology : ShardTopology} {calls : List RouterCall}

theorem routed_concat (calls : List RouterCall) (call : RouterCall) :
    routed sha256 topology (calls ++ [call]) = (routed sha256 topology calls).apply sha256 call := by
  rw [routed, List.foldl_append]
  rfl

theorem routed_topology (calls : List RouterCall) : (routed sha256 topology calls).topology = topology := by
  induction calls using List.reverseRecOn with
  | nil => rfl
  | append_singleton calls call ih => rw [routed_concat, CrossShardRouter.apply_topology, ih]

/-- What the registry holds after the calls is what they say of its members. -/
structure Records (calls : List RouterCall) (r : ShardRegistry) : Prop where
  known : r.MembersKnown
  members : ∀ shardId nodeId, nodeId ∈ ShardRegistry.setAt r.shardMap shardId ↔
    isMember (calls.filterMap RouterCall.registryCall) shardId nodeId = true
  sees : ∀ nodeId, r.Sees nodeId (seenOf calls nodeId)
  capabilities : ∀ shardId c, c ∈ r.getShardCapabilities shardId ↔ c ∈ namedFor (calls.filterMap RouterCall.registryCall) shardId
  shards : ∀ shardId, (r.shardMap.get? shardId).isSome = (r.shardCapabilities.get? shardId).isSome

theorem records_routed (calls : List RouterCall) : Records calls (routed sha256 topology calls).registry := by
  induction calls using List.reverseRecOn with
  | nil =>
    refine ⟨fun _ nodeId hid => absurd hid (ListSet.not_mem_empty nodeId), fun _ nodeId => ?_, fun _ => rfl, fun _ c => ?_, fun _ => rfl⟩
    · exact iff_of_false (ListSet.not_mem_empty nodeId) Bool.false_ne_true
    · exact iff_of_false (ListSet.not_mem_empty c) List.not_mem_nil
  | append_singleton calls call ih =>
    rw [routed_concat, CrossShardRouter.apply_registry]
    have hseen : ∀ nodeId, seenOf (calls ++ [call]) nodeId = call.seen nodeId (seenOf calls nodeId) := by
      intro nodeId
      rw [seenOf, List.foldl_append]
      rfl
    cases call with
    | registry call =>
      have hcall := ShardRegistry.follows_apply ih.known call
      refine ⟨hcall.known, fun shardId nodeId => ?_, fun nodeId => ?_, fun shardId c => ?_, ShardRegistry.apply_shards ih.shards call⟩
      · have hbefore : decide (nodeId ∈ ShardRegistry.setAt (routed sha256 topology calls).registry.shardMap shardId) =
            isMember (calls.filterMap RouterCall.registryCall) shardId nodeId :=
          Bool.eq_iff_iff.mpr (decide_eq_true_iff.trans (ih.members shardId nodeId))
        have hafter : isMember ((calls ++ [RouterCall.registry call]).filterMap RouterCall.registryCall) shardId nodeId =
            call.joined shardId nodeId (isMember (calls.filterMap RouterCall.registryCall) shardId nodeId) := by
          rw [isMember, List.filterMap_append, List.foldl_append]
          rfl
        rw [hafter, ← hbefore]
        exact hcall.members shardId nodeId
      · rw [hseen]
        cases call with
        | registerShard shardId nodeId' address capabilities nowNs =>
          exact ShardRegistry.sees_registerShard (ih.sees nodeId) shardId nodeId' address capabilities nowNs
        | unregisterNode nodeId' => exact ShardRegistry.sees_unregisterNode (ih.sees nodeId) nodeId'
      · have hnamed : namedFor ((calls ++ [RouterCall.registry call]).filterMap RouterCall.registryCall) shardId =
            namedFor (calls.filterMap RouterCall.registryCall) shardId ++ call.named shardId := by
          rw [namedFor, List.filterMap_append, List.flatMap_append]
          exact congrArg _ (List.append_nil _)
        rw [hnamed, List.mem_append, ← ih.capabilities]
        exact hcall.capabilities shardId c
    | updateHeartbeat nodeId' nowNs =>
      have hcalls : (calls ++ [RouterCall.updateHeartbeat nodeId' nowNs]).filterMap RouterCall.registryCall =
          calls.filterMap RouterCall.registryCall := by
        rw [List.filterMap_append, List.filterMap_cons_none rfl, List.filterMap_nil, List.append_nil]
      refine ⟨ShardRegistry.updateHeartbeat_known ih.known nodeId' nowNs, ?_, fun nodeId => ?_, ?_, ih.shards⟩
      · rw [hcalls]
        exact ih.members
      · rw [hseen]
        exact ShardRegistry.sees_updateHeartbeat (ih.sees nodeId) nodeId' nowNs
      · rw [hcalls]
        exact ih.capabilities
    | routeToShard | getShardEndpoint | trackCrossShardDeps | addDependencyArtifact | clearDependencies | invalidateEndpointCache =>
      refine ⟨ih.known, ?_, fun nodeId => ?_, ?_, ih.shards⟩
      · rw [List.filterMap_append, List.filterMap_cons_none rfl, List.filterMap_nil, List.append_nil]
        exact ih.members
      · rw [hseen]
        exact ih.sees nodeId
      · rw [List.filterMap_append, List.filterMap_cons_none rfl, List.filterMap_nil, List.append_nil]
        exact ih.capabilities

theorem Records.mem_healthy {r : ShardRegistry} (h : Records calls r) (shardId : Int) {order : List NodeInfo → List NodeInfo}
    (hperm : ∀ nodes, (order nodes).Perm nodes) (readAt : String → ℚ) (address : String) :
    (∃ node ∈ r.getHealthyNodes shardId order readAt, node.address = address) ↔ HealthyMember calls shardId readAt address := by
  have hsees : ∀ nodeId node, r.nodes.get? nodeId = some node →
      node.nodeId = nodeId ∧ seenOf calls nodeId = some (node.address, node.lastHeartbeatNs) := by
    intro nodeId node hnode
    have hrecord := h.sees nodeId
    rw [ShardRegistry.Sees, hnode] at hrecord
    obtain ⟨known, hseen, hknown⟩ := Option.map_eq_some_iff.mp hrecord.symm
    cases hknown
    exact ⟨rfl, hseen⟩
  constructor
  · intro ⟨node, hnode, haddress⟩
    obtain ⟨hmem, hhealthy⟩ := List.mem_filter.mp hnode
    obtain ⟨nodeId, hmember, hget⟩ := ShardRegistry.mem_getShardNodes.mp ((hperm _).mem_iff.mp hmem)
    obtain ⟨rfl, hseen⟩ := hsees nodeId node hget
    exact ⟨node.nodeId, node.lastHeartbeatNs, (h.members shardId _).mp hmember, haddress ▸ hseen, hhealthy⟩
  · intro ⟨nodeId, heartbeat, hmember, hseen, hhealthy⟩
    have hmem := (h.members shardId nodeId).mpr hmember
    obtain ⟨node, hget⟩ := h.known shardId nodeId hmem
    obtain ⟨rfl, hnode⟩ := hsees nodeId node hget
    cases hnode.symm.trans hseen
    refine ⟨node, List.mem_filter.mpr ⟨?_, hhealthy⟩, rfl⟩
    exact (hperm _).mem_iff.mpr (ShardRegistry.mem_getShardNodes.mpr ⟨_, hmem, hget⟩)

/-- The shards with a capability are those for which a registration has named it, whether
or not its node is still there. -/
theorem mem_getShardsWithCapability (calls : List RouterCall) (capability : String) (shardId : Int) :
    shardId ∈ (routed sha256 topology calls).getShardsWithCapability capability ↔
      capability ∈ namedFor (calls.filterMap RouterCall.registryCall) shardId := by
  have hrecords : Records calls (routed sha256 topology calls).registry := records_routed calls
  rw [CrossShardRouter.getShardsWithCapability, List.mem_filter, decide_eq_true_eq, hrecords.capabilities]
  refine and_iff_right_of_imp fun hnamed => ?_
  have hcapable := (hrecords.capabilities shardId capability).mpr hnamed
  refine Table.mem_keys_iff.mpr (Option.isSome_iff_exists.mp ((hrecords.shards shardId).trans ?_))
  rw [ShardRegistry.getShardCapabilities] at hcapable
  cases hget : (routed sha256 topology calls).registry.shardCapabilities.get? shardId with
  | none =>
    rw [hget] at hcapable
    exact absurd hcapable (ListSet.not_mem_empty capability)
  | some set => rfl

/-- The cache holds the address given last. -/
theorem cached_iff (calls : List RouterCall) (shardId : Int) (address : String) :
    (routed sha256 topology calls).endpointCache.get? shardId = some address ↔ LastGiven sha256 topology calls shardId address := by
  induction calls using List.reverseRecOn with
  | nil => exact iff_of_false nofun fun ⟨after, h⟩ => not_since_nil h
  | append_singleton calls call ih =>
    have hstep := @CrossShardRouter.apply_cache sha256 (routed sha256 topology calls) call shardId
    rw [routed_topology] at hstep
    obtain ⟨hasked, hinvalidated, hkept⟩ := hstep
    rw [routed_concat]
    cases hlook : call.asks (topology.getShardForNeed sha256) shardId with
    | some look =>
      rw [hasked look hlook]
      constructor
      · intro h
        exact ⟨[], since_concat.mpr (Or.inl ⟨rfl, look, hlook, h⟩)⟩
      · intro ⟨after, h⟩
        obtain ⟨_, look', hlook', hgiven⟩ | ⟨rest, _, hresets, _⟩ := since_concat.mp h
        · cases hlook.symm.trans hlook'
          exact hgiven
        · exact absurd (Or.inl (by rw [hlook]; rfl)) hresets
    | none =>
      have hlast : LastGiven sha256 topology (calls ++ [call]) shardId address ↔
          ¬call.Invalidates shardId ∧ LastGiven sha256 topology calls shardId address := by
        constructor
        · intro ⟨after, h⟩
          obtain ⟨_, look', hlook', _⟩ | ⟨rest, _, hresets, hrest⟩ := since_concat.mp h
          · cases hlook.symm.trans hlook'
          · exact ⟨fun h => hresets (Or.inr h), rest, hrest⟩
        · intro ⟨hinvalidates, rest, hrest⟩
          refine ⟨rest ++ [call], since_concat.mpr (Or.inr ⟨rest, rfl, fun h => ?_, hrest⟩)⟩
          obtain hsome | h := h
          · rw [hlook] at hsome
            cases hsome
          · exact hinvalidates h
      rw [hlast]
      by_cases hinvalidates : call.Invalidates shardId
      · rw [hinvalidated hlook hinvalidates]
        exact iff_of_false nofun fun h => h.1 hinvalidates
      · rw [hkept hlook hinvalidates, ih]
        exact (and_iff_right hinvalidates).symm

/-- The address given out last is given again as long as a member with it is healthy; else
that of a healthy member is, if there is one. -/
theorem endpoint_exact (calls : List RouterCall) (shardId : Int) (look : Look) :
    (∀ address, LastGiven sha256 topology calls shardId address → HealthyMember calls shardId look.checkedAt address →
      ((routed sha256 topology calls).getShardEndpoint shardId look).1 = some address) ∧
    ((∀ address, LastGiven sha256 topology calls shardId address → ¬HealthyMember calls shardId look.checkedAt address) →
      (∀ address, ((routed sha256 topology calls).getShardEndpoint shardId look).1 = some address →
        HealthyMember calls shardId look.selectedAt address) ∧
      (((routed sha256 topology calls).getShardEndpoint shardId look).1 = none →
        ∀ address, ¬HealthyMember calls shardId look.selectedAt address)) := by
  have hrecords : Records calls (routed sha256 topology calls).registry := records_routed calls
  have hselect : ∀ c : CrossShardRouter, c.registry = (routed sha256 topology calls).registry →
      (∀ address, (c.selectEndpoint shardId look).1 = some address → HealthyMember calls shardId look.selectedAt address) ∧
      ((c.selectEndpoint shardId look).1 = none → ∀ address, ¬HealthyMember calls shardId look.selectedAt address) := by
    intro c hregistry
    unfold CrossShardRouter.selectEndpoint
    rw [hregistry]
    cases hnodes : (routed sha256 topology calls).registry.getHealthyNodes shardId look.order look.selectedAt with
    | nil =>
      refine ⟨nofun, fun _ address h => ?_⟩
      obtain ⟨node, hnode, _⟩ := (hrecords.mem_healthy shardId look.perm look.selectedAt address).mpr h
      rw [hnodes] at hnode
      cases hnode
    | cons node rest =>
      refine ⟨fun address h => ?_, nofun⟩
      refine (hrecords.mem_healthy shardId look.perm look.selectedAt address).mp ⟨node, ?_, Option.some.inj h⟩
      rw [hnodes]
      exact List.mem_cons_self
  unfold CrossShardRouter.getShardEndpoint
  cases hcached : (routed sha256 topology calls).endpointCache.get? shardId with
  | none =>
    refine ⟨fun address hlast _ => ?_, fun _ => hselect _ rfl⟩
    rw [(cached_iff calls shardId address).mpr hlast] at hcached
    cases hcached
  | some cached =>
    have hlast := (cached_iff calls shardId cached).mp hcached
    have hhealthy : ((routed sha256 topology calls).registry.getHealthyNodes shardId look.order look.checkedAt).any
        (fun node => node.address = cached) = true ↔ HealthyMember calls shardId look.checkedAt cached := by
      rw [List.any_eq_true, ← hrecords.mem_healthy shardId look.perm look.checkedAt cached]
      simp only [decide_eq_true_eq]
    refine ⟨fun address haddress hmember => ?_, fun h => ?_⟩
    · cases hcached.symm.trans ((cached_iff calls shardId address).mpr haddress)
      simp only [hhealthy.mpr hmember, if_true]
    · simp only [if_neg fun hany => h cached hlast (hhealthy.mp hany)]
      exact hselect _ rfl

end Endpoints

section Dependencies

variable {sha256 : List UInt8 → List UInt8} {topology : ShardTopology} {needId : String} {sourceShard depShard : Int}
  {artifacts : Int → List String} {shards : List Int}

/-- The dependencies on the shards, of which those in `before` have come already; the
artifacts of a shard are kept with the first dependency on it. -/
def recordsOf (needId : String) (sourceShard : Int) (artifacts : Int → List String) (before : List Int) :
    List Int → List CrossShardDependency
  | [] => []
  | depShard :: rest =>
    ⟨needId, sourceShard, depShard, if depShard ∈ before then [] else artifacts depShard⟩ ::
      recordsOf needId sourceShard artifacts (depShard :: before) rest

theorem recordsOf_congr {artifacts' : Int → List String} {before : List Int}
    (h : ∀ depShard ∉ before, artifacts depShard = artifacts' depShard) :
    recordsOf needId sourceShard artifacts before shards = recordsOf needId sourceShard artifacts' before shards := by
  induction shards generalizing before with
  | nil => rfl
  | cons depShard rest ih =>
    have hrest : ∀ s ∉ depShard :: before, artifacts s = artifacts' s := fun s hs => h s fun hmem => hs (List.mem_cons_of_mem _ hmem)
    rw [recordsOf, recordsOf, ih hrest]
    by_cases hmem : depShard ∈ before
    · rw [if_pos hmem, if_pos hmem]
    · rw [if_neg hmem, if_neg hmem, h depShard hmem]

theorem addArtifact_recordsOf (artifactRef : String) {before : List Int} (h : depShard ∉ before) :
    CrossShardRouter.addArtifact depShard artifactRef (recordsOf needId sourceShard artifacts before shards) =
      recordsOf needId sourceShard (fun s => artifacts s ++ if s = depShard then [artifactRef] else []) before shards := by
  induction shards generalizing before with
  | nil => rfl
  | cons s rest ih =>
    rw [recordsOf, recordsOf, CrossShardRouter.addArtifact]
    by_cases hs : s = depShard
    · subst hs
      -- the dependencies that follow hold none of the artifacts of this shard
      have hrest : ∀ other ∉ s :: before, artifacts other = artifacts other ++ if other = s then [artifactRef] else [] := by
        intro other hother
        rw [if_neg fun he : other = s => hother (he ▸ List.mem_cons_self), List.append_nil]
      rw [if_pos rfl, if_neg h, if_neg h, if_pos rfl, recordsOf_congr hrest]
    · have hrest : depShard ∉ s :: before := fun hmem => h ((List.mem_cons.mp hmem).resolve_left fun he => hs he.symm)
      rw [if_neg hs, ih hrest, if_neg hs, List.append_nil]

/-- The shards that are not the need's own. -/
def otherShards (topology : ShardTopology) (sha256 : List UInt8 → List UInt8) (needId : String) (depShardIds : List Int) : List Int :=
  depShardIds.filter fun depShard => depShard ≠ topology.getShardForNeed sha256 needId

theorem otherShards_ne_nil {depShardIds : List Int} : otherShards topology sha256 needId depShardIds ≠ [] ↔
    ∃ depShard ∈ depShardIds, depShard ≠ topology.getShardForNeed sha256 needId := by
  rw [otherShards, Ne, List.filter_eq_nil_iff]
  push Not
  simp only [decide_eq_true_eq, ne_eq]

theorem recordsOf_nil_artifacts (before : List Int) : recordsOf needId sourceShard (fun _ => []) before shards =
    shards.map fun depShard => ⟨needId, sourceShard, depShard, []⟩ := by
  induction shards generalizing before with
  | nil => rfl
  | cons depShard rest ih => rw [recordsOf, ih, ite_self, List.map_cons]

theorem get?_trackCrossShardDeps (c : CrossShardRouter) (needId' : String) (depShardIds : List Int) :
    (c.trackCrossShardDeps sha256 needId' depShardIds).dependencies.get? needId =
      if needId = needId' ∧ otherShards c.topology sha256 needId' depShardIds ≠ [] then
        some (recordsOf needId' (c.topology.getShardForNeed sha256 needId') (fun _ => []) []
          (otherShards c.topology sha256 needId' depShardIds))
      else c.dependencies.get? needId := by
  rw [recordsOf_nil_artifacts]
  unfold CrossShardRouter.trackCrossShardDeps otherShards
  dsimp only
  split
  next hnil => rw [if_neg fun h => h.2 hnil]
  next hne =>
    rw [Table.get?_upsert]
    by_cases hn : needId = needId'
    · rw [if_pos hn, if_pos ⟨hn, hne⟩]
    · rw [if_neg hn, if_neg fun h => hn h.1]

theorem apply_tracked {c : CrossShardRouter} {depShardIds : List Int} (h : otherShards c.topology sha256 needId depShardIds ≠ []) :
    (c.apply sha256 (.trackCrossShardDeps needId depShardIds)).dependencies.get? needId =
      some (recordsOf needId (c.topology.getShardForNeed sha256 needId) (fun _ => []) []
        (otherShards c.topology sha256 needId depShardIds)) := by
  show (c.trackCrossShardDeps sha256 needId depShardIds).dependencies.get? needId = _
  rw [get?_trackCrossShardDeps, if_pos ⟨rfl, h⟩]

theorem apply_cleared (c : CrossShardRouter) : (c.apply sha256 (.clearDependencies needId)).dependencies.get? needId = none := by
  show (c.dependencies.erase needId).get? needId = none
  rw [Table.get?_erase, if_pos rfl]

/-- A call that does not renew the dependencies of a need adds an artifact to them or leaves them. -/
theorem apply_not_renews {c : CrossShardRouter} {call : RouterCall} (h : ¬call.Renews (c.topology.getShardForNeed sha256) needId) :
    ((c.apply sha256 call).dependencies.get? needId = c.dependencies.get? needId ∧
      ∀ depShard, call.artifactFor needId depShard = none) ∨
    ∃ depShard artifactRef, call = .addDependencyArtifact needId depShard artifactRef ∧
      (c.apply sha256 call).dependencies.get? needId =
        (c.dependencies.get? needId).map (CrossShardRouter.addArtifact depShard artifactRef) := by
  cases call with
  | trackCrossShardDeps needId' depShardIds =>
    refine Or.inl ⟨?_, fun _ => rfl⟩
    show (c.trackCrossShardDeps sha256 needId' depShardIds).dependencies.get? needId = _
    rw [get?_trackCrossShardDeps, if_neg]
    intro ⟨hn, hother⟩
    rw [← hn] at hother
    exact h ⟨hn.symm, otherShards_ne_nil.mp hother⟩
  | clearDependencies needId' =>
    refine Or.inl ⟨?_, fun _ => rfl⟩
    show (c.dependencies.erase needId').get? needId = _
    rw [Table.get?_erase, if_neg fun hn => h hn.symm]
  | addDependencyArtifact needId' depShard artifactRef =>
    have hadd : (c.apply sha256 (.addDependencyArtifact needId' depShard artifactRef)).dependencies.get? needId =
      if needId = needId' then (c.dependencies.get? needId').map (CrossShardRouter.addArtifact depShard artifactRef)
      else c.dependencies.get? needId := Table.get?_modify ..
    by_cases hn : needId = needId'
    · subst hn
      rw [if_pos rfl] at hadd
      exact Or.inr ⟨depShard, artifactRef, rfl, hadd⟩
    · rw [if_neg hn] at hadd
      exact Or.inl ⟨hadd, fun s => if_neg fun hs => hn hs.1.symm⟩
  | routeToShard needId' look =>
    have hsame := (@CrossShardRouter.caches_routeToShard sha256 c needId' look).dependencies
    exact Or.inl ⟨congrArg (Table.get? · needId) hsame, fun _ => rfl⟩
  | getShardEndpoint shardId look =>
    have hsame := (CrossShardRouter.caches_getShardEndpoint c shardId look).dependencies
    exact Or.inl ⟨congrArg (Table.get? · needId) hsame, fun _ => rfl⟩
  | invalidateEndpointCache shardId =>
    cases shardId with
    | none => exact Or.inl ⟨rfl, fun _ => rfl⟩
    | some shardId => exact Or.inl ⟨rfl, fun _ => rfl⟩
  | registry | updateHeartbeat => exact Or.inl ⟨rfl, fun _ => rfl⟩

theorem apply_recordsOf {c : CrossShardRouter} {call : RouterCall} (h : ¬call.Renews (c.topology.getShardForNeed sha256) needId)
    (hsome : c.dependencies.get? needId = some (recordsOf needId sourceShard artifacts [] shards)) :
    (c.apply sha256 call).dependencies.get? needId = some (recordsOf needId sourceShard
      (fun depShard => artifacts depShard ++ (call.artifactFor needId depShard).toList) [] shards) := by
  obtain ⟨hsame, hnone⟩ | ⟨depShard, artifactRef, rfl, hadd⟩ := apply_not_renews h
  · have hkept : (fun depShard => artifacts depShard ++ (call.artifactFor needId depShard).toList) = artifacts := by
      funext depShard
      rw [hnone, Option.toList_none, List.append_nil]
    rw [hsame, hsome, hkept]
  · rw [hadd, hsome, Option.map_some, addArtifact_recordsOf artifactRef List.not_mem_nil]
    refine congrArg (fun f => some (recordsOf needId sourceShard f [] shards)) (funext fun s => ?_)
    rw [RouterCall.artifactFor]
    by_cases hs : s = depShard
    · rw [if_pos hs, if_pos ⟨rfl, hs.symm⟩, Option.toList_some]
    · rw [if_neg hs, if_neg fun he => hs he.2.symm, Option.toList_none]

theorem apply_untracked {c : CrossShardRouter} {call : RouterCall} (h : ¬call.Renews (c.topology.getShardForNeed sha256) needId)
    (hnone : c.dependencies.get? needId = none) : (c.apply sha256 call).dependencies.get? needId = none := by
  obtain ⟨hsame, _⟩ | ⟨depShard, artifactRef, _, hadd⟩ := apply_not_renews h
  · rw [hsame, hnone]
  · rw [hadd, hnone, Option.map_none]

theorem tracked_records {calls after : List RouterCall} {depShardIds : List Int}
    (h : TrackedSince sha256 topology needId depShardIds calls after) :
    (routed sha256 topology calls).dependencies.get? needId = some (recordsOf needId (topology.getShardForNeed sha256 needId)
      (fun depShard => after.filterMap (RouterCall.artifactFor needId depShard)) [] (otherShards topology sha256 needId depShardIds)) := by
  induction calls using List.reverseRecOn generalizing after with
  | nil => exact absurd h not_since_nil
  | append_singleton calls call ih =>
    have htopology : (routed sha256 topology calls).topology = topology := routed_topology ..
    rw [routed_concat]
    obtain ⟨rfl, rfl, hrenews⟩ | ⟨rest, rfl, hrenews, hrest⟩ := since_concat.mp h
    · have hother := otherShards_ne_nil.mpr hrenews.2
      rw [← htopology] at hother
      rw [apply_tracked hother, htopology]
      rfl
    · rw [← htopology] at hrenews
      rw [apply_recordsOf hrenews (ih hrest)]
      refine congrArg (fun f => some (recordsOf needId _ f [] _)) (funext fun depShard => ?_)
      rw [List.filterMap_append, List.filterMap_cons, List.filterMap_nil]
      cases call.artifactFor needId depShard <;> rfl

theorem untracked_records {calls : List RouterCall}
    (h : ∀ depShardIds after, ¬TrackedSince sha256 topology needId depShardIds calls after) :
    (routed sha256 topology calls).dependencies.get? needId = none := by
  induction calls using List.reverseRecOn with
  | nil => rfl
  | append_singleton calls call ih =>
    rw [routed_concat]
    by_cases hrenews : call.Renews (topology.getShardForNeed sha256) needId
    · cases call with
      | trackCrossShardDeps needId' depShardIds =>
        obtain ⟨rfl, hother⟩ := hrenews
        exact absurd (since_concat.mpr (Or.inl ⟨rfl, rfl, rfl, hother⟩)) (h depShardIds [])
      | clearDependencies needId' =>
        cases hrenews
        exact apply_cleared _
      | _ => exact absurd hrenews not_false
    · have hbefore := ih fun depShardIds rest hrest =>
        h depShardIds (rest ++ [call]) (since_concat.mpr (Or.inr ⟨rest, rfl, hrenews, hrest⟩))
      refine apply_untracked ?_ hbefore
      rwa [routed_topology]

/-- The dependencies of a need are those tracked last on other shards, if none has cleared
them since; each shard's artifacts, in the order of their coming, stand with the first
dependency on it. -/
theorem dependencies_exact (calls : List RouterCall) (needId : String) :
    (∀ depShardIds after, TrackedSince sha256 topology needId depShardIds calls after →
      (routed sha256 topology calls).getDependencies needId = recordsOf needId (topology.getShardForNeed sha256 needId)
        (fun depShard => after.filterMap (RouterCall.artifactFor needId depShard)) [] (otherShards topology sha256 needId depShardIds)) ∧
    ((∀ depShardIds after, ¬TrackedSince sha256 topology needId depShardIds calls after) →
      (routed sha256 topology calls).getDependencies needId = []) := by
  constructor
  · intro depShardIds after h
    rw [CrossShardRouter.getDependencies, tracked_records h, Option.getD_some]
  · intro h
    rw [CrossShardRouter.getDependencies, untracked_records h, Option.getD_none]

end Dependencies

end AgentNetwork.Sharding
