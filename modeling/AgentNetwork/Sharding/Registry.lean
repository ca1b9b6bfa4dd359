import AgentNetwork.Library.ListSet
import AgentNetwork.Library.Table

/-! The registry of the shards and their members. The capabilities of a shard are kept
beside the members, and only grow. -/

namespace AgentNetwork.Sharding

open Relational

structure NodeInfo where
  nodeId : String
  address : String
  capabilities : List String
  joinedAtNs : Int
  lastHeartbeatNs : Int
  deriving DecidableEq

structure ShardRegistry where
  shardMap : Table Int (ListSet String)
  nodes : Table String NodeInfo
  shardCapabilities : Table Int (ListSet String)
  deriving DecidableEq

namespace ShardRegistry

def init : ShardRegistry := ⟨.empty, .empty, .empty⟩

/-- The set under a key, a new one if there is none. -/
def setAt (table : Table Int (ListSet String)) (shardId : Int) : ListSet String := (table.get? shardId).getD .empty

/-- `set.update(values)`. -/
def addAll (s : ListSet String) (values : List String) : ListSet String := values.foldl ListSet.add s

def registerShard (shardId : Int) (nodeId address : String) (capabilities : List String) (nowNs : Int) (r : ShardRegistry) :
    ShardRegistry where
  nodes :=
    match r.nodes.get? nodeId with
    | some node => r.nodes.upsert nodeId { node with address, capabilities, lastHeartbeatNs := nowNs }
    | none => r.nodes.upsert nodeId ⟨nodeId, address, capabilities, nowNs, nowNs⟩
  shardMap := r.shardMap.upsert shardId ((setAt r.shardMap shardId).add nodeId)
  shardCapabilities := r.shardCapabilities.upsert shardId (addAll (setAt r.shardCapabilities shardId) capabilities)

def getShardNodes (shardId : Int) (r : ShardRegistry) : List NodeInfo :=
  match r.shardMap.get? shardId with
  | none => []
  | some nodeIds => nodeIds.elems.filterMap r.nodes.get?

def unregisterNode (nodeId : String) (r : ShardRegistry) : ShardRegistry :=
  match r.nodes.get? nodeId with
  | none => r
  | some _ => { r with
      shardMap := r.shardMap.mapRows fun _ nodeIds => nodeIds.filter fun id => id ≠ nodeId
      nodes := r.nodes.erase nodeId }

def getShardCapabilities (shardId : Int) (r : ShardRegistry) : ListSet String := (r.shardCapabilities.get? shardId).getD .empty

end ShardRegistry

inductive RegistryCall
  | registerShard (shardId : Int) (nodeId address : String) (capabilities : List String) (nowNs : Int)
  | unregisterNode (nodeId : String)
  deriving DecidableEq

namespace RegistryCall

def apply (r : ShardRegistry) : RegistryCall → ShardRegistry
  | registerShard shardId nodeId address capabilities nowNs => r.registerShard shardId nodeId address capabilities nowNs
  | unregisterNode nodeId => r.unregisterNode nodeId

/-- The capabilities that a call names for a shard. -/
def named (shardId : Int) : RegistryCall → List String
  | registerShard shardId' _ _ capabilities _ => if shardId' = shardId then capabilities else []
  | unregisterNode _ => []

/-- The latest capabilities of a node, of which `before` were known, after a call. -/
def latest (nodeId : String) (before : Option (List String)) : RegistryCall → Option (List String)
  | registerShard _ nodeId' _ capabilities _ => if nodeId' = nodeId then some capabilities else before
  | unregisterNode nodeId' => if nodeId' = nodeId then none else before

/-- Whether a node is a member of a shard after a call. -/
def joined (shardId : Int) (nodeId : String) (before : Bool) : RegistryCall → Bool
  | registerShard shardId' nodeId' _ _ _ => before || (shardId' = shardId ∧ nodeId' = nodeId)
  | unregisterNode nodeId' => before && nodeId' ≠ nodeId

end RegistryCall

/-- What the calls have named for a shard. -/
def namedFor (calls : List RegistryCall) (shardId : Int) : List String := calls.flatMap (RegistryCall.named shardId)

/-- The capabilities of the last registration of a node, in whatever shard, since it left. -/
def latestOf (calls : List RegistryCall) (nodeId : String) : Option (List String) :=
  calls.foldl (RegistryCall.latest nodeId) none

/-- Whether the node has registered in the shard since it left. -/
def isMember (calls : List RegistryCall) (shardId : Int) (nodeId : String) : Bool :=
  calls.foldl (RegistryCall.joined shardId nodeId) false

/-- No capability named for a shard is lost by all of its members, and none of them has
brought one along, in another shard, that was never named for this one. -/
structure NothingLostOrBrought (calls : List RegistryCall) (shardId : Int) : Prop where
  notLost : ∀ c ∈ namedFor calls shardId, ∃ nodeId capabilities, isMember calls shardId nodeId = true ∧
    latestOf calls nodeId = some capabilities ∧ c ∈ capabilities
  notBrought : ∀ nodeId capabilities, isMember calls shardId nodeId = true → latestOf calls nodeId = some capabilities →
    ∀ c ∈ capabilities, c ∈ namedFor calls shardId

/-- The capabilities of a shard are those of its nodes. -/
def CapabilitiesOfMembers (r : ShardRegistry) (shardId : Int) : Prop :=
  ∀ c, c ∈ r.getShardCapabilities shardId ↔ ∃ node ∈ r.getShardNodes shardId, c ∈ node.capabilities

namespace ShardRegistry

variable {r : ShardRegistry} {shardId : Int} {nodeId c : String}

theorem mem_addAll {s : ListSet String} {values : List String} : c ∈ addAll s values ↔ c ∈ s ∨ c ∈ values := by
  induction values generalizing s with
  | nil => simp [addAll]
  | cons value rest ih =>
    have hstep : addAll s (value :: rest) = addAll (s.add value) rest := rfl
    rw [hstep, ih, ListSet.mem_add, List.mem_cons, or_comm (a := c = value), or_assoc]

theorem mem_setAt_upsert {table : Table Int (ListSet String)} {key : Int} {s : ListSet String} :
    c ∈ setAt (table.upsert key s) shardId ↔ if shardId = key then c ∈ s else c ∈ setAt table shardId := by
  rw [setAt, Table.get?_upsert]
  split <;> rfl

def latestIn (r : ShardRegistry) (nodeId : String) : Option (List String) := (r.nodes.get? nodeId).map NodeInfo.capabilities

/-- The members of the shards are known nodes. -/
def MembersKnown (r : ShardRegistry) : Prop := ∀ shardId nodeId, nodeId ∈ setAt r.shardMap shardId → ∃ node, r.nodes.get? nodeId = some node

/-- What the registry holds after a call, in terms of what it held before. -/
structure Follows (r : ShardRegistry) (call : RegistryCall) (r' : ShardRegistry) : Prop where
  known : r'.MembersKnown
  capabilities : ∀ shardId c, c ∈ r'.getShardCapabilities shardId ↔ c ∈ r.getShardCapabilities shardId ∨ c ∈ call.named shardId
  latest : ∀ nodeId, r'.latestIn nodeId = call.latest nodeId (r.latestIn nodeId)
  members : ∀ shardId nodeId, nodeId ∈ setAt r'.shardMap shardId ↔ call.joined shardId nodeId (nodeId ∈ setAt r.shardMap shardId) = true

theorem registerShard_nodes (r : ShardRegistry) (shardId : Int) (nodeId address : String) (capabilities : List String) (nowNs : Int)
    (id : String) : ∃ node : NodeInfo, node.capabilities = capabilities ∧
      (r.registerShard shardId nodeId address capabilities nowNs).nodes.get? id = if id = nodeId then some node else r.nodes.get? id := by
  rw [registerShard]
  cases r.nodes.get? nodeId with
  | none => exact ⟨_, rfl, Table.get?_upsert ..⟩
  | some node => exact ⟨_, rfl, Table.get?_upsert ..⟩

theorem follows_registerShard (h : r.MembersKnown) (shardId : Int) (nodeId address : String) (capabilities : List String) (nowNs : Int) :
    Follows r (.registerShard shardId nodeId address capabilities nowNs) (r.registerShard shardId nodeId address capabilities nowNs) := by
  have hmembers : ∀ s id, id ∈ setAt (r.registerShard shardId nodeId address capabilities nowNs).shardMap s ↔
      id ∈ setAt r.shardMap s ∨ (shardId = s ∧ nodeId = id) := by
    intro s id
    rw [registerShard, mem_setAt_upsert]
    by_cases hs : s = shardId
    · rw [if_pos hs, ListSet.mem_add, hs, eq_comm, or_comm, eq_self_iff_true, true_and]
    · rw [if_neg hs]
      exact (or_iff_left fun hboth => hs hboth.1.symm).symm
  refine ⟨fun s id hid => ?_, fun s c => ?_, fun id => ?_, fun s id => ?_⟩
  · obtain ⟨node, _, hget⟩ := r.registerShard_nodes shardId nodeId address capabilities nowNs id
    rw [hget]
    by_cases hsame : id = nodeId
    · exact ⟨node, if_pos hsame⟩
    · rw [if_neg hsame]
      have hold := ((hmembers s id).mp hid).resolve_right fun hboth => hsame hboth.2.symm
      exact h s id hold
  · have hupsert : c ∈ (r.registerShard shardId nodeId address capabilities nowNs).getShardCapabilities s ↔
        if s = shardId then c ∈ addAll (setAt r.shardCapabilities shardId) capabilities else c ∈ setAt r.shardCapabilities s :=
      mem_setAt_upsert
    rw [hupsert, RegistryCall.named]
    by_cases hs : s = shardId
    · rw [if_pos hs, if_pos hs.symm, mem_addAll, hs]
      rfl
    · rw [if_neg hs, if_neg (Ne.symm hs)]
      exact (or_iff_left List.not_mem_nil).symm
  · obtain ⟨node, hcapabilities, hget⟩ := r.registerShard_nodes shardId nodeId address capabilities nowNs id
    rw [latestIn, hget, RegistryCall.latest]
    by_cases hsame : id = nodeId
    · rw [if_pos hsame, if_pos hsame.symm, Option.map_some, hcapabilities]
    · rw [if_neg hsame, if_neg (Ne.symm hsame)]
      rfl
  · rw [hmembers, RegistryCall.joined, Bool.or_eq_true, decide_eq_true_eq, decide_eq_true_eq]

theorem follows_unregisterNode (h : r.MembersKnown) (nodeId : String) : Follows r (.unregisterNode nodeId) (r.unregisterNode nodeId) := by
  have hcapabilities : ∀ shardId, (r.unregisterNode nodeId).getShardCapabilities shardId = r.getShardCapabilities shardId := by
    intro shardId
    rw [unregisterNode]
    split <;> rfl
  have hnodes : ∀ id, (r.unregisterNode nodeId).nodes.get? id = if id = nodeId then none else r.nodes.get? id := by
    intro id
    rw [unregisterNode]
    split
    next hnone =>
      by_cases hsame : id = nodeId
      · rw [if_pos hsame, hsame, hnone]
      · rw [if_neg hsame]
    next => exact Table.get?_erase ..
  have hmembers : ∀ s id, id ∈ setAt (r.unregisterNode nodeId).shardMap s ↔ id ∈ setAt r.shardMap s ∧ id ≠ nodeId := by
    intro s id
    rw [unregisterNode]
    split
    next hnone =>
      refine (and_iff_left_of_imp fun hid hsame => ?_).symm
      obtain ⟨node, hsome⟩ := h s id hid
      rw [hsame, hnone] at hsome
      cases hsome
    next =>
      rw [setAt, setAt, Table.get?_mapRows]
      cases r.shardMap.get? s with
      | none => exact iff_of_false (ListSet.not_mem_empty id) fun hboth => ListSet.not_mem_empty id hboth.1
      | some nodeIds => exact ListSet.mem_filter.trans (and_congr_right fun _ => decide_eq_true_iff)
  refine ⟨fun s id hid => ?_, fun s c => ?_, fun id => ?_, fun s id => ?_⟩
  · obtain ⟨hold, hne⟩ := (hmembers s id).mp hid
    rw [hnodes, if_neg hne]
    exact h s id hold
  · rw [hcapabilities]
    exact (or_iff_left List.not_mem_nil).symm
  · rw [latestIn, hnodes, RegistryCall.latest]
    by_cases hsame : id = nodeId
    · rw [if_pos hsame, if_pos hsame.symm]
      rfl
    · rw [if_neg hsame, if_neg (Ne.symm hsame)]
      rfl
  · rw [hmembers, RegistryCall.joined, Bool.and_eq_true, decide_eq_true_eq, decide_eq_true_eq, ne_comm]

theorem follows_apply (h : r.MembersKnown) (call : RegistryCall) : Follows r call (call.apply r) := by
  cases call with
  | registerShard shardId nodeId address capabilities nowNs => exact follows_registerShard h shardId nodeId address capabilities nowNs
  | unregisterNode nodeId => exact follows_unregisterNode h nodeId

/-- What the registry holds after calls is what they have named, registered and joined. -/
theorem run_spec (h : r.MembersKnown) (calls : List RegistryCall) :
    (∀ shardId c, c ∈ (calls.foldl RegistryCall.apply r).getShardCapabilities shardId ↔
      c ∈ r.getShardCapabilities shardId ∨ c ∈ namedFor calls shardId) ∧
    (∀ nodeId, (calls.foldl RegistryCall.apply r).latestIn nodeId = calls.foldl (RegistryCall.latest nodeId) (r.latestIn nodeId)) ∧
    ∀ shardId nodeId, nodeId ∈ setAt (calls.foldl RegistryCall.apply r).shardMap shardId ↔
      calls.foldl (RegistryCall.joined shardId nodeId) (nodeId ∈ setAt r.shardMap shardId) = true := by
  induction calls generalizing r with
  | nil => exact ⟨fun _ _ => (or_iff_left List.not_mem_nil).symm, fun _ => rfl, fun _ _ => decide_eq_true_iff.symm⟩
  | cons call rest ih =>
    have hcall := follows_apply h call
    obtain ⟨hcapabilities, hlatest, hmembers⟩ := ih hcall.known
    refine ⟨fun shardId c => ?_, fun nodeId => ?_, fun shardId nodeId => ?_⟩
    · rw [List.foldl_cons, hcapabilities, hcall.capabilities, or_assoc, namedFor, namedFor, List.flatMap_cons, List.mem_append]
    · rw [List.foldl_cons, hlatest, hcall.latest]
      rfl
    · have hbefore : decide (nodeId ∈ setAt (call.apply r).shardMap shardId) =
          call.joined shardId nodeId (nodeId ∈ setAt r.shardMap shardId) :=
        Bool.eq_iff_iff.mpr (decide_eq_true_iff.trans (hcall.members shardId nodeId))
      rw [List.foldl_cons, hmembers, hbefore]
      rfl

theorem mem_getShardNodes {node : NodeInfo} : node ∈ r.getShardNodes shardId ↔
    ∃ nodeId ∈ setAt r.shardMap shardId, r.nodes.get? nodeId = some node := by
  rw [getShardNodes, setAt]
  cases r.shardMap.get? shardId with
  | none => exact iff_of_false List.not_mem_nil fun ⟨nodeId, hmem, _⟩ => ListSet.not_mem_empty nodeId hmem
  | some nodeIds => exact List.mem_filterMap

end ShardRegistry

open ShardRegistry in
/-- The capabilities of a shard are those of its members just when none is lost and none
has been brought along. -/
theorem capabilities_of_members_iff (calls : List RegistryCall) (shardId : Int) :
    CapabilitiesOfMembers (calls.foldl RegistryCall.apply .init) shardId ↔ NothingLostOrBrought calls shardId := by
  have hstart : ShardRegistry.init.MembersKnown := fun _ nodeId hid => absurd hid (ListSet.not_mem_empty nodeId)
  obtain ⟨hcapabilities, hlatest, hmembers⟩ := run_spec hstart calls
  have hkept : ∀ c, c ∈ (calls.foldl RegistryCall.apply .init).getShardCapabilities shardId ↔ c ∈ namedFor calls shardId :=
    fun c => (hcapabilities shardId c).trans (or_iff_right (ListSet.not_mem_empty c))
  have hpresent : ∀ c, (∃ node ∈ (calls.foldl RegistryCall.apply .init).getShardNodes shardId, c ∈ node.capabilities) ↔
      ∃ nodeId capabilities, isMember calls shardId nodeId = true ∧ latestOf calls nodeId = some capabilities ∧ c ∈ capabilities := by
    intro c
    have hisMember : ∀ nodeId, nodeId ∈ setAt (calls.foldl RegistryCall.apply .init).shardMap shardId ↔ isMember calls shardId nodeId = true :=
      hmembers shardId
    constructor
    · rintro ⟨node, hnode, hc⟩
      obtain ⟨nodeId, hmem, hget⟩ := mem_getShardNodes.mp hnode
      refine ⟨nodeId, node.capabilities, (hisMember nodeId).mp hmem, (hlatest nodeId).symm.trans ?_, hc⟩
      rw [latestIn, hget]
      rfl
    · rintro ⟨nodeId, capabilities, hmem, hcurrent, hc⟩
      obtain ⟨node, hget, rfl⟩ := Option.map_eq_some_iff.mp ((hlatest nodeId).trans hcurrent)
      exact ⟨node, mem_getShardNodes.mpr ⟨nodeId, (hisMember nodeId).mpr hmem, hget⟩, hc⟩
  constructor
  · intro h
    refine ⟨fun c hc => (hpresent c).mp ((h c).mp ((hkept c).mpr hc)), fun nodeId capabilities hmem hcurrent c hc => ?_⟩
    exact (hkept c).mp ((h c).mpr ((hpresent c).mpr ⟨nodeId, capabilities, hmem, hcurrent, hc⟩))
  · intro h c
    rw [hkept, hpresent]
    exact ⟨h.notLost c, fun ⟨nodeId, capabilities, hmem, hcurrent, hc⟩ => h.notBrought nodeId capabilities hmem hcurrent c hc⟩

/-- The only node of a shard leaves; the shard can still do what it could. -/
theorem capabilities_outlive_member :
    ¬CapabilitiesOfMembers ([.registerShard 0 "node-1" "http://node1:8000" ["worker"] 0, .unregisterNode "node-1"].foldl RegistryCall.apply .init) 0 := by
  intro h
  obtain ⟨node, hnode, _⟩ := (h "worker").mp (by decide)
  exact absurd hnode (by decide +revert)

end AgentNetwork.Sharding
