import AgentNetwork.Library.ListSet
import AgentNetwork.Library.Table

namespace AgentNetwork.Sharding

open Relational

structure DependencyEdge where
  fromShard : Int
  toShard : Int
  needId : String
  artifactRefs : List String
  deriving DecidableEq

structure DependencyDAG where
  graph : Table Int (ListSet Int)
  reverseGraph : Table Int (ListSet Int)
  edges : List DependencyEdge
  readyShards : ListSet Int
  completedShards : ListSet Int
  inDegree : Table Int Int
  deriving DecidableEq

namespace DependencyDAG

def init : DependencyDAG := ⟨.empty, .empty, [], .empty, .empty, .empty⟩

/-- `table[key].add(value)` on a `defaultdict(set)`. -/
def addTo (table : Table Int (ListSet Int)) (key value : Int) : Table Int (ListSet Int) :=
  table.upsert key (((table.get? key).getD .empty).add value)

/-- `table[key] += delta` on a `defaultdict(int)`. -/
def bump (table : Table Int Int) (key delta : Int) : Table Int Int :=
  table.upsert key ((table.get? key).getD 0 + delta)

def addDependency (fromShard toShard : Int) (needId : String) (artifactRefs : Option (List String))
    (dag : DependencyDAG) : DependencyDAG :=
  let edge : DependencyEdge := ⟨fromShard, toShard, needId, artifactRefs.getD []⟩
  let graph := addTo dag.graph fromShard toShard
  let inDegree := bump dag.inDegree fromShard 1
  let dag' := { dag with edges := dag.edges ++ [edge], reverseGraph := addTo dag.reverseGraph toShard fromShard }
  if graph.contains toShard then { dag' with graph := graph, inDegree := inDegree }
  else { dag' with graph := graph.upsert toShard .empty, inDegree := inDegree.upsert toShard 0 }

/-- The loop of `mark_shard_complete` over the dependents, with the shards that
became ready so far. -/
def release : List Int → ListSet Int × DependencyDAG → ListSet Int × DependencyDAG
  | [], result => result
  | dependent :: rest, (newlyReady, dag) =>
    let dag := { dag with inDegree := bump dag.inDegree dependent (-1) }
    if dag.inDegree.get? dependent = some 0 ∧ dependent ∉ dag.completedShards then
      release rest (newlyReady.add dependent, { dag with readyShards := dag.readyShards.add dependent })
    else release rest (newlyReady, dag)

/-- `mark_shard_complete`: the shards that became ready, and the graph it leaves. -/
def markShardComplete (shardId : Int) (dag : DependencyDAG) : ListSet Int × DependencyDAG :=
  let dag := { dag with completedShards := dag.completedShards.add shardId }
  release ((dag.reverseGraph.get? shardId).getD .empty).elems (.empty, dag)

def getReadyShards (dag : DependencyDAG) : List Int :=
  (dag.inDegree.entries.filter fun entry => entry.2 = 0 ∧ entry.1 ∉ dag.completedShards).map Prod.fst

def getDependencies (shardId : Int) (dag : DependencyDAG) : ListSet Int := (dag.graph.get? shardId).getD .empty

def getDependents (shardId : Int) (dag : DependencyDAG) : ListSet Int := (dag.reverseGraph.get? shardId).getD .empty

def getBlockingShards (shardId : Int) (dag : DependencyDAG) : ListSet Int :=
  (dag.getDependencies shardId).diff dag.completedShards

end DependencyDAG

structure RollbackRecord where
  shardId : Int
  reason : String
  artifactRefs : List String
  salvaged : Bool
  timestampNs : Int
  deriving DecidableEq

structure RollbackHandler where
  rollbackHistory : List RollbackRecord
  salvagedArtifacts : Table Int (List String)
  deriving DecidableEq

namespace RollbackHandler

def init : RollbackHandler := ⟨[], .empty⟩

def rollbackShard (shardId : Int) (reason : String) (artifactRefs : Option (List String)) (timestampNs : Int)
    (h : RollbackHandler) : RollbackHandler :=
  { h with rollbackHistory := h.rollbackHistory ++ [⟨shardId, reason, artifactRefs.getD [], false, timestampNs⟩] }

/-- The first record of the shard is marked as salvaged. -/
def markFirst (shardId : Int) : List RollbackRecord → List RollbackRecord
  | [] => []
  | record :: rest => if record.shardId = shardId then { record with salvaged := true } :: rest else record :: markFirst shardId rest

/-- The loop over `reversed(self.rollback_history)`. -/
def markLast (shardId : Int) (records : List RollbackRecord) : List RollbackRecord := (markFirst shardId records.reverse).reverse

def salvagePartialWork (shardId : Int) (artifactRefs : List String) (h : RollbackHandler) : RollbackHandler where
  salvagedArtifacts := artifactRefs.foldl (fun table artifactRef =>
    table.upsert shardId ((table.get? shardId).getD [] ++ [artifactRef])) h.salvagedArtifacts
  rollbackHistory := markLast shardId h.rollbackHistory

def getSalvagedArtifacts (shardId : Int) (h : RollbackHandler) : List String := (h.salvagedArtifacts.get? shardId).getD []

def getRollbackHistory (shardId : Option Int) (h : RollbackHandler) : List RollbackRecord :=
  match shardId with
  | some shardId => h.rollbackHistory.filter fun record => record.shardId = shardId
  | none => h.rollbackHistory

def clearHistory (_ : RollbackHandler) : RollbackHandler := init

end RollbackHandler

inductive RollbackCall
  | rollbackShard (shardId : Int) (reason : String) (artifactRefs : Option (List String)) (timestampNs : Int)
  | salvagePartialWork (shardId : Int) (artifactRefs : List String)
  | clearHistory
  deriving DecidableEq

namespace RollbackCall

def apply (h : RollbackHandler) : RollbackCall → RollbackHandler
  | rollbackShard shardId reason artifactRefs timestampNs => h.rollbackShard shardId reason artifactRefs timestampNs
  | salvagePartialWork shardId artifactRefs => h.salvagePartialWork shardId artifactRefs
  | clearHistory => h.clearHistory

/-- The calls since the last `clear_history`. -/
def sinceClear (calls : List RollbackCall) : List RollbackCall := (calls.reverse.takeWhile fun call => call ≠ clearHistory).reverse

/-- Work of the shard is salvaged before the shard is rolled back again. -/
def salvagedBefore (shardId : Int) : List RollbackCall → Bool
  | [] => false
  | rollbackShard shardId' _ _ _ :: rest => shardId' ≠ shardId && salvagedBefore shardId rest
  | salvagePartialWork shardId' _ :: rest => shardId' = shardId || salvagedBefore shardId rest
  | clearHistory :: rest => salvagedBefore shardId rest

/-- The rollbacks among the calls, with what becomes of the shard's work after each. -/
def rollbacks : List RollbackCall → List RollbackRecord
  | [] => []
  | rollbackShard shardId reason artifactRefs timestampNs :: rest =>
    ⟨shardId, reason, artifactRefs.getD [], salvagedBefore shardId rest, timestampNs⟩ :: rollbacks rest
  | salvagePartialWork _ _ :: rest | clearHistory :: rest => rollbacks rest

def salvagedRefs (shardId : Int) : RollbackCall → List String
  | salvagePartialWork shardId' artifactRefs => if shardId' = shardId then artifactRefs else []
  | _ => []

end RollbackCall

section Rollbacks

open RollbackHandler RollbackCall

variable {shardId : Int} {calls : List RollbackCall}

theorem sinceClear_concat (calls : List RollbackCall) (call : RollbackCall) :
    sinceClear (calls ++ [call]) = if call = .clearHistory then [] else sinceClear calls ++ [call] := by
  rw [sinceClear, List.reverse_concat, List.takeWhile_cons]
  by_cases h : call = .clearHistory
  · rw [if_pos h, h]
    rfl
  · rw [if_neg h, if_pos (decide_eq_true h), List.reverse_cons, sinceClear]

theorem salvagedBefore_rollback (s : Int) (reason : String) (artifactRefs : Option (List String)) (timestampNs : Int) :
    salvagedBefore shardId (calls ++ [.rollbackShard s reason artifactRefs timestampNs]) = salvagedBefore shardId calls := by
  induction calls with
  | nil => exact Bool.and_false _
  | cons call rest ih => cases call <;> simp only [List.cons_append, salvagedBefore, ih]

theorem rollbacks_rollback (s : Int) (reason : String) (artifactRefs : Option (List String)) (timestampNs : Int) :
    rollbacks (calls ++ [.rollbackShard s reason artifactRefs timestampNs]) =
      rollbacks calls ++ [⟨s, reason, artifactRefs.getD [], false, timestampNs⟩] := by
  induction calls with
  | nil => rfl
  | cons call rest ih => cases call <;> simp only [List.cons_append, rollbacks, ih, salvagedBefore_rollback]

theorem salvagedBefore_salvage (s : Int) (artifactRefs : List String) :
    salvagedBefore shardId (calls ++ [.salvagePartialWork s artifactRefs]) =
      (salvagedBefore shardId calls || (s = shardId && (rollbacks calls).all fun record => record.shardId ≠ shardId)) := by
  induction calls with
  | nil => simp [salvagedBefore, rollbacks]
  | cons call rest ih =>
    cases call with
    | rollbackShard s' reason refs timestampNs =>
      simp only [List.cons_append, salvagedBefore, rollbacks, ih, List.all_cons]
      by_cases hs : s' = shardId <;> simp [hs]
    | salvagePartialWork s' refs => simp only [List.cons_append, salvagedBefore, rollbacks, ih, Bool.or_assoc]
    | clearHistory => exact ih

theorem markFirst_append {records : List RollbackRecord} (record : RollbackRecord) :
    markFirst shardId (records ++ [record]) =
      if records.all (fun r => r.shardId ≠ shardId) then records ++ [if record.shardId = shardId then { record with salvaged := true } else record]
      else markFirst shardId records ++ [record] := by
  induction records with
  | nil => simp only [List.nil_append, markFirst, List.all_nil, if_true]; split <;> rfl
  | cons head rest ih =>
    rw [List.cons_append, markFirst, markFirst, List.all_cons]
    by_cases hhead : head.shardId = shardId
    · simp [hhead]
    · rw [if_neg hhead, if_neg hhead, decide_eq_true hhead, Bool.true_and, ih]
      split <;> rfl

theorem markLast_cons {records : List RollbackRecord} (record : RollbackRecord) :
    markLast shardId (record :: records) =
      if records.all (fun r => r.shardId ≠ shardId) then (if record.shardId = shardId then { record with salvaged := true } else record) :: records
      else record :: markLast shardId records := by
  rw [markLast, List.reverse_cons, markFirst_append, List.all_reverse]
  split
  · rw [List.reverse_concat, List.reverse_reverse]
  · rw [List.reverse_concat, markLast]

theorem markLast_of_all {records : List RollbackRecord} (h : records.all (fun r => r.shardId ≠ shardId) = true) :
    markLast shardId records = records := by
  have hfirst : ∀ l : List RollbackRecord, l.all (fun r => r.shardId ≠ shardId) = true → markFirst shardId l = l := by
    intro l hl
    induction l with
    | nil => rfl
    | cons head rest ih =>
      obtain ⟨hhead, hrest⟩ := Bool.and_eq_true_iff.mp (List.all_cons ▸ hl)
      rw [markFirst, if_neg (of_decide_eq_true hhead), ih hrest]
  rw [markLast, hfirst _ (List.all_reverse.trans h), List.reverse_reverse]

theorem rollbacks_salvage (artifactRefs : List String) :
    rollbacks (calls ++ [.salvagePartialWork shardId artifactRefs]) = markLast shardId (rollbacks calls) := by
  induction calls with
  | nil => rfl
  | cons call rest ih =>
    cases call with
    | rollbackShard s reason refs timestampNs =>
      rw [List.cons_append, rollbacks, rollbacks, ih, markLast_cons, salvagedBefore_salvage]
      by_cases hs : s = shardId
      · subst hs
        split
        next hall => rw [markLast_of_all hall, hall, decide_eq_true rfl, Bool.and_true, Bool.or_true, if_pos rfl]
        next hall => rw [Bool.eq_false_iff.mpr hall, Bool.and_false, Bool.or_false]
      · rw [decide_eq_false (Ne.symm hs), Bool.false_and, Bool.or_false, if_neg hs]
        split
        next hall => rw [markLast_of_all hall]
        next => rfl
    | salvagePartialWork | clearHistory => exact ih

theorem salvaged_foldl (s : Int) (artifactRefs : List String) (table : Table Int (List String)) :
    ((artifactRefs.foldl (fun table artifactRef => table.upsert s ((table.get? s).getD [] ++ [artifactRef])) table).get? shardId).getD [] =
      (table.get? shardId).getD [] ++ if s = shardId then artifactRefs else [] := by
  induction artifactRefs generalizing table with
  | nil => simp
  | cons artifactRef rest ih =>
    rw [List.foldl_cons, ih, Table.get?_upsert]
    by_cases hs : s = shardId
    · subst hs
      simp
    · simp [hs, Ne.symm hs]

/-- The history is what has been rolled back since it was last cleared, in order; a record
is salvaged just when work of its shard has been salvaged since, and before the shard's
next rollback. The artifacts salvaged of a shard are all those since the last clearing. -/
theorem rollback_history_exact (calls : List RollbackCall) :
    (calls.foldl RollbackCall.apply .init).getRollbackHistory none = rollbacks (sinceClear calls) ∧
      ∀ shardId, (calls.foldl RollbackCall.apply .init).getSalvagedArtifacts shardId = (sinceClear calls).flatMap (salvagedRefs shardId) := by
  induction calls using List.reverseRecOn with
  | nil => exact ⟨rfl, fun _ => rfl⟩
  | append_singleton calls call ih =>
    obtain ⟨hhistory, hsalvaged⟩ := ih
    have hhistory : (calls.foldl RollbackCall.apply .init).rollbackHistory = rollbacks (sinceClear calls) := hhistory
    rw [List.foldl_append, sinceClear_concat]
    cases call with
    | rollbackShard s reason artifactRefs timestampNs =>
      rw [if_neg (fun h => nomatch h), rollbacks_rollback, ← hhistory]
      refine ⟨rfl, fun shardId => (hsalvaged shardId).trans ?_⟩
      rw [List.flatMap_append]
      exact (List.append_nil _).symm
    | salvagePartialWork s artifactRefs =>
      rw [if_neg (fun h => nomatch h), rollbacks_salvage, ← hhistory]
      refine ⟨rfl, fun shardId => ?_⟩
      rw [List.flatMap_append, ← hsalvaged]
      exact (salvaged_foldl s artifactRefs _).trans (congrArg _ (List.append_nil _).symm)
    | clearHistory => exact ⟨rfl, fun _ => rfl⟩

end Rollbacks

end AgentNetwork.Sharding
