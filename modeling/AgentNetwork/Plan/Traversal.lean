import AgentNetwork.Library.Reachability
import AgentNetwork.Library.TopologicalOrder
import AgentNetwork.Plan.Views

namespace AgentNetwork.Plan.GraphView

open Relation Relational DepthFirst TopologicalOrder

inductive SortError
  | valueError (message : String)
  | outOfFuel
  deriving DecidableEq

variable (view : GraphView)

/-- More rounds than there are names in the two indexes. -/
def rounds : Nat := (view.edges.keys ++ view.reverseEdges.keys).length + 1

def getAncestors (taskId : String) : Option (ListSet String) := Reachability.foundFrom view.getParents view.rounds taskId

def getDescendants (taskId : String) : Option (ListSet String) := Reachability.foundFrom view.getChildren view.rounds taskId

variable {view}

def NodeOrder.toSet (order : NodeOrder view) : ListSet String := ⟨order.nodes, order.nodup⟩

/-- `topological_sort`; the sets are given in the order in which they are iterated. -/
def topologicalSort (order : NodeOrder view) (taskIds : Option (ListSet String)) : Except SortError (List String) :=
  let taskIds := taskIds.getD order.toSet
  match kahn view.getChildren taskIds with
  | none => .error .outOfFuel
  | some result =>
    if result.length ≠ taskIds.elems.length then
      .error (.valueError "Graph contains cycles - cannot perform topological sort")
    else .ok result

theorem get?_addParents {parent child : String} {children : List String} {reverseEdges : Table String (List String)} (v : String) :
    v ∈ ((children.foldl (addParent parent) reverseEdges).get? child).getD [] ↔
      v ∈ (reverseEdges.get? child).getD [] ∨ (v = parent ∧ child ∈ children) := by
  induction children generalizing reverseEdges with
  | nil => simp
  | cons c rest ih =>
    rw [List.foldl_cons, ih, addParent, Table.get?_upsert, List.mem_cons]
    by_cases hc : child = c
    · rw [if_pos hc, Option.getD_some, List.mem_append, List.mem_singleton, ← hc]
      tauto
    · rw [if_neg hc]
      tauto

theorem mem_getParents {edges : Table String (List String)} {u v : String} :
    u ∈ (init edges).getParents v ↔ v ∈ (init edges).getChildren u := by
  have hfold (entries : List (String × List String)) (reverseEdges : Table String (List String)) :
      u ∈ ((entries.foldl (fun acc entry => entry.2.foldl (addParent entry.1) acc) reverseEdges).get? v).getD [] ↔
        u ∈ (reverseEdges.get? v).getD [] ∨ ∃ entry ∈ entries, u = entry.1 ∧ v ∈ entry.2 := by
    induction entries generalizing reverseEdges with
    | nil => simp
    | cons entry rest ih => rw [List.foldl_cons, ih, get?_addParents, List.exists_mem_cons_iff, or_assoc]
  have hparents : u ∈ (init edges).getParents v ↔ ∃ entry ∈ edges.entries, u = entry.1 ∧ v ∈ entry.2 := by
    refine (hfold edges.entries .empty).trans (or_iff_right ?_)
    exact List.not_mem_nil
  rw [hparents, getChildren]
  constructor
  · rintro ⟨entry, hentry, rfl, hv⟩
    have hget : (init edges).edges.get? entry.1 = some entry.2 := Table.get?_eq_some_iff.mpr hentry
    rwa [hget]
  · intro hv
    cases hget : (init edges).edges.get? u with
    | none =>
      rw [hget] at hv
      cases hv
    | some children =>
      rw [hget] at hv
      exact ⟨(u, children), Table.get?_eq_some_iff.mp hget, rfl, hv⟩

theorem getChildren_mem (view : GraphView) : ∀ u, ∀ c ∈ view.getChildren u, c ∈ view.edges.keys ++ view.reverseEdges.keys := by
  intro u c hc
  refine List.mem_append_right _ ((view.mem_reverseEdges c).mpr ?_)
  unfold getChildren at hc
  cases hu : view.edges.get? u with
  | none =>
    rw [hu] at hc
    cases hc
  | some children =>
    rw [hu] at hc
    exact ⟨(u, children), Table.get?_eq_some_iff.mp hu, hc⟩

theorem getParents_mem (edges : Table String (List String)) :
    ∀ v, ∀ u ∈ (init edges).getParents v, u ∈ (init edges).edges.keys ++ (init edges).reverseEdges.keys := by
  intro v u hu
  have hv := mem_getParents.mp hu
  refine List.mem_append_left _ ?_
  by_contra hmissing
  rw [getChildren, Table.get?_eq_none_iff.mpr hmissing] at hv
  cases hv

theorem getDescendants_spec (view : GraphView) (taskId : String) : ∃ descendants, view.getDescendants taskId = some descendants ∧
    ∀ v, v ∈ descendants ↔ TransGen (Edge view.getChildren) taskId v :=
  Reachability.foundFrom_spec view.getChildren_mem (Nat.lt_succ_self _) taskId

/-- Going up from a task is going down to it. -/
theorem getAncestors_spec (edges : Table String (List String)) (taskId : String) :
    ∃ ancestors, (init edges).getAncestors taskId = some ancestors ∧
      ∀ v, v ∈ ancestors ↔ TransGen (Edge (init edges).getChildren) v taskId := by
  obtain ⟨ancestors, hfound, hmem⟩ := Reachability.foundFrom_spec (getParents_mem edges) (Nat.lt_succ_self _) taskId
  have hswap : Edge (init edges).getParents = Function.swap (Edge (init edges).getChildren) := by
    funext v u
    exact propext mem_getParents
  refine ⟨ancestors, hfound, fun v => ?_⟩
  rw [hmem, hswap, transGen_swap]

theorem topologicalSort_spec (order : NodeOrder view) (taskIds : Option (ListSet String)) :
    (topologicalSort order taskIds = .error (.valueError "Graph contains cycles - cannot perform topological sort") ↔
      ∃ v, TransGen (Inside view.getChildren (taskIds.getD order.toSet)) v v) ∧
    ((¬∃ v, TransGen (Inside view.getChildren (taskIds.getD order.toSet)) v v) →
      ∃ sorted, topologicalSort order taskIds = .ok sorted ∧ sorted.Perm (taskIds.getD order.toSet).elems ∧
        ∀ u v, Inside view.getChildren (taskIds.getD order.toSet) u v → sorted.idxOf u < sorted.idxOf v) := by
  obtain ⟨sorted, hkahn, hlength, hsorted⟩ := kahn_spec view.getChildren (taskIds.getD order.toSet)
  unfold topologicalSort
  dsimp only
  rw [hkahn]
  dsimp only
  by_cases hall : sorted.length = (taskIds.getD order.toSet).elems.length
  · have hacyclic := hlength.mp hall
    rw [if_neg (not_not.mpr hall)]
    exact ⟨⟨nofun, fun hcycle => absurd hcycle hacyclic⟩, fun _ => ⟨sorted, rfl, hsorted hall⟩⟩
  · have hcyclic := not_imp_comm.mp hlength.mpr hall
    rw [if_pos hall]
    exact ⟨⟨fun _ => hcyclic, fun _ => rfl⟩, fun hacyclic => absurd hcyclic hacyclic⟩

/-- The sort raises on the cycles inside the set and orders it otherwise; ancestors and
descendants are the tasks from which and to which a path of one edge or more leads. -/
theorem topologicalSort_and_reachability (edges : Table String (List String)) (order : NodeOrder (init edges))
    (taskIds : Option (ListSet String)) :
    ((topologicalSort order taskIds = .error (.valueError "Graph contains cycles - cannot perform topological sort") ↔
        ∃ v, TransGen (Inside (init edges).getChildren (taskIds.getD order.toSet)) v v) ∧
      ((¬∃ v, TransGen (Inside (init edges).getChildren (taskIds.getD order.toSet)) v v) →
        ∃ sorted, topologicalSort order taskIds = .ok sorted ∧ sorted.Perm (taskIds.getD order.toSet).elems ∧
          ∀ u v, Inside (init edges).getChildren (taskIds.getD order.toSet) u v → sorted.idxOf u < sorted.idxOf v)) ∧
    (∀ taskId, ∃ descendants, (init edges).getDescendants taskId = some descendants ∧
      ∀ v, v ∈ descendants ↔ TransGen (Edge (init edges).getChildren) taskId v) ∧
    ∀ taskId, ∃ ancestors, (init edges).getAncestors taskId = some ancestors ∧
      ∀ v, v ∈ ancestors ↔ TransGen (Edge (init edges).getChildren) v taskId :=
  ⟨topologicalSort_spec order taskIds, getDescendants_spec (init edges), getAncestors_spec edges⟩

end AgentNetwork.Plan.GraphView
