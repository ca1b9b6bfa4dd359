import AgentNetwork.Plan.Patching

namespace AgentNetwork.Plan.PatchValidator

open Relational DepthFirst

theorem mem_neighbors {graph : Graph} {u v : Json} :
    v ∈ neighbors graph u ↔ ∃ s, graph.get? u = some s ∧ v ∈ s := by
  unfold neighbors
  cases graph.get? u <;> simp [ListSet.mem_def]

/-- The graph that the edges build. -/
structure Holds (edges : List (Json × Json)) (graph : Graph) : Prop where
  neighbors : ∀ u v, v ∈ neighbors graph u ↔ (u, v) ∈ edges
  keys : ∀ u, u ∈ graph.keys ↔ ∃ v, (u, v) ∈ edges

theorem holds_empty : Holds [] .empty where
  neighbors := by simp [mem_neighbors]
  keys := by simp [Table.keys, Table.empty]

theorem Holds.addEdge {edges : List (Json × Json)} {graph : Graph} (h : Holds edges graph) (edge : Json × Json) :
    Holds (edges ++ [edge]) (graph.upsert edge.1 (((graph.get? edge.1).getD .empty).add edge.2)) where
  neighbors := by
    intro u v
    rw [List.mem_append, ← h.neighbors, mem_neighbors, mem_neighbors, List.mem_singleton, Prod.ext_iff]
    by_cases hu : u = edge.1
    · subst u
      cases graph.get? edge.1 <;> simp [or_comm]
    · simp [hu]
  keys := by
    intro u
    rw [Table.mem_keys_upsert, h.keys]
    simp only [List.mem_append, List.mem_singleton, Prod.ext_iff, exists_or]
    rw [or_comm]
    simp

/-- The ends of an edge can be keys of a dictionary. -/
def HashableEdge (edge : Json × Json) : Prop := edge.1.hashable = true ∧ edge.2.hashable = true

theorem addEdge_ok {graph : Graph} {edge : Json × Json} (h : HashableEdge edge) :
    addEdge graph edge = .ok (graph.upsert edge.1 (((graph.get? edge.1).getD .empty).add edge.2)) := by
  simp [addEdge, h.1, h.2]

theorem foldlM_addEdge {edges new : List (Json × Json)} {graph : Graph} (h : Holds edges graph)
    (hnew : ∀ edge ∈ new, HashableEdge edge) :
    ∃ graph', new.foldlM addEdge graph = .ok graph' ∧ Holds (edges ++ new) graph' := by
  induction new generalizing edges graph with
  | nil => exact ⟨graph, rfl, by simpa using h⟩
  | cons edge rest ih =>
    obtain ⟨hedge, hrest⟩ := List.forall_mem_cons.mp hnew
    obtain ⟨graph', hfold, hgraph'⟩ := ih (h.addEdge edge) hrest
    refine ⟨graph', ?_, by simpa using hgraph'⟩
    rw [List.foldlM_cons, addEdge_ok hedge]
    exact hfold

/-- What a search that ends with a finding leaves of the two sets. -/
def outcome (stack : List Json) : Option (Finding Json × List Json) → Option (Bool × Marks)
  | none => none
  | some (.clear, visited) => some (false, ⟨visited, stack⟩)
  | some (.back open' _, visited) => some (true, ⟨visited, open'⟩)

theorem visitNeighbors_eq {search : Json → Marks → Option (Bool × Marks)} {stack : List Json}
    {down : List Json → Json → Option (Finding Json × List Json)}
    (hdown : ∀ c visited, search c ⟨visited, stack⟩ = outcome stack (down visited c))
    {pending visited : List Json} :
    visitNeighbors search pending ⟨visited, stack⟩ = outcome stack (scan [] down stack visited pending) := by
  induction pending generalizing visited with
  | nil => rfl
  | cons c rest ih =>
    rw [visitNeighbors, scan]
    by_cases hc : c ∈ visited
    · rw [if_neg (not_not.mpr hc), if_neg (not_not.mpr hc)]
      by_cases hs : c ∈ stack
      · rw [if_pos hs, if_pos (Or.inl hs)]
        rfl
      · rw [if_neg hs, if_neg (by simpa using hs)]
        exact ih
    · rw [if_pos hc, if_pos hc, hdown c visited]
      cases down visited c with
      | none => rfl
      | some found =>
        obtain ⟨found, visited'⟩ := found
        cases found with
        | clear => exact ih
        | back open' w => rfl

theorem hasCycleFrom_eq {graph : Graph} {fuel : Nat} {stack visited : List Json} {node : Json} :
    hasCycleFrom graph fuel node ⟨visited, stack⟩ =
      outcome stack (explore (neighbors graph) [] fuel stack visited node) := by
  induction fuel generalizing stack visited node with
  | zero => rfl
  | succ fuel ih =>
    have hdown : ∀ c visited', hasCycleFrom graph fuel c ⟨visited', node :: stack⟩ =
        outcome (node :: stack) (explore (neighbors graph) [] fuel (node :: stack) visited' c) := fun _ _ => ih
    rw [hasCycleFrom, visitNeighbors_eq hdown, explore]
    cases scan [] (explore (neighbors graph) [] fuel (node :: stack)) (node :: stack) (node :: visited)
        (neighbors graph node) with
    | none => rfl
    | some found =>
      obtain ⟨found, visited'⟩ := found
      cases found with
      | clear => simp [outcome]
      | back open' w => rfl

/-- The loop over the parents finds a cycle if one of them leads to one. -/
theorem checkNodes_eq {graph : Graph} {fuel : Nat} {nodes : List Json}
    (hnodes : ∀ u v, Edge (neighbors graph) u v → v ∈ nodes) (hfuel : nodes.length ≤ fuel)
    {pending visited : List Json} (hpending : ∀ node ∈ pending, node ∈ nodes)
    (hsorted : Sorted (neighbors graph) [] [] visited) :
    ∃ found, checkNodes graph fuel pending visited = some found ∧
      (found = true ↔ ∃ node ∈ pending, Live (neighbors graph) node) := by
  induction pending generalizing visited with
  | nil => exact ⟨false, rfl, by simp⟩
  | cons node rest ih =>
    obtain ⟨hnode, hrest⟩ := List.forall_mem_cons.mp hpending
    rw [checkNodes]
    by_cases hv : node ∈ visited
    · rw [if_neg (not_not.mpr hv)]
      obtain ⟨found, hfound, hiff⟩ := ih hrest hsorted
      have hdead : ¬Live (neighbors graph) node := by simpa using hsorted node hv
      exact ⟨found, hfound, by simpa [hdead] using hiff⟩
    · have hunseen : DepthFirst.unseen nodes visited ≤ fuel := List.countP_le_length.trans hfuel
      have htotal := @explore_total _ _ (neighbors graph) [] nodes hnodes fuel [] visited node hnode hv hunseen
      obtain ⟨⟨found, visited'⟩, hexplore⟩ := Option.isSome_iff_exists.mp htotal
      have hsearch := explore_explores hexplore
      rw [if_pos hv, hasCycleFrom_eq, hexplore]
      cases found with
      | clear =>
        obtain ⟨hdead, hsorted'⟩ := hsearch.root_clear hsorted
        obtain ⟨found, hfound, hiff⟩ := ih hrest hsorted'
        exact ⟨found, hfound, by simpa [hdead] using hiff⟩
      | back open' w =>
        have hlive := (hsearch.root_back (List.forall_mem_nil _) (List.forall_mem_nil _) hv hsorted).1
        exact ⟨true, rfl, by simp [hlive]⟩

/-- `_detect_cycle` is exact on edges whose ends can be keys. -/
theorem detectCycle_eq {edges : List (Json × Json)} {newEdge : Json × Json}
    (h : ∀ edge ∈ edges, HashableEdge edge) (hnew : HashableEdge newEdge) :
    ∃ found, detectCycle edges newEdge = .ok found ∧ (found = true ↔ Cyclic (successors (edges ++ [newEdge]))) := by
  have hall : ∀ edge ∈ edges ++ [newEdge], HashableEdge edge := by
    intro edge hedge
    rcases List.mem_append.mp hedge with he | he
    · exact h edge he
    · exact List.mem_singleton.mp he ▸ hnew
  obtain ⟨graph, hfold, hgraph⟩ := foldlM_addEdge holds_empty hall
  rw [List.nil_append] at hgraph
  let nodes := (edges ++ [newEdge]).flatMap fun edge => [edge.1, edge.2]
  have hnodes : ∀ u v, (u, v) ∈ edges ++ [newEdge] → u ∈ nodes ∧ v ∈ nodes := by
    intro u v huv
    exact ⟨List.mem_flatMap.mpr ⟨(u, v), huv, by simp⟩, List.mem_flatMap.mpr ⟨(u, v), huv, by simp⟩⟩
  have hlength : nodes.length = 2 * (edges ++ [newEdge]).length := by
    simp [nodes, List.length_flatMap]
    omega
  have hkeys : ∀ node ∈ graph.keys, node ∈ nodes := by
    intro node hnode
    obtain ⟨v, hv⟩ := (hgraph.keys node).mp hnode
    exact (hnodes node v hv).1
  have hchildren : ∀ u v, Edge (neighbors graph) u v → v ∈ nodes :=
    fun u v huv => (hnodes u v ((hgraph.neighbors u v).mp huv)).2
  obtain ⟨found, hfound, hiff⟩ := checkNodes_eq hchildren hlength.le hkeys (List.forall_mem_nil _)
  have hdetect : detectCycle edges newEdge = .ok found := by
    simp only [detectCycle, hfold, hfound, bind, Except.bind]
  refine ⟨found, hdetect, hiff.trans ?_⟩
  have hparents : ∀ a b, Edge (neighbors graph) a b → a ∈ graph.keys :=
    fun a b hab => (hgraph.keys a).mpr ⟨b, (hgraph.neighbors a b).mp hab⟩
  rw [← cyclic_iff_live hparents]
  constructor
  · exact fun hc => hc.mono fun a b hab => edge_successors.mpr ((hgraph.neighbors a b).mp hab)
  · exact fun hc => hc.mono fun a b hab => (hgraph.neighbors a b).mpr (edge_successors.mp hab)

/-- An end that cannot be a key raises. -/
theorem detectCycle_unhashable {edges : List (Json × Json)} {newEdge : Json × Json}
    (h : ∀ edge ∈ edges, HashableEdge edge) (hnew : ¬HashableEdge newEdge) :
    ∃ value, detectCycle edges newEdge = .error (.unhashable value) := by
  obtain ⟨graph, hfold, _⟩ := foldlM_addEdge holds_empty h
  have hraise : ∃ value, addEdge graph newEdge = .error (.unhashable value) := by
    unfold addEdge
    by_cases hp : newEdge.1.hashable = false
    · exact ⟨newEdge.1, if_pos hp⟩
    · have hc : newEdge.2.hashable = false := by
        by_contra hc
        exact hnew ⟨by simpa using hp, by simpa using hc⟩
      exact ⟨newEdge.2, by rw [if_neg hp, if_pos hc]⟩
  obtain ⟨value, hvalue⟩ := hraise
  refine ⟨value, ?_⟩
  simp [detectCycle, List.foldlM_append, hfold, hvalue, bind, Except.bind]

end AgentNetwork.Plan.PatchValidator
