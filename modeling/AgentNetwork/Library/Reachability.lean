import AgentNetwork.Library.DepthFirst
import AgentNetwork.Library.ListSet
import Mathlib.Data.List.Perm.Subperm

/-! What a queue of nodes to visit finds, in a graph given by the children of each node. -/

namespace Reachability

open Relation DepthFirst

variable {α : Type} [DecidableEq α] (children : α → List α)

/-- The children of a node that are new are found and wait in the queue. -/
def discover : List α → ListSet α × List α → ListSet α × List α
  | [], s => s
  | child :: rest, (found, queue) =>
    if child ∈ found then discover rest (found, queue) else discover rest (found.add child, queue ++ [child])

/-- What is found from the queue on; each round takes its first node. -/
def spread : Nat → List α → ListSet α → ListSet α → Option (ListSet α)
  | _, [], found, _ => some found
  | 0, _ :: _, _, _ => none
  | fuel + 1, current :: queue, found, visited =>
    if current ∈ visited then spread fuel queue found visited
    else spread fuel (discover (children current) (found, queue)).2 (discover (children current) (found, queue)).1
      (visited.add current)

def foundFrom (fuel : Nat) (start : α) : Option (ListSet α) := spread children fuel [start] .empty .empty

variable {children}

/-- The new nodes are found and queued, each of them once. -/
theorem discover_spec (cs : List α) (found : ListSet α) (queue : List α) :
    ∃ added, (discover cs (found, queue)).1.elems = found.elems ++ added ∧ (discover cs (found, queue)).2 = queue ++ added ∧
      (∀ v ∈ added, v ∈ cs) ∧ ∀ v ∈ cs, v ∈ found.elems ++ added := by
  induction cs generalizing found queue with
  | nil => exact ⟨[], (List.append_nil _).symm, (List.append_nil _).symm, List.forall_mem_nil _, List.forall_mem_nil _⟩
  | cons child rest ih =>
    unfold discover
    by_cases hchild : child ∈ found
    · obtain ⟨added, hfound, hqueue, hnew, hall⟩ := ih found queue
      rw [if_pos hchild]
      refine ⟨added, hfound, hqueue, fun v hv => List.mem_cons_of_mem _ (hnew v hv), ?_⟩
      exact List.forall_mem_cons.mpr ⟨List.mem_append_left _ hchild, hall⟩
    · obtain ⟨added, hfound, hqueue, hnew, hall⟩ := ih (found.add child) (queue ++ [child])
      rw [if_neg hchild]
      rw [ListSet.elems_add_of_not_mem hchild, List.append_assoc] at hfound
      rw [List.append_assoc] at hqueue
      refine ⟨[child] ++ added, hfound, hqueue, ?_, ?_⟩
      · exact List.forall_mem_cons.mpr ⟨List.mem_cons_self, fun v hv => List.mem_cons_of_mem _ (hnew v hv)⟩
      · rw [ListSet.elems_add_of_not_mem hchild, List.append_assoc] at hall
        refine List.forall_mem_cons.mpr ⟨?_, hall⟩
        exact List.mem_append_right _ (List.mem_append_left _ (List.mem_singleton_self child))

/-- What is found can be reached, and what is not expanded yet waits in the queue. -/
structure Progress (children : α → List α) (start : α) (queue : List α) (found visited : ListSet α) : Prop where
  reached : ∀ v ∈ found, TransGen (Edge children) start v
  queued : ∀ v ∈ queue, v = start ∨ v ∈ found
  pending : ∀ v, v = start ∨ v ∈ found → v ∈ visited ∨ v ∈ queue
  expanded : ∀ v ∈ visited, ∀ c ∈ children v, c ∈ found

section Rounds

variable {start current : α} {queue : List α} {found visited : ListSet α}

omit [DecidableEq α] in
theorem progress_start (start : α) : Progress children start [start] .empty .empty where
  reached := fun v hv => absurd hv (ListSet.not_mem_empty v)
  queued := fun _ hv => Or.inl (List.mem_singleton.mp hv)
  pending := fun v hv => Or.inr (List.mem_singleton.mpr (hv.resolve_right (ListSet.not_mem_empty v)))
  expanded := fun v hv => absurd hv (ListSet.not_mem_empty v)

omit [DecidableEq α] in
theorem Progress.skip (h : Progress children start (current :: queue) found visited) (hseen : current ∈ visited) :
    Progress children start queue found visited where
  reached := h.reached
  queued := fun v hv => h.queued v (List.mem_cons_of_mem _ hv)
  pending := by
    intro v hv
    rcases h.pending v hv with hvisited | hqueue
    · exact Or.inl hvisited
    · rcases List.mem_cons.mp hqueue with rfl | hqueue
      · exact Or.inl hseen
      · exact Or.inr hqueue
  expanded := h.expanded

theorem Progress.expand (h : Progress children start (current :: queue) found visited) :
    Progress children start (discover (children current) (found, queue)).2 (discover (children current) (found, queue)).1
      (visited.add current) := by
  obtain ⟨added, hfound, hqueue, hnew, hall⟩ := discover_spec (children current) found queue
  have hmem : ∀ v, v ∈ (discover (children current) (found, queue)).1 ↔ v ∈ found ∨ v ∈ added := by
    intro v
    rw [ListSet.mem_def, hfound, List.mem_append]
    rfl
  have hcurrent : ∀ v, Edge children current v → TransGen (Edge children) start v := by
    intro v hedge
    rcases h.queued current List.mem_cons_self with rfl | hin
    · exact .single hedge
    · exact (h.reached current hin).tail hedge
  rw [hqueue]
  refine ⟨fun v hv => ?_, fun v hv => ?_, fun v hv => ?_, fun v hv c hc => ?_⟩
  · rcases (hmem v).mp hv with hv | hv
    · exact h.reached v hv
    · exact hcurrent v (hnew v hv)
  · rw [hmem]
    rcases List.mem_append.mp hv with hv | hv
    · exact (h.queued v (List.mem_cons_of_mem _ hv)).imp_right Or.inl
    · exact Or.inr (Or.inr hv)
  · rw [hmem, ← or_assoc] at hv
    rw [ListSet.mem_add, List.mem_append]
    rcases hv with hv | hv
    · rcases h.pending v hv with hvisited | hwaiting
      · exact Or.inl (Or.inr hvisited)
      · rcases List.mem_cons.mp hwaiting with rfl | hwaiting
        · exact Or.inl (Or.inl rfl)
        · exact Or.inr (Or.inl hwaiting)
    · exact Or.inr (Or.inr hv)
  · rw [hmem]
    rcases ListSet.mem_add.mp hv with rfl | hv
    · exact List.mem_append.mp (hall c hc)
    · exact Or.inl (h.expanded v hv c hc)

omit [DecidableEq α] in
theorem Progress.complete (h : Progress children start [] found visited) (v : α) :
    v ∈ found ↔ TransGen (Edge children) start v := by
  have hvisited : ∀ v, v = start ∨ v ∈ found → v ∈ visited := fun v hv => (h.pending v hv).resolve_right List.not_mem_nil
  refine ⟨h.reached v, fun hreach => ?_⟩
  induction hreach with
  | single hedge => exact h.expanded start (hvisited start (Or.inl rfl)) _ hedge
  | tail _ hedge ih => exact h.expanded _ (hvisited _ (Or.inr ih)) _ hedge

/-- Each round takes a node from the queue, and a node enters it once, when it is found. -/
theorem Progress.spread (h : Progress children start queue found visited) {nodes : List α}
    (hnodes : ∀ v, ∀ c ∈ children v, c ∈ nodes) (hfound : ∀ v ∈ found, v ∈ nodes) {fuel : Nat}
    (hfuel : queue.length + nodes.length ≤ fuel + found.elems.length) :
    ∃ result, Reachability.spread children fuel queue found visited = some result ∧
      ∀ v, v ∈ result ↔ TransGen (Edge children) start v := by
  induction fuel generalizing queue found visited with
  | zero =>
    cases queue with
    | nil => exact ⟨found, rfl, h.complete⟩
    | cons current queue =>
      have hle : found.elems.length ≤ nodes.length := (found.nodup.subperm hfound).length_le
      simp only [List.length_cons] at hfuel
      omega
  | succ fuel ih =>
    cases queue with
    | nil => exact ⟨found, rfl, h.complete⟩
    | cons current queue =>
      simp only [List.length_cons] at hfuel
      unfold Reachability.spread
      by_cases hseen : current ∈ visited
      · rw [if_pos hseen]
        exact ih (h.skip hseen) hfound (by omega)
      · rw [if_neg hseen]
        obtain ⟨added, hfound', hqueue', hnew, -⟩ := discover_spec (children current) found queue
        refine ih h.expand (fun v hv => ?_) ?_
        · rw [ListSet.mem_def, hfound'] at hv
          rcases List.mem_append.mp hv with hv | hv
          · exact hfound v hv
          · exact hnodes current v (hnew v hv)
        · rw [hfound', hqueue', List.length_append, List.length_append]
          omega

/-- What is found from a node is what can be reached from it by one edge or more. -/
theorem foundFrom_spec {nodes : List α} (hnodes : ∀ v, ∀ c ∈ children v, c ∈ nodes) {fuel : Nat}
    (hfuel : nodes.length < fuel) (start : α) :
    ∃ result, foundFrom children fuel start = some result ∧ ∀ v, v ∈ result ↔ TransGen (Edge children) start v := by
  refine (progress_start start).spread hnodes (fun v hv => absurd hv (ListSet.not_mem_empty v)) ?_
  rw [List.length_singleton]
  omega

end Rounds

end Reachability
