import AgentNetwork.Library.DepthFirst
import AgentNetwork.Library.ListSet
import Mathlib.Algebra.BigOperators.Group.Finset.Basic
import Mathlib.Algebra.Order.BigOperators.Group.Finset
import Mathlib.Data.List.Perm.Subperm
import Mathlib.Order.WellFoundedSet

/-! Kahn's algorithm on the part of a graph that lies in a set of nodes. -/

namespace TopologicalOrder

open Relation DepthFirst

variable {α : Type} [DecidableEq α] (children : α → List α) (nodes : ListSet α)

def Inside (u v : α) : Prop := u ∈ nodes ∧ v ∈ nodes ∧ Edge children u v

/-- One edge of a parent more for each of its children in the set. -/
def countChildren (inDegree : α → Int) : List α → α → Int
  | [] => inDegree
  | child :: rest =>
    if child ∈ nodes then countChildren (Function.update inDegree child (inDegree child + 1)) rest else countChildren inDegree rest

/-- How many edges from nodes of the set end in each of them. -/
def inDegrees : α → Int := nodes.elems.foldl (fun inDegree parent => countChildren nodes inDegree (children parent)) fun _ => 0

/-- Takes the edges to the children away; a child that has none left is queued. -/
def release : List α → (α → Int) × List α → (α → Int) × List α
  | [], s => s
  | child :: rest, (inDegree, queue) =>
    if child ∈ nodes then
      let left := inDegree child - 1
      release rest (Function.update inDegree child left, if left = 0 then queue ++ [child] else queue)
    else release rest (inDegree, queue)

/-- The loop over the queue; each round takes its first node. -/
def drain : Nat → List α → (α → Int) → List α → Option (List α)
  | _, [], _, result => some result
  | 0, _ :: _, _, _ => none
  | fuel + 1, current :: queue, inDegree, result =>
    drain fuel (release nodes (children current) (inDegree, queue)).2 (release nodes (children current) (inDegree, queue)).1
      (result ++ [current])

/-- The nodes that the loop takes, starting with those in which no edge ends. -/
def kahn : Option (List α) :=
  let inDegree := inDegrees children nodes
  drain children nodes nodes.elems.length (nodes.elems.filter fun v => inDegree v = 0) inDegree []

variable {children nodes}

theorem countChildren_eq (cs : List α) (inDegree : α → Int) (v : α) :
    countChildren nodes inDegree cs v = inDegree v + if v ∈ nodes then (cs.count v : Int) else 0 := by
  induction cs generalizing inDegree with
  | nil => simp [countChildren]
  | cons child rest ih =>
    unfold countChildren
    by_cases hchild : child ∈ nodes
    · rw [if_pos hchild, ih, List.count_cons]
      by_cases hv : v = child
      · subst hv
        simp only [Function.update_self, if_pos hchild, beq_self_eq_true, if_true]
        omega
      · have hbeq : (child == v) = false := beq_eq_false_iff_ne.mpr (Ne.symm hv)
        rw [Function.update_of_ne hv, hbeq]
        simp
    · rw [if_neg hchild, ih, List.count_cons]
      by_cases hv : v ∈ nodes
      · have hbeq : (child == v) = false := beq_eq_false_iff_ne.mpr fun he => hchild (he ▸ hv)
        rw [hbeq]
        simp
      · rw [if_neg hv, if_neg hv]

theorem inDegrees_eq (v : α) (hv : v ∈ nodes) :
    inDegrees children nodes v = ∑ u ∈ nodes.elems.toFinset, ((children u).count v : Int) := by
  have hfold (l : List α) (inDegree : α → Int) :
      (l.foldl (fun inDegree parent => countChildren nodes inDegree (children parent)) inDegree) v =
        inDegree v + (l.map fun u => ((children u).count v : Int)).sum := by
    induction l generalizing inDegree with
    | nil => simp
    | cons u rest ih =>
      rw [List.foldl_cons, ih, countChildren_eq, if_pos hv, List.map_cons, List.sum_cons, add_assoc]
  rw [inDegrees, hfold, List.sum_toFinset _ nodes.nodup, zero_add]

/-- The edges to the children are gone; those that had some and have none left are queued once. -/
theorem release_spec (cs : List α) (inDegree : α → Int) (queue : List α)
    (henough : ∀ v ∈ nodes, (cs.count v : Int) ≤ inDegree v) :
    (∀ v ∈ nodes, (release nodes cs (inDegree, queue)).1 v = inDegree v - cs.count v) ∧
    ∃ added, (release nodes cs (inDegree, queue)).2 = queue ++ added ∧ added.Nodup ∧
      ∀ v, v ∈ added ↔ v ∈ nodes ∧ 0 < inDegree v ∧ inDegree v = cs.count v := by
  induction cs generalizing inDegree queue with
  | nil =>
    refine ⟨fun v _ => by simp [release], [], (List.append_nil _).symm, List.nodup_nil, fun v => ?_⟩
    simp only [List.not_mem_nil, List.count_nil, false_iff]
    omega
  | cons child rest ih =>
    unfold release
    by_cases hchild : child ∈ nodes
    · rw [if_pos hchild]
      dsimp only
      have hcount : ∀ v, ((child :: rest).count v : Int) = rest.count v + if v = child then 1 else 0 := by
        intro v
        rw [List.count_cons]
        by_cases hv : v = child
        · subst hv
          simp
        · have hbeq : (child == v) = false := beq_eq_false_iff_ne.mpr (Ne.symm hv)
          simp [hbeq, hv]
      have hleft : ∀ v, Function.update inDegree child (inDegree child - 1) v = inDegree v - if v = child then 1 else 0 := by
        intro v
        by_cases hv : v = child
        · rw [hv, Function.update_self, if_pos rfl]
        · rw [Function.update_of_ne hv, if_neg hv, sub_zero]
      have henough' : ∀ v ∈ nodes, (rest.count v : Int) ≤ Function.update inDegree child (inDegree child - 1) v := by
        intro v hv
        have hle := henough v hv
        rw [hcount] at hle
        rw [hleft]
        omega
      obtain ⟨hdegree, added, hqueue, hnodup, hadded⟩ :=
        ih (Function.update inDegree child (inDegree child - 1)) (if inDegree child - 1 = 0 then queue ++ [child] else queue) henough'
      refine ⟨fun v hv => ?_, ?_⟩
      · rw [hdegree v hv, hleft, hcount]
        omega
      have hlast := henough' child hchild
      rw [hleft, if_pos rfl] at hlast
      by_cases hzero : inDegree child - 1 = 0
      · -- the last edge to the child: it is queued here and not again
        rw [if_pos hzero, List.append_assoc] at hqueue
        rw [if_pos hzero]
        refine ⟨[child] ++ added, hqueue, ?_, fun v => ?_⟩
        · refine List.nodup_cons.mpr ⟨fun hm => ?_, hnodup⟩
          have hpos := ((hadded child).mp hm).2.1
          rw [hleft, if_pos rfl] at hpos
          omega
        · rw [List.mem_append, List.mem_singleton, hadded, hleft, hcount]
          by_cases hv : v = child
          · subst hv
            simp only [if_true, true_or, true_iff]
            exact ⟨hchild, by omega, by omega⟩
          · simp only [hv, if_false, false_or, sub_zero, add_zero]
      · rw [if_neg hzero] at hqueue
        rw [if_neg hzero]
        refine ⟨added, hqueue, hnodup, fun v => ?_⟩
        rw [hadded, hleft, hcount]
        by_cases hv : v = child
        · subst hv
          simp only [if_true]
          have hle := henough v hchild
          rw [hcount, if_pos rfl] at hle
          refine and_congr_right fun _ => ?_
          omega
        · simp only [hv, if_false, sub_zero, add_zero]
    · rw [if_neg hchild]
      have hcount : ∀ v ∈ nodes, (child :: rest).count v = rest.count v :=
        fun v hv => List.count_cons_of_ne fun (he : child = v) => hchild (he ▸ hv)
      obtain ⟨hdegree, added, hqueue, hnodup, hadded⟩ := ih inDegree queue fun v hv => by
        rw [← hcount v hv]
        exact henough v hv
      refine ⟨fun v hv => by rw [hdegree v hv, hcount v hv], added, hqueue, hnodup, fun v => ?_⟩
      rw [hadded]
      exact and_congr_right fun hv => by rw [hcount v hv]

/-- Where the loop stands: the degrees count the edges from nodes not yet taken, the
nodes without any are taken or queued, and all parents of a node are taken before it. -/
structure Drained (children : α → List α) (nodes : ListSet α) (queue : List α) (inDegree : α → Int) (result : List α) : Prop where
  nodup : (result ++ queue).Nodup
  inside : ∀ v ∈ result ++ queue, v ∈ nodes
  degree : ∀ v ∈ nodes, inDegree v = ∑ u ∈ nodes.elems.toFinset \ result.toFinset, ((children u).count v : Int)
  zero : ∀ v ∈ nodes, v ∈ result ++ queue ↔ inDegree v = 0
  before : ∀ front v back, result = front ++ v :: back → ∀ u, Inside children nodes u v → u ∈ front

section Rounds

variable {queue result : List α} {inDegree : α → Int} {current : α}

theorem drained_start : Drained children nodes (nodes.elems.filter fun v => inDegrees children nodes v = 0)
    (inDegrees children nodes) [] where
  nodup := nodes.nodup.filter _
  inside := fun _ hv => (List.mem_filter.mp hv).1
  degree := fun v hv => by rw [inDegrees_eq v hv, List.toFinset_nil, Finset.sdiff_empty]
  zero := fun v hv => by
    rw [List.nil_append, List.mem_filter, decide_eq_true_eq]
    exact and_iff_right hv
  before := fun front v back h => by simp at h

/-- A node that is not taken has a degree as large as the edges it takes away. -/
theorem Drained.enough (h : Drained children nodes queue inDegree result) {u : α} (hu : u ∈ nodes) (hnot : u ∉ result)
    {v : α} (hv : v ∈ nodes) : ((children u).count v : Int) ≤ inDegree v := by
  have hmem : u ∈ nodes.elems.toFinset \ result.toFinset :=
    Finset.mem_sdiff.mpr ⟨List.mem_toFinset.mpr hu, fun hm => hnot (List.mem_toFinset.mp hm)⟩
  rw [h.degree v hv]
  exact Finset.single_le_sum (f := fun u => ((children u).count v : Int)) (fun _ _ => Int.natCast_nonneg _) hmem

theorem Drained.parent_taken (h : Drained children nodes queue inDegree result) {u v : α} (hzero : inDegree v = 0)
    (hedge : Inside children nodes u v) : u ∈ result := by
  obtain ⟨hu, hv, hchild⟩ := hedge
  by_contra hnot
  have hle := h.enough hu hnot hv
  have hpos : 0 < (children u).count v := List.count_pos_iff.mpr hchild
  omega

theorem Drained.take (h : Drained children nodes (current :: queue) inDegree result) :
    Drained children nodes (release nodes (children current) (inDegree, queue)).2
      (release nodes (children current) (inDegree, queue)).1 (result ++ [current]) := by
  have hcurrent : current ∈ nodes := h.inside current (List.mem_append_right _ List.mem_cons_self)
  have hnot : current ∉ result := fun hm => (List.nodup_append.mp h.nodup).2.2 _ hm _ List.mem_cons_self rfl
  have hzero : inDegree current = 0 := (h.zero current hcurrent).mp (List.mem_append_right _ List.mem_cons_self)
  obtain ⟨hdegree, added, hqueue, hadded, hmem⟩ :=
    release_spec (children current) inDegree queue fun v hv => h.enough hcurrent hnot hv
  have hassoc : result ++ [current] ++ (queue ++ added) = result ++ current :: queue ++ added := by simp
  rw [hqueue]
  refine ⟨?_, ?_, fun v hv => ?_, fun v hv => ?_, fun front v back hsplit u hedge => ?_⟩
  · rw [hassoc]
    refine List.nodup_append.mpr ⟨h.nodup, hadded, fun v hv w hw heq => ?_⟩
    rw [← heq] at hw
    obtain ⟨hin, hpos, -⟩ := (hmem v).mp hw
    have hv0 := (h.zero v hin).mp hv
    omega
  · rw [hassoc]
    exact List.forall_mem_append.mpr ⟨h.inside, fun v hv => ((hmem v).mp hv).1⟩
  · have hset : nodes.elems.toFinset \ (result ++ [current]).toFinset = (nodes.elems.toFinset \ result.toFinset).erase current := by
      ext u
      simp only [List.toFinset_append, Finset.mem_sdiff, Finset.mem_union, List.mem_toFinset, List.mem_singleton,
        Finset.mem_erase]
      tauto
    have hin : current ∈ nodes.elems.toFinset \ result.toFinset :=
      Finset.mem_sdiff.mpr ⟨List.mem_toFinset.mpr hcurrent, fun hm => hnot (List.mem_toFinset.mp hm)⟩
    have hsum := Finset.add_sum_erase _ (fun u => ((children u).count v : Int)) hin
    rw [hdegree v hv, h.degree v hv, hset]
    omega
  · rw [hassoc, List.mem_append, h.zero v hv, hmem, hdegree v hv]
    have hle := h.enough hcurrent hnot hv
    constructor
    · rintro (hv0 | ⟨-, -, heq⟩) <;> omega
    · intro heq
      by_cases hv0 : inDegree v = 0
      · exact Or.inl hv0
      · exact Or.inr ⟨hv, by omega, by omega⟩
  · rcases List.eq_nil_or_concat back with rfl | ⟨back, last, rfl⟩
    · obtain ⟨rfl, hv⟩ := List.append_inj' hsplit rfl
      cases hv
      exact h.parent_taken hzero hedge
    · have hsplit' : result ++ [current] = (front ++ v :: back) ++ [last] := by simpa using hsplit
      exact h.before front v back (List.append_inj' hsplit' rfl).1 u hedge

theorem Drained.drain (h : Drained children nodes queue inDegree result) {fuel : Nat}
    (hfuel : nodes.elems.length ≤ fuel + result.length) :
    ∃ inDegree' sorted, TopologicalOrder.drain children nodes fuel queue inDegree result = some sorted ∧
      Drained children nodes [] inDegree' sorted := by
  induction fuel generalizing queue inDegree result with
  | zero =>
    cases queue with
    | nil => exact ⟨inDegree, result, rfl, h⟩
    | cons current queue =>
      have hle := (h.nodup.subperm h.inside).length_le
      rw [List.length_append, List.length_cons] at hle
      omega
  | succ fuel ih =>
    cases queue with
    | nil => exact ⟨inDegree, result, rfl, h⟩
    | cons current queue =>
      refine ih h.take ?_
      rw [List.length_append, List.length_singleton]
      omega

end Rounds

omit [DecidableEq α] in
/-- Where every node of a finite set has an edge from another one, there is a cycle. -/
theorem cycle_of_predecessors {r : α → α → Prop} {s : Finset α} {v : α} (hv : v ∈ s) (hback : ∀ v ∈ s, ∃ u ∈ s, r u v) :
    ∃ w, TransGen r w w := by
  by_contra hacyclic
  have : IsStrictOrder α (TransGen r) := { irrefl := fun w hw => hacyclic ⟨w, hw⟩, trans := fun _ _ _ => TransGen.trans }
  have hwf : (s : Set α).WellFoundedOn (TransGen r) := s.finite_toSet.wellFoundedOn
  refine @Set.WellFoundedOn.induction _ _ _ _ hwf (Finset.mem_coe.mpr hv) (fun _ => False) fun w hw ih => ?_
  obtain ⟨u, hu, hedge⟩ := hback w hw
  exact ih u hu (.single hedge)

section Sorted

variable {inDegree : α → Int} {sorted : List α}

theorem Drained.left_parent (h : Drained children nodes [] inDegree sorted) {v : α} (hv : v ∈ nodes) (hleft : v ∉ sorted) :
    ∃ u, u ∉ sorted ∧ Inside children nodes u v := by
  have hzero : inDegree v ≠ 0 := fun h0 => hleft (by simpa using (h.zero v hv).mpr h0)
  rw [h.degree v hv] at hzero
  obtain ⟨u, hu, hcount⟩ := Finset.exists_ne_zero_of_sum_ne_zero hzero
  obtain ⟨hin, hnot⟩ := Finset.mem_sdiff.mp hu
  have hpos : 0 < (children u).count v := by omega
  exact ⟨u, fun hm => hnot (List.mem_toFinset.mpr hm), List.mem_toFinset.mp hin, hv, List.count_pos_iff.mp hpos⟩

theorem Drained.forward (h : Drained children nodes [] inDegree sorted) (hall : ∀ v ∈ nodes, v ∈ sorted) {u v : α}
    (hedge : Inside children nodes u v) : sorted.idxOf u < sorted.idxOf v := by
  obtain ⟨front, back, hsplit⟩ := List.append_of_mem (hall v hedge.2.1)
  have hu := h.before front v back hsplit u hedge
  have hnodup : sorted.Nodup := by simpa using h.nodup
  have hv : v ∉ front := by
    rw [hsplit] at hnodup
    exact fun hm => (List.nodup_append.mp hnodup).2.2 _ hm _ List.mem_cons_self rfl
  rw [hsplit, List.idxOf_append_of_mem hu, List.idxOf_append_of_notMem hv, List.idxOf_cons_self]
  have hlt := List.idxOf_lt_length_iff.mpr hu
  omega

theorem Drained.acyclic_iff (h : Drained children nodes [] inDegree sorted) :
    (∀ v ∈ nodes, v ∈ sorted) ↔ ¬∃ v, TransGen (Inside children nodes) v v := by
  constructor
  · rintro hall ⟨v, hcycle⟩
    have hlt : ∀ {u w}, TransGen (Inside children nodes) u w → sorted.idxOf u < sorted.idxOf w := by
      intro u w hpath
      induction hpath with
      | single hedge => exact h.forward hall hedge
      | tail _ hedge ih => exact ih.trans (h.forward hall hedge)
    exact lt_irrefl _ (hlt hcycle)
  · intro hacyclic v hv
    by_contra hleft
    have hmem : ∀ u, u ∈ nodes.elems.toFinset \ sorted.toFinset ↔ u ∈ nodes ∧ u ∉ sorted := by
      intro u
      rw [Finset.mem_sdiff, List.mem_toFinset, List.mem_toFinset]
      rfl
    refine hacyclic (cycle_of_predecessors ((hmem v).mpr ⟨hv, hleft⟩) fun w hw => ?_)
    obtain ⟨hin, hnot⟩ := (hmem w).mp hw
    obtain ⟨u, hu, hedge⟩ := h.left_parent hin hnot
    exact ⟨u, (hmem u).mpr ⟨hedge.1, hu⟩, hedge⟩

/-- The loop takes as many nodes as there are just when no cycle lies in the set, and then
each of them once and every edge goes forward. -/
theorem Drained.complete (h : Drained children nodes [] inDegree sorted) :
    (sorted.length = nodes.elems.length ↔ ¬∃ v, TransGen (Inside children nodes) v v) ∧
    (sorted.length = nodes.elems.length → sorted.Perm nodes.elems ∧
      ∀ u v, Inside children nodes u v → sorted.idxOf u < sorted.idxOf v) := by
  have hnodup : sorted.Nodup := by simpa using h.nodup
  have hsub : ∀ v ∈ sorted, v ∈ nodes := by simpa using h.inside
  have hperm : sorted.length = nodes.elems.length ↔ ∀ v ∈ nodes, v ∈ sorted := by
    constructor
    · intro hlength v hv
      have hp := (hnodup.subperm hsub).perm_of_length_le hlength.ge
      exact hp.mem_iff.mpr hv
    · intro hall
      have hle := (hnodup.subperm hsub).length_le
      have hge := (nodes.nodup.subperm hall).length_le
      omega
  refine ⟨hperm.trans h.acyclic_iff, fun hlength => ?_⟩
  exact ⟨(hnodup.subperm hsub).perm_of_length_le hlength.ge, fun u v hedge => h.forward (hperm.mp hlength) hedge⟩

theorem kahn_spec (children : α → List α) (nodes : ListSet α) : ∃ sorted, kahn children nodes = some sorted ∧
    (sorted.length = nodes.elems.length ↔ ¬∃ v, TransGen (Inside children nodes) v v) ∧
    (sorted.length = nodes.elems.length → sorted.Perm nodes.elems ∧
      ∀ u v, Inside children nodes u v → sorted.idxOf u < sorted.idxOf v) := by
  obtain ⟨inDegree, sorted, hkahn, h⟩ := (@drained_start _ _ children nodes).drain (Nat.le_add_right _ _)
  exact ⟨sorted, hkahn, h.complete⟩

end Sorted

end TopologicalOrder
