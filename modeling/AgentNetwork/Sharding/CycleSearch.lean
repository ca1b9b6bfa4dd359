import AgentNetwork.Library.DepthFirst
import AgentNetwork.Sharding.Readiness

/-! The search for cycles among the dependencies: it goes on after a cycle and collects
them all. -/

namespace AgentNetwork.Sharding

open Relation Relational DepthFirst

/-- The order in which a loop goes through a set. -/
structure SetOrder where
  visit : ListSet Int → List Int
  perm : ∀ s, (visit s).Perm s.elems

namespace SetOrder

def insertion : SetOrder := ⟨ListSet.elems, fun _ => .refl _⟩

theorem mem_visit (order : SetOrder) {s : ListSet Int} {a : Int} : a ∈ order.visit s ↔ a ∈ s := (order.perm s).mem_iff

theorem nodup_visit (order : SetOrder) (s : ListSet Int) : (order.visit s).Nodup := (order.perm s).nodup_iff.mpr s.nodup

end SetOrder

/-- What the search has seen: the set of visited shards, those on the way to the
current one, the latest first, and the cycles found. -/
structure CycleSearch where
  visited : List Int
  recStack : List Int
  cycles : List (List Int)
  deriving DecidableEq

namespace DependencyDAG

/-- The loop over the neighbors of the last shard of the path. -/
def visitNeighbors (dfs : Int → List Int → CycleSearch → Option CycleSearch) (path : List Int) :
    List Int → CycleSearch → Option CycleSearch
  | [], s => some s
  | neighbor :: rest, s =>
    if neighbor ∉ s.visited then
      match dfs neighbor path s with
      | none => none
      | some s' => visitNeighbors dfs path rest s'
    else if neighbor ∈ s.recStack then
      visitNeighbors dfs path rest { s with cycles := s.cycles ++ [path.drop (path.idxOf neighbor) ++ [neighbor]] }
    else visitNeighbors dfs path rest s

def dfs (order : SetOrder) (dag : DependencyDAG) : Nat → Int → List Int → CycleSearch → Option CycleSearch
  | 0, _, _, _ => none
  | fuel + 1, shard, path, s =>
    match visitNeighbors (dfs order dag fuel) (path ++ [shard]) (order.visit (dag.getDependencies shard))
        { s with visited := shard :: s.visited, recStack := shard :: s.recStack } with
    | none => none
    | some s' => some { s' with recStack := s'.recStack.erase shard }

/-- The loop over the shards of the graph. -/
def searchAll (dfs : Int → List Int → CycleSearch → Option CycleSearch) : List Int → CycleSearch → Option CycleSearch
  | [], s => some s
  | shard :: rest, s =>
    if shard ∉ s.visited then
      match dfs shard [] s with
      | none => none
      | some s' => searchAll dfs rest s'
    else searchAll dfs rest s

def findCycles (order : SetOrder) (dag : DependencyDAG) : Option (List (List Int)) :=
  (searchAll (dfs order dag dag.graph.keys.length) dag.graph.keys ⟨[], [], []⟩).map CycleSearch.cycles

end DependencyDAG

/-- A walk of at least one step that ends where it starts. -/
structure ClosedWalk (r : Int → Int → Prop) (walk : List Int) : Prop where
  steps : 2 ≤ walk.length
  chain : List.IsChain r walk
  closed : walk.head? = walk.getLast?

theorem transGen_of_chain {r : Int → Int → Prop} {a b : Int} {walk : List Int} (h : List.IsChain r (a :: walk ++ [b])) :
    TransGen r a b := by
  induction walk generalizing a with
  | nil => exact .single (List.isChain_pair.mp h)
  | cons c rest ih =>
    obtain ⟨hstep, hrest⟩ := List.isChain_cons_cons.mp h
    exact .head hstep (ih hrest)

theorem ClosedWalk.cycle {r : Int → Int → Prop} {walk : List Int} (h : ClosedWalk r walk) : ∃ v, TransGen r v v := by
  obtain ⟨hsteps, hchain, hclosed⟩ := h
  obtain ⟨a, rest, rfl⟩ := List.exists_cons_of_length_pos (show 0 < walk.length by omega)
  rcases List.eq_nil_or_concat rest with rfl | ⟨middle, last, rfl⟩
  · simp at hsteps
  · rw [List.concat_eq_append, ← List.cons_append] at hchain hclosed
    rw [List.getLast?_concat] at hclosed
    obtain rfl := Option.some.inj hclosed
    exact ⟨a, transGen_of_chain hchain⟩

/-- From a shard on the path back to itself. -/
theorem closedWalk_back {r : Int → Int → Prop} {path : List Int} {shard neighbor : Int}
    (hpath : List.IsChain r (path ++ [shard])) (hmem : neighbor ∈ path ++ [shard]) (hedge : r shard neighbor) :
    ClosedWalk r ((path ++ [shard]).drop ((path ++ [shard]).idxOf neighbor) ++ [neighbor]) := by
  have hlt := List.idxOf_lt_length_iff.mpr hmem
  have hhead : ((path ++ [shard]).drop ((path ++ [shard]).idxOf neighbor)).head? = some neighbor := by
    rw [List.head?_drop, List.getElem?_eq_getElem hlt, List.getElem_idxOf]
  have hlast : ((path ++ [shard]).drop ((path ++ [shard]).idxOf neighbor)).getLast? = some shard := by
    rw [List.getLast?_drop, if_neg (by omega)]
    simp
  refine ⟨?_, ?_, ?_⟩
  · rw [List.length_append, List.length_drop, List.length_singleton]
    omega
  · refine List.isChain_append.mpr ⟨hpath.drop _, List.isChain_singleton _, fun x hx y hy => ?_⟩
    rw [hlast] at hx
    obtain rfl := Option.some.inj hx
    obtain rfl := Option.some.inj hy
    exact hedge
  · rw [List.head?_append, hhead, List.getLast?_concat]
    rfl

namespace DependencyDAG

variable (order : SetOrder) (dag : DependencyDAG)

def next (shard : Int) : List Int := order.visit (dag.getDependencies shard)

/-- The search of the pending neighbors of a shard: the shards on the way are as before,
what is found are closed walks, and where nothing is found it meets no cycle. -/
structure Searched (pending : List Int) (s s' : CycleSearch) : Prop where
  recStack : s'.recStack = s.recStack
  visited : ∀ x ∈ s.visited, x ∈ s'.visited
  cycles : ∃ found, s'.cycles = s.cycles ++ found ∧ (∀ walk ∈ found, ClosedWalk (Edge (next order dag)) walk) ∧
    (found = [] → Explores (next order dag) [] s.recStack s.visited pending .clear s'.visited)

/-- The search from a new shard. -/
structure Entered (shard : Int) (s s' : CycleSearch) : Prop where
  recStack : s'.recStack = s.recStack
  visited : ∀ x ∈ shard :: s.visited, x ∈ s'.visited
  cycles : ∃ found, s'.cycles = s.cycles ++ found ∧ (∀ walk ∈ found, ClosedWalk (Edge (next order dag)) walk) ∧
    (found = [] → Explores (next order dag) [] (shard :: s.recStack) (shard :: s.visited) (next order dag shard) .clear s'.visited)

variable {order dag} {path : List Int} {shard : Int}

theorem visitNeighbors_searched {down : Int → List Int → CycleSearch → Option CycleSearch}
    (hdown : ∀ c s s', Edge (next order dag) shard c → c ∉ s.visited → s.recStack = (path ++ [shard]).reverse →
      down c (path ++ [shard]) s = some s' → Entered order dag c s s')
    (hchain : List.IsChain (Edge (next order dag)) (path ++ [shard])) {pending : List Int}
    (hpending : ∀ c ∈ pending, Edge (next order dag) shard c) {s s' : CycleSearch} (hstack : s.recStack = (path ++ [shard]).reverse)
    (h : visitNeighbors down (path ++ [shard]) pending s = some s') : Searched order dag pending s s' := by
  induction pending generalizing s with
  | nil =>
    cases h
    exact ⟨rfl, fun _ hx => hx, [], (List.append_nil _).symm, List.forall_mem_nil _, fun _ => .done⟩
  | cons c rest ih =>
    obtain ⟨hedge, hrest⟩ := List.forall_mem_cons.mp hpending
    rw [visitNeighbors] at h
    by_cases hvisited : c ∈ s.visited
    · rw [if_neg (not_not.mpr hvisited)] at h
      by_cases hback : c ∈ s.recStack
      · rw [if_pos hback] at h
        have hsearched := ih hrest (by exact hstack) h
        obtain ⟨found, hcycles, hwalks, _⟩ := hsearched.cycles
        have hmem : c ∈ path ++ [shard] := by
          rw [hstack] at hback
          exact List.mem_reverse.mp hback
        refine ⟨hsearched.recStack, hsearched.visited, _, hcycles.trans (List.append_assoc ..), ?_, ?_⟩
        · exact List.forall_mem_append.mpr ⟨List.forall_mem_singleton.mpr (closedWalk_back hchain hmem hedge), hwalks⟩
        · intro hnone
          simp at hnone
      · rw [if_neg hback] at h
        have hsearched := ih hrest hstack h
        obtain ⟨found, hcycles, hwalks, hclear⟩ := hsearched.cycles
        exact ⟨hsearched.recStack, hsearched.visited, found, hcycles, hwalks,
          fun hnone => .skip hvisited hback List.not_mem_nil (hclear hnone)⟩
    · rw [if_pos hvisited] at h
      cases hsub : down c (path ++ [shard]) s with
      | none =>
        rw [hsub] at h
        cases h
      | some s₁ =>
        rw [hsub] at h
        have hentered := hdown c s s₁ hedge hvisited hstack hsub
        have hsearched := ih hrest (hentered.recStack.trans hstack) h
        obtain ⟨found, hcycles, hwalks, hclear⟩ := hentered.cycles
        obtain ⟨found', hcycles', hwalks', hclear'⟩ := hsearched.cycles
        refine ⟨hsearched.recStack.trans hentered.recStack, fun x hx => hsearched.visited x (hentered.visited x (List.mem_cons_of_mem _ hx)),
          found ++ found', ?_, List.forall_mem_append.mpr ⟨hwalks, hwalks'⟩, fun hnone => ?_⟩
        · rw [hcycles', hcycles, List.append_assoc]
        · obtain ⟨hnone, hnone'⟩ := List.append_eq_nil_iff.mp hnone
          have hlater := hclear' hnone'
          rw [hentered.recStack] at hlater
          exact .descend hvisited (hclear hnone) hlater

theorem dfs_entered {fuel : Nat} {s s' : CycleSearch} (hchain : List.IsChain (Edge (next order dag)) (path ++ [shard]))
    (hstack : s.recStack = path.reverse) (h : dfs order dag fuel shard path s = some s') : Entered order dag shard s s' := by
  induction fuel generalizing path shard s s' with
  | zero => cases h
  | succ fuel ih =>
    rw [dfs] at h
    cases hloop : visitNeighbors (dfs order dag fuel) (path ++ [shard]) (order.visit (dag.getDependencies shard))
        { s with visited := shard :: s.visited, recStack := shard :: s.recStack } with
    | none =>
      rw [hloop] at h
      cases h
    | some s₁ =>
      rw [hloop] at h
      cases h
      have hdown : ∀ c s s', Edge (next order dag) shard c → c ∉ s.visited → s.recStack = (path ++ [shard]).reverse →
          dfs order dag fuel c (path ++ [shard]) s = some s' → Entered order dag c s s' := by
        intro c s s' hedge _ hstack hsub
        refine ih (List.isChain_append.mpr ⟨hchain, List.isChain_singleton _, fun x hx y hy => ?_⟩) hstack hsub
        rw [List.getLast?_concat] at hx
        obtain rfl := Option.some.inj hx
        obtain rfl := Option.some.inj hy
        exact hedge
      have hstack' : shard :: s.recStack = (path ++ [shard]).reverse := by
        rw [hstack, List.reverse_append]
        rfl
      have hsearched := visitNeighbors_searched hdown hchain (fun _ hc => hc) hstack' hloop
      refine ⟨?_, hsearched.visited, hsearched.cycles⟩
      rw [hsearched.recStack]
      exact List.erase_cons_head ..

section Total

variable {nodes : List Int}

theorem visitNeighbors_total {down : Int → List Int → CycleSearch → Option CycleSearch} {fuel : Nat}
    (hdown : ∀ c s, c ∈ nodes → c ∉ s.visited → unseen nodes s.visited ≤ fuel →
      ∃ s', down c path s = some s' ∧ ∀ x ∈ s.visited, x ∈ s'.visited)
    {pending : List Int} (hpending : ∀ c ∈ pending, c ∈ nodes) {s : CycleSearch} (hfuel : unseen nodes s.visited ≤ fuel) :
    ∃ s', visitNeighbors down path pending s = some s' ∧ ∀ x ∈ s.visited, x ∈ s'.visited := by
  induction pending generalizing s with
  | nil => exact ⟨s, rfl, fun _ hx => hx⟩
  | cons c rest ih =>
    obtain ⟨hc, hrest⟩ := List.forall_mem_cons.mp hpending
    rw [visitNeighbors]
    by_cases hvisited : c ∈ s.visited
    · rw [if_neg (not_not.mpr hvisited)]
      by_cases hback : c ∈ s.recStack
      · rw [if_pos hback]
        exact ih hrest hfuel
      · rw [if_neg hback]
        exact ih hrest hfuel
    · rw [if_pos hvisited]
      obtain ⟨s₁, hsub, hgrows⟩ := hdown c s hc hvisited hfuel
      obtain ⟨s', hloop, hgrows'⟩ := ih hrest ((unseen_le nodes hgrows).trans hfuel)
      rw [hsub]
      exact ⟨s', hloop, fun x hx => hgrows' x (hgrows x hx)⟩

/-- As much fuel as there are unvisited shards is enough. -/
theorem dfs_total (hnodes : ∀ a b, Edge (next order dag) a b → b ∈ nodes) {fuel : Nat} {s : CycleSearch}
    (hshard : shard ∈ nodes) (hnew : shard ∉ s.visited) (hfuel : unseen nodes s.visited ≤ fuel) :
    ∃ s', dfs order dag fuel shard path s = some s' ∧ ∀ x ∈ s.visited, x ∈ s'.visited := by
  induction fuel generalizing shard path s with
  | zero =>
    have hlt := unseen_cons_lt nodes hshard hnew
    omega
  | succ fuel ih =>
    have hlt := unseen_cons_lt nodes hshard hnew
    have hfuel' : unseen nodes (shard :: s.visited) ≤ fuel := by omega
    obtain ⟨s', hloop, hgrows⟩ := @visitNeighbors_total (path ++ [shard]) nodes (dfs order dag fuel) fuel
      (fun c s hc hnew hle => ih hc hnew hle) (order.visit (dag.getDependencies shard)) (fun c hc => hnodes shard c hc)
      { s with visited := shard :: s.visited, recStack := shard :: s.recStack } hfuel'
    rw [dfs, hloop]
    exact ⟨_, rfl, fun x hx => hgrows x (List.mem_cons_of_mem _ hx)⟩

end Total

/-- Between two searches: what is found are closed walks, and while nothing is found
everything visited is dead. -/
structure Quiescent (order : SetOrder) (dag : DependencyDAG) (s : CycleSearch) : Prop where
  recStack : s.recStack = []
  walks : ∀ walk ∈ s.cycles, ClosedWalk (Edge (next order dag)) walk
  dead : s.cycles = [] → Sorted (next order dag) [] [] s.visited

theorem Quiescent.searchAll {fuel : Nat} {nodes : List Int} (hnodes : ∀ a b, Edge (next order dag) a b → b ∈ nodes)
    (hfuel : nodes.length ≤ fuel) {pending : List Int} (hpending : ∀ shard ∈ pending, shard ∈ nodes) {s : CycleSearch}
    (h : Quiescent order dag s) : ∃ s', DependencyDAG.searchAll (dfs order dag fuel) pending s = some s' ∧ Quiescent order dag s' ∧
      (∀ x ∈ s.visited, x ∈ s'.visited) ∧ ∀ x ∈ pending, x ∈ s'.visited := by
  induction pending generalizing s with
  | nil => exact ⟨s, rfl, h, fun _ hx => hx, List.forall_mem_nil _⟩
  | cons shard rest ih =>
    obtain ⟨hshard, hrest⟩ := List.forall_mem_cons.mp hpending
    rw [DependencyDAG.searchAll]
    by_cases hvisited : shard ∈ s.visited
    · rw [if_neg (not_not.mpr hvisited)]
      obtain ⟨s', hall, hquiet, hgrows, hseen⟩ := ih hrest h
      exact ⟨s', hall, hquiet, hgrows, List.forall_mem_cons.mpr ⟨hgrows shard hvisited, hseen⟩⟩
    · rw [if_pos hvisited]
      have hunseen : unseen nodes s.visited ≤ fuel := List.countP_le_length.trans hfuel
      obtain ⟨s₁, hdfs, _⟩ := @dfs_total order dag [] shard nodes hnodes fuel s hshard hvisited hunseen
      have hentered := dfs_entered (List.isChain_singleton shard) h.recStack hdfs
      obtain ⟨found, hcycles, hwalks, hclear⟩ := hentered.cycles
      have hquiet₁ : Quiescent order dag s₁ := by
        refine ⟨hentered.recStack.trans h.recStack, ?_, fun hnone => ?_⟩
        · rw [hcycles]
          exact List.forall_mem_append.mpr ⟨h.walks, hwalks⟩
        · rw [hcycles] at hnone
          obtain ⟨hbefore, hfound⟩ := List.append_eq_nil_iff.mp hnone
          have hexplored := hclear hfound
          rw [h.recStack] at hexplored
          exact (hexplored.root_clear (h.dead hbefore)).2
      obtain ⟨s', hall, hquiet, hgrows, hseen⟩ := ih hrest hquiet₁
      rw [hdfs]
      refine ⟨s', hall, hquiet, fun x hx => hgrows x (hentered.visited x (List.mem_cons_of_mem _ hx)), ?_⟩
      exact List.forall_mem_cons.mpr ⟨hgrows shard (hentered.visited shard List.mem_cons_self), hseen⟩

/-- All that is found are closed walks, and something is found just when there is a cycle. -/
theorem findCycles_spec (order : SetOrder) {dag : DependencyDAG}
    (hkeys : ∀ a b, b ∈ dag.getDependencies a → a ∈ dag.graph.keys ∧ b ∈ dag.graph.keys) :
    ∃ cycles, dag.findCycles order = some cycles ∧
      (cycles ≠ [] ↔ ∃ v, TransGen (fun a b => b ∈ dag.getDependencies a) v v) ∧
      ∀ walk ∈ cycles, ClosedWalk (fun a b => b ∈ dag.getDependencies a) walk := by
  have hedge : Edge (next order dag) = fun a b => b ∈ dag.getDependencies a := by
    funext a b
    exact propext (order.mem_visit)
  have hnodes : ∀ a b, Edge (next order dag) a b → a ∈ dag.graph.keys ∧ b ∈ dag.graph.keys := by
    rw [hedge]
    exact hkeys
  have hstart : Quiescent order dag ⟨[], [], []⟩ := ⟨rfl, List.forall_mem_nil _, fun _ => List.forall_mem_nil _⟩
  obtain ⟨s, hall, hquiet, _, hseen⟩ := hstart.searchAll (fun a b hab => (hnodes a b hab).2) le_rfl (fun _ hx => hx)
  have hwalks := hquiet.walks
  rw [hedge] at hwalks
  refine ⟨s.cycles, by rw [findCycles, hall]; rfl, ⟨fun hfound => ?_, fun hcyclic hnone => ?_⟩, hwalks⟩
  · obtain ⟨walk, hwalk⟩ := List.exists_mem_of_ne_nil _ hfound
    exact (hwalks walk hwalk).cycle
  · rw [← hedge] at hcyclic
    obtain ⟨v, hv, hlive⟩ := (cyclic_iff_live fun a b hab => (hnodes a b hab).1).mp hcyclic
    have hdead := ((hquiet.dead hnone v (hseen v hv)).resolve_left List.not_mem_nil).resolve_left List.not_mem_nil
    exact hdead hlive

end DependencyDAG

end AgentNetwork.Sharding
