import AgentNetwork.Sharding.Dependencies
import AgentNetwork.Library.Traces

namespace AgentNetwork.Sharding

open Relational Transition

/-- The calls that change the graph. -/
inductive DagCall
  | addDependency (fromShard toShard : Int) (needId : String) (artifactRefs : Option (List String))
  | markShardComplete (shardId : Int)

namespace DependencyDAG

def step (dag : DependencyDAG) : DagCall → DependencyDAG
  | .addDependency fromShard toShard needId artifactRefs => dag.addDependency fromShard toShard needId artifactRefs
  | .markShardComplete shardId => (dag.markShardComplete shardId).2

def Known (dag : DependencyDAG) (s : Int) : Prop := dag.graph.contains s = true

instance (dag : DependencyDAG) (s : Int) : Decidable (dag.Known s) := inferInstanceAs (Decidable (_ = true))

/-- Known, not completed, and all of its dependencies completed. -/
def Ready (dag : DependencyDAG) (s : Int) : Prop :=
  dag.Known s ∧ s ∉ dag.completedShards ∧ ∀ d ∈ dag.getDependencies s, d ∈ dag.completedShards

/-- The two adjacency tables and the counters speak of the same shards. -/
structure Linked (dag : DependencyDAG) : Prop where
  degrees : ∀ s, dag.inDegree.contains s = dag.graph.contains s
  dependents : ∀ s t, t ∈ dag.getDependents s ↔ s ∈ dag.getDependencies t

def pending (dag : DependencyDAG) (s : Int) : Nat := (dag.getDependencies s).count fun d => ¬d ∈ dag.completedShards

/-- The counter of every shard still to run is the number of its open dependencies. -/
def Counted (dag : DependencyDAG) : Prop :=
  ∀ s, dag.Known s → s ∉ dag.completedShards → dag.inDegree.get? s = some (dag.pending s : Int)

/-- Where the counter follows the sets: a new edge to an open shard, and the first
completion of a shard; for shards that are completed themselves nothing is counted. -/
def Accurate (dag : DependencyDAG) : DagCall → Prop
  | .addDependency fromShard toShard _ _ =>
    fromShard ∈ dag.completedShards ∨ (toShard ∉ dag.getDependencies fromShard ∧ toShard ∉ dag.completedShards)
  | .markShardComplete shardId =>
    shardId ∉ dag.completedShards ∨ ∀ w ∈ dag.getDependents shardId, w ∈ dag.completedShards

theorem getD_addTo (table : Table Int (ListSet Int)) (key value w : Int) :
    ((addTo table key value).get? w).getD .empty =
      if w = key then ((table.get? key).getD .empty).add value else (table.get? w).getD .empty := by
  unfold addTo
  rw [Table.get?_upsert]
  split <;> rfl

section AddDependency

variable (fromShard toShard : Int) (needId : String) (artifactRefs : Option (List String)) (dag : DependencyDAG)

theorem addDependency_completed :
    (dag.addDependency fromShard toShard needId artifactRefs).completedShards = dag.completedShards := by
  unfold addDependency
  dsimp only
  split <;> rfl

theorem addDependency_reverse : (dag.addDependency fromShard toShard needId artifactRefs).reverseGraph =
    addTo dag.reverseGraph toShard fromShard := by
  unfold addDependency
  dsimp only
  split <;> rfl

theorem addDependency_known (w : Int) :
    (dag.addDependency fromShard toShard needId artifactRefs).graph.contains w =
      (dag.graph.contains w || decide (w = fromShard) || decide (w = toShard)) := by
  unfold addDependency
  dsimp only
  split
  next h =>
    simp only [addTo, Table.contains, Table.get?_upsert] at h ⊢
    by_cases hf : w = fromShard
    · simp [hf]
    · by_cases ht : w = toShard
      · subst ht
        simpa [hf] using h
      · simp [hf, ht]
  next h =>
    simp only [addTo, Table.contains, Table.get?_upsert]
    by_cases ht : w = toShard
    · simp [ht]
    · rw [if_neg ht]
      by_cases hf : w = fromShard <;> simp [hf, ht]

theorem addDependency_dependencies (w : Int) :
    (dag.addDependency fromShard toShard needId artifactRefs).getDependencies w =
      if w = fromShard then (dag.getDependencies fromShard).add toShard else dag.getDependencies w := by
  unfold getDependencies
  rw [← getD_addTo]
  unfold addDependency
  dsimp only
  split
  next => rfl
  next h =>
    have hnone : (addTo dag.graph fromShard toShard).get? toShard = none := by
      simpa [Table.contains] using h
    rw [Table.get?_upsert]
    by_cases ht : w = toShard
    · rw [if_pos ht, ht, hnone]
      rfl
    · rw [if_neg ht]

theorem addDependency_degree (w : Int) :
    (dag.addDependency fromShard toShard needId artifactRefs).inDegree.get? w =
      if w = fromShard then some ((dag.inDegree.get? fromShard).getD 0 + 1)
      else if w = toShard ∧ ¬dag.Known toShard then some 0 else dag.inDegree.get? w := by
  unfold addDependency
  dsimp only
  split
  next h =>
    have hknown : toShard ≠ fromShard → dag.Known toShard := by
      intro hne
      simpa [addTo, Table.contains, Known, hne] using h
    rw [bump, Table.get?_upsert]
    by_cases hf : w = fromShard
    · rw [if_pos hf, if_pos hf]
    · rw [if_neg hf, if_neg hf, if_neg]
      rintro ⟨rfl, hn⟩
      exact hn (hknown hf)
  next h =>
    have hne : toShard ≠ fromShard := by
      rintro rfl
      simp [addTo, Table.contains] at h
    have hunknown : ¬dag.Known toShard := by
      simpa [addTo, Table.contains, Known, hne] using h
    rw [Table.get?_upsert, bump, Table.get?_upsert]
    by_cases ht : w = toShard
    · have hf : w ≠ fromShard := by rwa [ht]
      rw [if_pos ht, if_neg hf, if_pos ⟨ht, hunknown⟩]
    · rw [if_neg ht]
      by_cases hf : w = fromShard
      · rw [if_pos hf, if_pos hf]
      · rw [if_neg hf, if_neg hf, if_neg fun h => ht h.1]

end AddDependency

section Release

/-- What completing a shard does to the counters of its dependents `l`. -/
structure Released (l : List Int) (newlyReady : ListSet Int) (dag : DependencyDAG)
    (result : ListSet Int × DependencyDAG) : Prop where
  graph : result.2.graph = dag.graph
  reverseGraph : result.2.reverseGraph = dag.reverseGraph
  completed : result.2.completedShards = dag.completedShards
  degree : ∀ w, result.2.inDegree.get? w =
    if w ∈ l then some ((dag.inDegree.get? w).getD 0 - 1) else dag.inDegree.get? w
  newly : ∀ w, w ∈ result.1 ↔
    w ∈ newlyReady ∨ (w ∈ l ∧ (dag.inDegree.get? w).getD 0 = 1 ∧ w ∉ dag.completedShards)

theorem release_released {l : List Int} (hl : l.Nodup) (newlyReady : ListSet Int) (dag : DependencyDAG) :
    Released l newlyReady dag (release l (newlyReady, dag)) := by
  induction l generalizing newlyReady dag with
  | nil => exact ⟨rfl, rfl, rfl, by simp [release], by simp [release]⟩
  | cons d rest ih =>
    obtain ⟨hd, hrest⟩ := List.nodup_cons.mp hl
    have hdegree (w : Int) : (bump dag.inDegree d (-1)).get? w =
        if w = d then some ((dag.inDegree.get? d).getD 0 - 1) else dag.inDegree.get? w := by
      rw [bump, Table.get?_upsert, Int.sub_eq_add_neg]
    have hcounter (w : Int) : (if w ∈ rest then some (((bump dag.inDegree d (-1)).get? w).getD 0 - 1)
        else (bump dag.inDegree d (-1)).get? w) =
          if w ∈ d :: rest then some ((dag.inDegree.get? w).getD 0 - 1) else dag.inDegree.get? w := by
      by_cases hw : w = d
      · subst hw
        rw [if_neg hd, hdegree, if_pos rfl, if_pos List.mem_cons_self]
      · rw [hdegree, if_neg hw]
        simp only [List.mem_cons, hw, false_or]
    rw [release]
    dsimp only
    split
    next h =>
      obtain ⟨hzero, hopen⟩ := h
      rw [hdegree, if_pos rfl] at hzero
      have hone : (dag.inDegree.get? d).getD 0 = 1 := by
        have := Option.some.inj hzero
        omega
      have hspec := ih hrest (newlyReady.add d)
        { dag with inDegree := bump dag.inDegree d (-1), readyShards := dag.readyShards.add d }
      refine ⟨hspec.graph, hspec.reverseGraph, hspec.completed, fun w => (hspec.degree w).trans (hcounter w), ?_⟩
      intro w
      rw [hspec.newly, ListSet.mem_add, hdegree]
      by_cases hw : w = d
      · subst hw
        simp [hone, hopen]
      · simp [hw]
    next h =>
      have hspec := ih hrest newlyReady { dag with inDegree := bump dag.inDegree d (-1) }
      refine ⟨hspec.graph, hspec.reverseGraph, hspec.completed, fun w => (hspec.degree w).trans (hcounter w), ?_⟩
      intro w
      rw [hspec.newly, hdegree]
      by_cases hw : w = d
      · subst hw
        have hnot : ¬((dag.inDegree.get? w).getD 0 = 1 ∧ w ∉ dag.completedShards) := by
          intro hready
          apply h
          rw [hdegree, if_pos rfl, hready.1]
          exact ⟨rfl, hready.2⟩
        simp [hd, hnot]
      · simp [hw]

theorem markShardComplete_released (shardId : Int) (dag : DependencyDAG) :
    Released (dag.getDependents shardId).elems .empty
      { dag with completedShards := dag.completedShards.add shardId } (dag.markShardComplete shardId) :=
  release_released (dag.getDependents shardId).nodup _ _

variable (shardId : Int) (dag : DependencyDAG)

theorem markShardComplete_completed (w : Int) :
    w ∈ (dag.markShardComplete shardId).2.completedShards ↔ w = shardId ∨ w ∈ dag.completedShards := by
  rw [(markShardComplete_released shardId dag).completed]
  exact ListSet.mem_add

theorem markShardComplete_known (w : Int) : (dag.markShardComplete shardId).2.Known w ↔ dag.Known w := by
  rw [Known, (markShardComplete_released shardId dag).graph]
  rfl

theorem markShardComplete_dependencies (w : Int) :
    (dag.markShardComplete shardId).2.getDependencies w = dag.getDependencies w := by
  rw [getDependencies, (markShardComplete_released shardId dag).graph]
  rfl

theorem markShardComplete_dependents (w : Int) :
    (dag.markShardComplete shardId).2.getDependents w = dag.getDependents w := by
  rw [getDependents, (markShardComplete_released shardId dag).reverseGraph]
  rfl

theorem markShardComplete_degree (w : Int) : (dag.markShardComplete shardId).2.inDegree.get? w =
    if w ∈ dag.getDependents shardId then some ((dag.inDegree.get? w).getD 0 - 1) else dag.inDegree.get? w :=
  (markShardComplete_released shardId dag).degree w

theorem mem_markShardComplete (w : Int) : w ∈ (dag.markShardComplete shardId).1 ↔
    w ∈ dag.getDependents shardId ∧ (dag.inDegree.get? w).getD 0 = 1 ∧ w ≠ shardId ∧ w ∉ dag.completedShards := by
  rw [(markShardComplete_released shardId dag).newly, ListSet.mem_add, not_or]
  simp only [ListSet.not_mem_empty, false_or]
  exact Iff.rfl

end Release

theorem linked_init : init.Linked where
  degrees _ := rfl
  dependents s t := by simp [getDependents, getDependencies, init]

theorem Linked.step {dag : DependencyDAG} (h : dag.Linked) (call : DagCall) : (dag.step call).Linked := by
  cases call with
  | addDependency fromShard toShard needId artifactRefs =>
    refine ⟨?_, ?_⟩
    · intro w
      have hold := h.degrees w
      simp only [DependencyDAG.step, addDependency_known]
      rw [Table.contains, addDependency_degree]
      by_cases hf : w = fromShard
      · simp [hf]
      · by_cases ht : w = toShard
        · subst ht
          by_cases hk : dag.Known w
          · have hk' : dag.graph.contains w = true := hk
            rw [hk', Table.contains] at hold
            simpa [hf, hk] using hold
          · simp [hf, hk]
        · rw [Table.contains] at hold
          simp [hf, ht, hold]
    · intro s t
      simp only [DependencyDAG.step]
      rw [addDependency_dependencies, getDependents, addDependency_reverse, getD_addTo]
      have hold := h.dependents s t
      rw [getDependents] at hold
      by_cases hs : s = toShard
      · by_cases ht : t = fromShard
        · simp [hs, ht]
        · subst hs
          simpa [ht] using hold
      · by_cases ht : t = fromShard
        · subst ht
          simpa [hs] using hold
        · simpa [hs, ht] using hold
  | markShardComplete shardId =>
    refine ⟨?_, ?_⟩
    · intro w
      simp only [DependencyDAG.step]
      rw [(markShardComplete_released shardId dag).graph, Table.contains, markShardComplete_degree]
      split
      next hw =>
        have hdep := (h.dependents shardId w).mp hw
        have hknown : dag.graph.contains w = true := by
          by_contra hn
          have hnone : dag.graph.get? w = none := Table.contains_eq_false_iff.mp (by simpa using hn)
          simp [getDependencies, hnone] at hdep
        rw [hknown]
        rfl
      next => exact h.degrees w
    · intro s t
      simp only [DependencyDAG.step]
      rw [markShardComplete_dependents, markShardComplete_dependencies]
      exact h.dependents s t

theorem getDependencies_of_unknown {dag : DependencyDAG} {w : Int} (h : ¬dag.Known w) :
    dag.getDependencies w = .empty := by
  have hnone : dag.graph.get? w = none := Table.contains_eq_false_iff.mp (by simpa [Known] using h)
  rw [getDependencies, hnone]
  rfl

/-- A shard that is still to run, known or not, is counted. -/
theorem Counted.counter {dag : DependencyDAG} (hl : dag.Linked) (h : dag.Counted) {w : Int}
    (hw : w ∉ dag.completedShards) : (dag.inDegree.get? w).getD 0 = (dag.pending w : Int) := by
  by_cases hk : dag.Known w
  · rw [h w hk hw]
    rfl
  · have hcontains : dag.inDegree.contains w = false := by
      rw [hl.degrees]
      simpa [Known] using hk
    rw [Table.contains_eq_false_iff.mp hcontains, pending, getDependencies_of_unknown hk]
    rfl

theorem pending_addDependency (fromShard toShard : Int) (needId : String) (artifactRefs : Option (List String))
    (dag : DependencyDAG) (w : Int) :
    (dag.addDependency fromShard toShard needId artifactRefs).pending w =
      if w = fromShard ∧ toShard ∉ dag.getDependencies fromShard ∧ toShard ∉ dag.completedShards then
        dag.pending w + 1 else dag.pending w := by
  rw [pending, addDependency_dependencies, addDependency_completed]
  by_cases hw : w = fromShard
  · subst hw
    rw [if_pos rfl]
    by_cases hd : toShard ∈ dag.getDependencies w
    · rw [ListSet.add_of_mem hd, if_neg fun h => h.2.1 hd]
      rfl
    · rw [ListSet.count_add hd]
      by_cases hc : toShard ∈ dag.completedShards
      · simp [hc, pending]
      · simp [hc, hd, pending]
  · rw [if_neg hw, if_neg fun h => hw h.1]
    rfl

theorem pending_markShardComplete (shardId : Int) (dag : DependencyDAG) (w : Int) :
    (dag.markShardComplete shardId).2.pending w +
      (if shardId ∈ dag.getDependencies w ∧ shardId ∉ dag.completedShards then 1 else 0) = dag.pending w := by
  have hopen : (dag.markShardComplete shardId).2.pending w = (dag.getDependencies w).count
      fun d => (decide ¬d ∈ dag.completedShards) && decide (d ≠ shardId) := by
    rw [pending, markShardComplete_dependencies]
    apply ListSet.count_congr
    intro d _
    rw [← Bool.decide_and]
    apply decide_eq_decide.mpr
    rw [markShardComplete_completed, not_or, and_comm]
  rw [hopen]
  by_cases hd : shardId ∈ dag.getDependencies w
  · by_cases hc : shardId ∈ dag.completedShards
    · rw [if_neg fun h => h.2 hc, Nat.add_zero]
      apply ListSet.count_congr
      intro d _
      by_cases he : d = shardId
      · simp [he, hc]
      · simp [he]
    · rw [if_pos ⟨hd, hc⟩]
      exact ListSet.count_except hd (by simpa using hc)
  · rw [if_neg fun h => hd h.1, Nat.add_zero]
    exact ListSet.count_except_of_not_mem _ hd

theorem Counted.addDependency_iff {dag : DependencyDAG} (hl : dag.Linked) (h : dag.Counted) (fromShard toShard : Int)
    (needId : String) (artifactRefs : Option (List String)) :
    (dag.addDependency fromShard toShard needId artifactRefs).Counted ↔
      dag.Accurate (.addDependency fromShard toShard needId artifactRefs) := by
  constructor
  · intro hstep
    by_cases hc : fromShard ∈ dag.completedShards
    · exact Or.inl hc
    · right
      have hknown : (dag.addDependency fromShard toShard needId artifactRefs).Known fromShard := by
        rw [Known, addDependency_known]
        simp
      have hfrom := hstep fromShard hknown (by rwa [addDependency_completed])
      rw [addDependency_degree, if_pos rfl, pending_addDependency, h.counter hl hc] at hfrom
      have hcount := Option.some.inj hfrom
      by_contra hn
      rw [if_neg fun hf => hn hf.2] at hcount
      omega
  · intro hcall w hknown hopen
    rw [addDependency_completed] at hopen
    rw [addDependency_degree, pending_addDependency]
    by_cases hf : w = fromShard
    · subst hf
      have hnew := hcall.resolve_left hopen
      rw [if_pos rfl, if_pos ⟨rfl, hnew⟩, h.counter hl hopen]
      rfl
    · have hpending : (if w = fromShard ∧ toShard ∉ dag.getDependencies fromShard ∧ toShard ∉ dag.completedShards
          then dag.pending w + 1 else dag.pending w) = dag.pending w := if_neg fun h => hf h.1
      rw [hpending, if_neg hf]
      by_cases hk : dag.Known w
      · have hkeep : ¬(w = toShard ∧ ¬dag.Known toShard) := fun ht => ht.2 (ht.1 ▸ hk)
        rw [if_neg hkeep]
        exact h w hk hopen
      · have ht : w = toShard := by
          rw [Known, addDependency_known] at hknown
          simp only [Known, Bool.not_eq_true] at hk
          simpa [hk, hf] using hknown
        have hfresh : w = toShard ∧ ¬dag.Known toShard := ⟨ht, ht ▸ hk⟩
        rw [if_pos hfresh, pending, getDependencies_of_unknown hk]
        rfl

theorem Counted.markShardComplete_iff {dag : DependencyDAG} (hl : dag.Linked) (h : dag.Counted) (shardId : Int) :
    (dag.markShardComplete shardId).2.Counted ↔ dag.Accurate (.markShardComplete shardId) := by
  simp only [Accurate]
  have hdegree {w : Int} (hw : w ∉ dag.completedShards) (hk : dag.Known w) :
      (dag.markShardComplete shardId).2.inDegree.get? w =
        some ((dag.pending w : Int) - if shardId ∈ dag.getDependencies w then 1 else 0) := by
    rw [markShardComplete_degree, h.counter hl hw]
    by_cases hd : shardId ∈ dag.getDependencies w
    · rw [if_pos ((hl.dependents _ _).mpr hd), if_pos hd]
    · rw [if_neg fun hm => hd ((hl.dependents _ _).mp hm), if_neg hd, Int.sub_zero]
      exact h w hk hw
  constructor
  · intro hstep
    by_contra hn
    rw [not_or, not_not, not_forall] at hn
    obtain ⟨hdone, w, hw⟩ := hn
    rw [Classical.not_imp] at hw
    obtain ⟨hdependent, hopen⟩ := hw
    have hd := (hl.dependents _ _).mp hdependent
    have hk : dag.Known w := by
      by_contra hunknown
      rw [getDependencies_of_unknown hunknown] at hd
      exact ListSet.not_mem_empty _ hd
    have hafter : w ∉ (dag.markShardComplete shardId).2.completedShards := by
      rw [markShardComplete_completed, not_or]
      exact ⟨fun he => hopen (he ▸ hdone), hopen⟩
    have hw := hstep w ((markShardComplete_known shardId dag w).mpr hk) hafter
    have hpending := pending_markShardComplete shardId dag w
    rw [hdegree hopen hk, if_pos hd] at hw
    rw [if_neg fun h => h.2 hdone] at hpending
    have hcount := Option.some.inj hw
    omega
  · intro hcall w hk hopen
    rw [markShardComplete_completed, not_or] at hopen
    rw [markShardComplete_known] at hk
    have hpending := pending_markShardComplete shardId dag w
    rw [hdegree hopen.2 hk]
    apply congrArg some
    by_cases hd : shardId ∈ dag.getDependencies w
    · have hfirst : shardId ∉ dag.completedShards := by
        rcases hcall with hc | hc
        · exact hc
        · exact fun _ => hopen.2 (hc w ((hl.dependents _ _).mpr hd))
      rw [if_pos ⟨hd, hfirst⟩] at hpending
      rw [if_pos hd]
      omega
    · rw [if_neg fun h => hd h.1] at hpending
      rw [if_neg hd]
      omega

/-- An exact counter stays exact through a call if and only if the call is one
that the counter follows. -/
theorem Counted.step_iff {dag : DependencyDAG} (hl : dag.Linked) (h : dag.Counted) (call : DagCall) :
    (dag.step call).Counted ↔ dag.Accurate call := by
  cases call with
  | addDependency fromShard toShard needId artifactRefs => exact h.addDependency_iff hl fromShard toShard needId artifactRefs
  | markShardComplete shardId => exact h.markShardComplete_iff hl shardId

theorem mem_getReadyShards {dag : DependencyDAG} {w : Int} :
    w ∈ dag.getReadyShards ↔ dag.inDegree.get? w = some 0 ∧ w ∉ dag.completedShards := by
  unfold getReadyShards
  rw [List.mem_map]
  constructor
  · intro h
    obtain ⟨entry, hm, rfl⟩ := h
    obtain ⟨hentry, hready⟩ := List.mem_filter.mp hm
    obtain ⟨hzero, hopen⟩ := of_decide_eq_true hready
    exact ⟨Table.get?_eq_some_iff.mpr (hzero ▸ hentry), hopen⟩
  · intro h
    refine ⟨(w, 0), ?_, rfl⟩
    rw [List.mem_filter, decide_eq_true_eq]
    exact ⟨Table.get?_eq_some_iff.mp h.1, rfl, h.2⟩

theorem pending_eq_zero {dag : DependencyDAG} {w : Int} :
    dag.pending w = 0 ↔ ∀ d ∈ dag.getDependencies w, d ∈ dag.completedShards := by
  rw [pending, ListSet.count_eq_zero]
  simp

/-- What the graph says about readiness is what its sets say. -/
structure Exact (dag : DependencyDAG) : Prop where
  ready : ∀ s, s ∈ dag.getReadyShards ↔ dag.Ready s
  blocking : ∀ s, dag.Known s → s ∉ dag.completedShards →
    (s ∈ dag.getReadyShards ↔ ∀ b, b ∉ dag.getBlockingShards s)

/-- A completion returns the shards that become ready by it. -/
def ReturnsNewlyReady (dag : DependencyDAG) (shardId : Int) : Prop :=
  ∀ w, w ∈ (dag.markShardComplete shardId).1 ↔ ¬dag.Ready w ∧ (dag.markShardComplete shardId).2.Ready w

theorem Counted.exact {dag : DependencyDAG} (hl : dag.Linked) (h : dag.Counted) : dag.Exact := by
  have hready (s : Int) : s ∈ dag.getReadyShards ↔ dag.Ready s := by
    rw [mem_getReadyShards, Ready, ← pending_eq_zero]
    constructor
    · intro hs
      have hknown : dag.Known s := by
        rw [Known, ← hl.degrees, Table.contains, hs.1]
        rfl
      have hcount := Option.some.inj (hs.1.symm.trans (h s hknown hs.2))
      exact ⟨hknown, hs.2, by omega⟩
    · intro hs
      obtain ⟨hknown, hopen, hzero⟩ := hs
      rw [h s hknown hopen, hzero]
      exact ⟨rfl, hopen⟩
  refine ⟨hready, ?_⟩
  intro s hknown hopen
  rw [hready]
  constructor
  · intro hs b hb
    obtain ⟨hd, hc⟩ := ListSet.mem_diff.mp hb
    exact hc (hs.2.2 b hd)
  · intro hs
    refine ⟨hknown, hopen, ?_⟩
    intro d hd
    by_contra hc
    exact hs d (ListSet.mem_diff.mpr ⟨hd, hc⟩)

theorem Counted.returnsNewlyReady {dag : DependencyDAG} (hl : dag.Linked) (h : dag.Counted) {shardId : Int}
    (hcall : dag.Accurate (.markShardComplete shardId)) : dag.ReturnsNewlyReady shardId := by
  intro w
  have hpending := pending_markShardComplete shardId dag w
  have hready : (dag.markShardComplete shardId).2.Ready w ↔
      dag.Known w ∧ (w ≠ shardId ∧ w ∉ dag.completedShards) ∧ (dag.markShardComplete shardId).2.pending w = 0 := by
    rw [Ready, ← pending_eq_zero, markShardComplete_known, markShardComplete_completed, not_or]
  rw [mem_markShardComplete, hready, hl.dependents]
  constructor
  · intro hw
    obtain ⟨hd, hone, hne, hopen⟩ := hw
    rw [h.counter hl hopen] at hone
    have hfirst : shardId ∉ dag.completedShards :=
      hcall.resolve_right fun hdone => hopen (hdone w ((hl.dependents _ _).mpr hd))
    rw [if_pos ⟨hd, hfirst⟩] at hpending
    have hknown : dag.Known w := by
      by_contra hunknown
      rw [getDependencies_of_unknown hunknown] at hd
      exact ListSet.not_mem_empty _ hd
    exact ⟨fun hr => hfirst (hr.2.2 shardId hd), hknown, ⟨hne, hopen⟩, by omega⟩
  · intro hw
    obtain ⟨hnot, hknown, ⟨hne, hopen⟩, hzero⟩ := hw
    have hpos : dag.pending w ≠ 0 := fun hz => hnot ⟨hknown, hopen, pending_eq_zero.mp hz⟩
    rw [hzero] at hpending
    split at hpending
    next hd =>
      refine ⟨hd.1, ?_, hne, hopen⟩
      rw [h.counter hl hopen]
      omega
    next => omega

/-- The graphs that calls allowed by `ok` lead to from the empty one. -/
def Reached (ok : DependencyDAG → DagCall → Prop) : DependencyDAG → Prop :=
  Visits (fun dag call dag' => dag' = dag.step call) ok init

theorem Reached.counted {dag : DependencyDAG} (h : Reached Accurate dag) : dag.Linked ∧ dag.Counted := by
  apply Visits.invariant (I := fun dag => dag.Linked ∧ dag.Counted) h
  · refine ⟨linked_init, ?_⟩
    intro s hs
    simp [Known, init, Table.contains] at hs
  · intro s call s' hs hok hstep
    rw [hstep]
    exact ⟨hs.1.step call, (hs.2.step_iff hs.1 call).mpr hok⟩

/-- Readiness is exact in every run whose calls the counters follow. -/
theorem readiness_exact {dag : DependencyDAG} (h : Reached Accurate dag) :
    dag.Exact ∧ ∀ shardId, dag.Accurate (.markShardComplete shardId) → dag.ReturnsNewlyReady shardId := by
  obtain ⟨hl, hc⟩ := h.counted
  exact ⟨hc.exact hl, fun _ hcall => hc.returnsNewlyReady hl hcall⟩

def twoWaitsForOne : DependencyDAG := init.step (.addDependency 2 1 "need-a" none)

theorem readiness_exact_two_waits_for_one : Reached Accurate twoWaitsForOne ∧ twoWaitsForOne.Exact ∧
    (twoWaitsForOne.markShardComplete 1).1.elems = [2] := by
  have hnew : init.Accurate (.addDependency 2 1 "need-a" none) := Or.inr ⟨by decide, by decide⟩
  have hrun : Reached Accurate twoWaitsForOne := .next .start hnew rfl
  exact ⟨hrun, (readiness_exact hrun).1, by decide⟩

/-- Two needs between the same shards: the counter is 2, one completion takes 1
away, and the shard is never ready. -/
theorem shard_added_twice_never_ready : ∃ dag, Reached (fun _ _ => True) dag ∧
    dag.Ready 2 ∧ dag.getBlockingShards 2 = .empty ∧ 2 ∉ dag.getReadyShards ∧ ¬dag.Exact := by
  have hrun : Reached (fun _ _ => True) (((twoWaitsForOne.step (.addDependency 2 1 "need-b" none)).step
      (.markShardComplete 1))) :=
    .next (.next (.next .start trivial rfl) trivial rfl) trivial rfl
  have hready : ((twoWaitsForOne.step (.addDependency 2 1 "need-b" none)).step (.markShardComplete 1)).Ready 2 := by
    refine ⟨by decide, by decide, ?_⟩
    have hall : ((twoWaitsForOne.step (.addDependency 2 1 "need-b" none)).step
        (.markShardComplete 1)).getDependencies 2 = ⟨[1], by decide⟩ := by decide
    rw [hall]
    intro d hd
    rw [List.mem_singleton.mp hd]
    decide
  have hnot : 2 ∉ ((twoWaitsForOne.step (.addDependency 2 1 "need-b" none)).step
      (.markShardComplete 1)).getReadyShards := by decide
  exact ⟨_, hrun, hready, by decide, hnot, fun hexact => hnot ((hexact.ready 2).mpr hready)⟩

end DependencyDAG

end AgentNetwork.Sharding
