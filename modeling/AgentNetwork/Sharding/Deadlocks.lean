import AgentNetwork.Library.TopologicalOrder
import AgentNetwork.Sharding.CycleSearch
import Mathlib.Algebra.BigOperators.Ring.Finset
import Mathlib.Algebra.Ring.Int.Defs
import Mathlib.Data.List.Dedup

/-! The topological sort of the shards and deadlocks. The sort starts from the counters,
which repeated dependencies raise and completed shards lower. -/

namespace AgentNetwork.Sharding

open Relation Relational DepthFirst TopologicalOrder Transition

namespace DependencyDAG

/-- The loop over the shards that depend on the one just taken, on a copy of the counters. -/
def takeDependents : List Int → Table Int Int × List Int → Table Int Int × List Int
  | [], s => s
  | dependent :: rest, (inDegree, queue) =>
    let inDegree := bump inDegree dependent (-1)
    takeDependents rest (inDegree, if inDegree.get? dependent = some 0 then queue ++ [dependent] else queue)

def topoLoop (order : SetOrder) (dag : DependencyDAG) : Nat → List Int → Table Int Int → List Int → Option (List Int)
  | _, [], _, result => some result
  | 0, _ :: _, _, _ => none
  | fuel + 1, shard :: queue, inDegree, result =>
    let s := takeDependents (order.visit (dag.getDependents shard)) (inDegree, queue)
    topoLoop order dag fuel s.2 s.1 (result ++ [shard])

def topoQueue (dag : DependencyDAG) : List Int := dag.graph.keys.filter fun shard => (dag.inDegree.get? shard).getD 0 = 0

/-- The order, or None for a cycle. -/
def topoSortShards (order : SetOrder) (dag : DependencyDAG) : Option (Option (List Int)) :=
  match topoLoop order dag dag.graph.keys.length dag.topoQueue dag.inDegree [] with
  | none => none
  | some result => some (if result.length ≠ dag.graph.keys.length then none else some result)

def detectDeadlock (order : SetOrder) (dag : DependencyDAG) : Option Bool := (dag.topoSortShards order).map Option.isNone

def shards (dag : DependencyDAG) : ListSet Int := ⟨dag.graph.keys, dag.graph.keysNodup⟩

def dependents (order : SetOrder) (dag : DependencyDAG) (shard : Int) : List Int := order.visit (dag.getDependents shard)

def counter (inDegree : Table Int Int) (shard : Int) : Int := (inDegree.get? shard).getD 0

section Kahn

variable {order : SetOrder} {dag : DependencyDAG}

theorem counter_bump (inDegree : Table Int Int) (dependent : Int) :
    counter (bump inDegree dependent (-1)) = Function.update (counter inDegree) dependent (counter inDegree dependent - 1) := by
  funext shard
  rw [counter, bump, Table.get?_upsert]
  by_cases h : shard = dependent
  · rw [if_pos h, h, Function.update_self]
    rfl
  · rw [if_neg h, Function.update_of_ne h]
    rfl

/-- On shards of the graph the loop is the one of the general algorithm. -/
theorem release_eq_takeDependents {nodes : ListSet Int} {pending : List Int} (hpending : ∀ d ∈ pending, d ∈ nodes)
    (inDegree : Table Int Int) (queue : List Int) :
    TopologicalOrder.release nodes pending (counter inDegree, queue) =
      (counter (takeDependents pending (inDegree, queue)).1, (takeDependents pending (inDegree, queue)).2) := by
  induction pending generalizing inDegree queue with
  | nil => rfl
  | cons dependent rest ih =>
    obtain ⟨hdependent, hrest⟩ := List.forall_mem_cons.mp hpending
    have hzero : (bump inDegree dependent (-1)).get? dependent = some 0 ↔ counter inDegree dependent - 1 = 0 := by
      rw [bump, Table.get?_upsert, if_pos rfl, Option.some_inj, ← sub_eq_add_neg]
      rfl
    rw [TopologicalOrder.release, if_pos hdependent, takeDependents]
    dsimp only
    rw [← counter_bump, ih hrest, if_congr hzero rfl rfl]

theorem topoLoop_eq_drain (hdependents : ∀ u, ∀ d ∈ dag.dependents order u, d ∈ dag.shards) (fuel : Nat) (queue : List Int)
    (inDegree : Table Int Int) (result : List Int) :
    topoLoop order dag fuel queue inDegree result = drain (dag.dependents order) dag.shards fuel queue (counter inDegree) result := by
  induction fuel generalizing queue inDegree result with
  | zero => cases queue <;> rfl
  | succ fuel ih =>
    cases queue with
    | nil => rfl
    | cons shard queue =>
      rw [topoLoop, drain, release_eq_takeDependents (hdependents shard), ih]
      rfl

/-- Every counter is the number of dependencies. -/
def CountsEach (dag : DependencyDAG) : Prop :=
  ∀ shard ∈ dag.shards, counter dag.inDegree shard = (dag.getDependencies shard).elems.length

theorem Linked.dependents_iff (h : dag.Linked) {u d : Int} : d ∈ dag.dependents order u ↔ u ∈ dag.getDependencies d :=
  order.mem_visit.trans (h.dependents u d)

theorem drained_counters (h : dag.Linked) (hkeys : ∀ a b, b ∈ dag.getDependencies a → a ∈ dag.shards ∧ b ∈ dag.shards)
    (hcounts : dag.CountsEach) :
    Drained (dag.dependents order) dag.shards dag.topoQueue (counter dag.inDegree) [] where
  nodup := dag.graph.keysNodup.filter _
  inside := fun _ hv => (List.mem_filter.mp hv).1
  degree := fun v hv => by
    have hone : ∀ u, ((dag.dependents order u).count v : Int) = if u ∈ dag.getDependencies v then 1 else 0 := by
      intro u
      have hnodup : (dag.dependents order u).Nodup := order.nodup_visit _
      rw [hnodup.count, if_congr h.dependents_iff rfl rfl]
      split <;> rfl
    have hset : dag.shards.elems.toFinset.filter (· ∈ dag.getDependencies v) = (dag.getDependencies v).elems.toFinset := by
      ext u
      rw [Finset.mem_filter, List.mem_toFinset, List.mem_toFinset]
      exact and_iff_right_of_imp fun hu => (hkeys v u hu).2
    rw [hcounts v hv, List.toFinset_nil, Finset.sdiff_empty, Finset.sum_congr rfl fun u _ => hone u, Finset.sum_boole, hset,
      List.toFinset_card_of_nodup (dag.getDependencies v).nodup]
  zero := fun v hv => by
    rw [List.nil_append, topoQueue, List.mem_filter, decide_eq_true_eq]
    exact and_iff_right hv
  before := fun front v back h => by simp at h

/-- With exact counters the sort gives None just for cycles, and else an order in which
every shard comes after those it depends on. -/
theorem topoSortShards_spec (h : dag.Linked) (hkeys : ∀ a b, b ∈ dag.getDependencies a → a ∈ dag.shards ∧ b ∈ dag.shards)
    (hcounts : dag.CountsEach) : ∃ outcome, dag.topoSortShards order = some outcome ∧
      (outcome = none ↔ ∃ v, TransGen (fun a b => b ∈ dag.getDependencies a) v v) ∧
      ∀ sorted, outcome = some sorted → sorted.Perm dag.graph.keys ∧
        ∀ a b, b ∈ dag.getDependencies a → sorted.idxOf b < sorted.idxOf a := by
  have hdependents : ∀ u, ∀ d ∈ dag.dependents order u, d ∈ dag.shards := fun u d hd => (hkeys d u (h.dependents_iff.mp hd)).1
  obtain ⟨_, result, hdrain, hdrained⟩ := (@drained_counters order dag h hkeys hcounts).drain (Nat.le_add_right _ _)
  have hloop : topoLoop order dag dag.graph.keys.length dag.topoQueue dag.inDegree [] = some result :=
    (topoLoop_eq_drain hdependents _ _ _ _).trans hdrain
  have hinside : ∀ u v, Inside (dag.dependents order) dag.shards u v ↔ u ∈ dag.getDependencies v := by
    intro u v
    rw [Inside, Edge, h.dependents_iff]
    exact ⟨fun hedge => hedge.2.2, fun hedge => ⟨(hkeys v u hedge).2, (hkeys v u hedge).1, hedge⟩⟩
  have hcycle : (∃ v, TransGen (Inside (dag.dependents order) dag.shards) v v) ↔ ∃ v, TransGen (fun a b => b ∈ dag.getDependencies a) v v := by
    have hswap : Inside (dag.dependents order) dag.shards = Function.swap fun a b => b ∈ dag.getDependencies a := by
      funext u v
      exact propext (hinside u v)
    rw [hswap]
    exact exists_congr fun v => transGen_swap
  obtain ⟨hacyclic, hsorted⟩ := hdrained.complete
  rw [hcycle] at hacyclic
  refine ⟨_, by rw [topoSortShards, hloop], ?_, fun sorted hsome => ?_⟩
  · by_cases hlength : result.length = dag.graph.keys.length
    · rw [if_neg (not_not.mpr hlength)]
      exact iff_of_false (Option.some_ne_none _) (hacyclic.mp hlength)
    · rw [if_pos hlength]
      exact iff_of_true rfl (by_contra fun hnone => hlength (hacyclic.mpr hnone))
  · by_cases hlength : result.length = dag.graph.keys.length
    · rw [if_neg (not_not.mpr hlength)] at hsome
      obtain rfl := Option.some.inj hsome
      obtain ⟨hperm, hforward⟩ := hsorted hlength
      exact ⟨hperm, fun a b hab => hforward b a ((hinside b a).mpr hab)⟩
    · rw [if_pos hlength] at hsome
      cases hsome

theorem takeDependents_spec {pending : List Int} (hpending : pending.Nodup) (inDegree : Table Int Int) (queue : List Int) :
    (∀ v, counter (takeDependents pending (inDegree, queue)).1 v = counter inDegree v - if v ∈ pending then 1 else 0) ∧
      ∃ added, (takeDependents pending (inDegree, queue)).2 = queue ++ added ∧ added.Nodup ∧
        ∀ v ∈ added, v ∈ pending ∧ counter inDegree v = 1 := by
  induction pending generalizing inDegree queue with
  | nil => exact ⟨fun v => (sub_zero _).symm, [], (List.append_nil _).symm, List.nodup_nil, List.forall_mem_nil _⟩
  | cons dependent rest ih =>
    obtain ⟨hdependent, hrest⟩ := List.nodup_cons.mp hpending
    obtain ⟨hcounter, added, hqueue, hnodup, hadded⟩ := ih hrest (bump inDegree dependent (-1))
      (if (bump inDegree dependent (-1)).get? dependent = some 0 then queue ++ [dependent] else queue)
    have hbump : ∀ v, counter (bump inDegree dependent (-1)) v = counter inDegree v - if v = dependent then 1 else 0 := by
      intro v
      rw [counter_bump]
      by_cases hv : v = dependent
      · rw [hv, Function.update_self, if_pos rfl]
      · rw [Function.update_of_ne hv, if_neg hv, sub_zero]
    have hother : ∀ v ∈ added, v ∈ rest ∧ counter inDegree v = 1 := by
      intro v hv
      obtain ⟨hmem, hone⟩ := hadded v hv
      have hne : v ≠ dependent := fun he => hdependent (he ▸ hmem)
      rw [hbump, if_neg hne, sub_zero] at hone
      exact ⟨hmem, hone⟩
    rw [takeDependents]
    refine ⟨fun v => ?_, ?_⟩
    · rw [hcounter, hbump]
      by_cases hv : v = dependent
      · subst hv
        rw [if_pos rfl, if_neg hdependent, if_pos List.mem_cons_self, sub_zero]
      · simp only [List.mem_cons, hv, if_false, false_or, sub_zero]
    · by_cases hzero : (bump inDegree dependent (-1)).get? dependent = some 0
      · have hone : counter inDegree dependent = 1 := by
          have hcount := hbump dependent
          rw [counter, hzero, if_pos rfl] at hcount
          have hcount' : (0 : Int) = counter inDegree dependent - 1 := hcount
          omega
        rw [if_pos hzero] at hqueue
        refine ⟨dependent :: added, ?_, List.nodup_cons.mpr ⟨fun hm => hdependent (hother _ hm).1, hnodup⟩, ?_⟩
        · rw [if_pos hzero, hqueue, List.append_assoc]
          rfl
        · refine List.forall_mem_cons.mpr ⟨⟨List.mem_cons_self, hone⟩, fun v hv => ?_⟩
          exact ⟨List.mem_cons_of_mem _ (hother v hv).1, (hother v hv).2⟩
      · rw [if_neg hzero] at hqueue
        refine ⟨added, ?_, hnodup, fun v hv => ⟨List.mem_cons_of_mem _ (hother v hv).1, (hother v hv).2⟩⟩
        rw [if_neg hzero, hqueue]

/-- No shard is queued twice, whatever the counters: they only go down. -/
structure Queued (dag : DependencyDAG) (queue : List Int) (inDegree : Table Int Int) (result : List Int) : Prop where
  nodup : (result ++ queue).Nodup
  inside : ∀ v ∈ result ++ queue, v ∈ dag.shards
  below : ∀ v ∈ result ++ queue, counter inDegree v ≤ 0

theorem Queued.take {shard : Int} {queue result : List Int} {inDegree : Table Int Int}
    (hdependents : ∀ u, ∀ d ∈ dag.dependents order u, d ∈ dag.shards) (h : Queued dag (shard :: queue) inDegree result) :
    Queued dag (takeDependents (order.visit (dag.getDependents shard)) (inDegree, queue)).2
      (takeDependents (order.visit (dag.getDependents shard)) (inDegree, queue)).1 (result ++ [shard]) := by
  obtain ⟨hcounter, added, hqueue, hnodup, hadded⟩ := takeDependents_spec (order.nodup_visit (dag.getDependents shard)) inDegree queue
  have hassoc : result ++ [shard] ++ (queue ++ added) = result ++ shard :: queue ++ added := by simp
  rw [hqueue]
  refine ⟨?_, ?_, ?_⟩
  · rw [hassoc]
    refine List.nodup_append.mpr ⟨h.nodup, hnodup, fun v hv w hw heq => ?_⟩
    have hbelow := h.below v hv
    have hone := (hadded w hw).2
    rw [← heq] at hone
    omega
  · rw [hassoc]
    exact List.forall_mem_append.mpr ⟨h.inside, fun v hv => hdependents shard v (hadded v hv).1⟩
  · rw [hassoc]
    refine List.forall_mem_append.mpr ⟨fun v hv => ?_, fun v hv => ?_⟩
    · have hbelow := h.below v hv
      rw [hcounter]
      split <;> omega
    · obtain ⟨hmem, hone⟩ := hadded v hv
      rw [hcounter, hone, if_pos hmem, sub_self]

theorem Queued.loop {queue result : List Int} {inDegree : Table Int Int} {fuel : Nat}
    (hdependents : ∀ u, ∀ d ∈ dag.dependents order u, d ∈ dag.shards) (h : Queued dag queue inDegree result)
    (hfuel : dag.graph.keys.length ≤ fuel + result.length) : ∃ sorted, topoLoop order dag fuel queue inDegree result = some sorted := by
  induction fuel generalizing queue inDegree result with
  | zero =>
    cases queue with
    | nil => exact ⟨result, rfl⟩
    | cons shard queue =>
      have hle : (result ++ shard :: queue).length ≤ dag.graph.keys.length := (h.nodup.subperm h.inside).length_le
      rw [List.length_append, List.length_cons] at hle
      omega
  | succ fuel ih =>
    cases queue with
    | nil => exact ⟨result, rfl⟩
    | cons shard queue =>
      refine ih (h.take hdependents) ?_
      rw [List.length_append, List.length_singleton]
      omega

/-- The sort ends, whatever the counters. -/
theorem topoSortShards_total (h : dag.Linked) (hkeys : ∀ a b, b ∈ dag.getDependencies a → a ∈ dag.shards ∧ b ∈ dag.shards) :
    ∃ outcome, dag.topoSortShards order = some outcome := by
  have hdependents : ∀ u, ∀ d ∈ dag.dependents order u, d ∈ dag.shards := fun u d hd => (hkeys d u (h.dependents_iff.mp hd)).1
  have hstart : Queued dag dag.topoQueue dag.inDegree [] := by
    refine ⟨dag.graph.keysNodup.filter _, fun v hv => (List.mem_filter.mp hv).1, fun v hv => ?_⟩
    exact (of_decide_eq_true (List.mem_filter.mp hv).2).le
  obtain ⟨sorted, hloop⟩ := hstart.loop hdependents (Nat.le_add_right _ _)
  rw [topoSortShards, hloop]
  exact ⟨_, rfl⟩

end Kahn

/-- The dependency that a call adds to a shard. -/
def addedBy (shard : Int) : DagCall → List Int
  | .addDependency fromShard toShard _ _ => if fromShard = shard then [toShard] else []
  | .markShardComplete _ => []

def added (calls : List DagCall) (shard : Int) : List Int := calls.flatMap (addedBy shard)

theorem added_cons (call : DagCall) (rest : List DagCall) (shard : Int) :
    added (call :: rest) shard = addedBy shard call ++ added rest shard := rfl

/-- The pair was added. -/
def DependsOn (calls : List DagCall) (a b : Int) : Prop := b ∈ added calls a

/-- What a step counts for a shard: a dependency added, or one of its dependencies completed. -/
def charge (shard : Int) (e : DependencyDAG × DagCall × DependencyDAG) : Int :=
  match e.2.1 with
  | .addDependency fromShard _ _ _ => if fromShard = shard then 1 else 0
  | .markShardComplete shardId => if shardId ∈ e.1.getDependencies shard then -1 else 0

/-- For each shard as many dependencies were added, repetitions counted, less the times one
was completed, as it has different ones. -/
def Balanced (calls : List DagCall) : Prop :=
  ∀ shard, ((stepsOf step init calls).map (charge shard)).sum = ((added calls shard).dedup.length : Int)

section Runs

variable {dag : DependencyDAG} {calls : List DagCall}

theorem Linked.run (h : dag.Linked) (calls : List DagCall) : (calls.foldl DependencyDAG.step dag).Linked := by
  induction calls generalizing dag with
  | nil => exact h
  | cons call rest ih => exact ih (h.step call)

theorem mem_getDependencies_step (dag : DependencyDAG) (call : DagCall) (a b : Int) :
    b ∈ (dag.step call).getDependencies a ↔ b ∈ dag.getDependencies a ∨ b ∈ addedBy a call := by
  cases call with
  | addDependency fromShard toShard needId artifactRefs =>
    rw [step, addDependency_dependencies, addedBy]
    by_cases ha : a = fromShard
    · rw [if_pos ha, if_pos ha.symm, ListSet.mem_add, List.mem_singleton, or_comm, ha]
    · rw [if_neg ha, if_neg (Ne.symm ha)]
      exact (or_iff_left List.not_mem_nil).symm
  | markShardComplete shardId =>
    rw [step, markShardComplete_dependencies]
    exact (or_iff_left List.not_mem_nil).symm

theorem mem_getDependencies_run (dag : DependencyDAG) (calls : List DagCall) (a b : Int) :
    b ∈ (calls.foldl step dag).getDependencies a ↔ b ∈ dag.getDependencies a ∨ b ∈ added calls a := by
  induction calls generalizing dag with
  | nil => exact (or_iff_left List.not_mem_nil).symm
  | cons call rest ih =>
    rw [List.foldl_cons, ih, mem_getDependencies_step, added_cons, List.mem_append, or_assoc]

theorem known_step (dag : DependencyDAG) (call : DagCall) (s : Int) :
    (dag.step call).Known s ↔ dag.Known s ∨ ∃ t, t ∈ addedBy s call ∨ s ∈ addedBy t call := by
  cases call with
  | addDependency fromShard toShard needId artifactRefs =>
    rw [step, Known, addDependency_known, Bool.or_eq_true, Bool.or_eq_true, decide_eq_true_eq, decide_eq_true_eq, or_assoc]
    refine or_congr Iff.rfl ⟨?_, ?_⟩
    · rintro (rfl | rfl)
      · exact ⟨toShard, .inl (by simp [addedBy])⟩
      · exact ⟨fromShard, .inr (by simp [addedBy])⟩
    · rintro ⟨t, ht | ht⟩
      · by_cases hs : fromShard = s
        · exact .inl hs.symm
        · simp [addedBy, hs] at ht
      · by_cases hs : fromShard = t
        · simp only [addedBy, hs, if_true, List.mem_singleton] at ht
          exact .inr ht
        · simp [addedBy, hs] at ht
  | markShardComplete shardId =>
    rw [step, markShardComplete_known]
    refine (or_iff_left ?_).symm
    rintro ⟨_, h | h⟩ <;> cases h

theorem known_run (dag : DependencyDAG) (calls : List DagCall) (s : Int) :
    (calls.foldl step dag).Known s ↔ dag.Known s ∨ ∃ t, t ∈ added calls s ∨ s ∈ added calls t := by
  induction calls generalizing dag with
  | nil => simp [added]
  | cons call rest ih =>
    simp only [List.foldl_cons, ih, known_step, added_cons, List.mem_append, or_assoc, ← exists_or]
    refine or_congr Iff.rfl (exists_congr fun t => ?_)
    tauto

theorem counter_step (h : dag.Linked) (call : DagCall) (s : Int) :
    counter (dag.step call).inDegree s = counter dag.inDegree s + charge s (dag, call, dag.step call) := by
  cases call with
  | addDependency fromShard toShard needId artifactRefs =>
    rw [counter, step, addDependency_degree, charge]
    dsimp only
    by_cases hs : s = fromShard
    · rw [if_pos hs, if_pos hs.symm, hs]
      rfl
    · rw [if_neg hs, if_neg (Ne.symm hs), add_zero]
      by_cases ht : s = toShard ∧ ¬dag.Known toShard
      · have hnone : dag.inDegree.get? s = none := by
          have hunknown : dag.graph.contains s = false := by
            rw [ht.1]
            exact Bool.eq_false_iff.mpr ht.2
          rw [← h.degrees] at hunknown
          exact Table.contains_eq_false_iff.mp hunknown
        rw [if_pos ht, counter, hnone]
        rfl
      · rw [if_neg ht]
        rfl
  | markShardComplete shardId =>
    rw [counter, step, markShardComplete_degree, charge]
    dsimp only
    by_cases hs : shardId ∈ dag.getDependencies s
    · rw [if_pos ((h.dependents shardId s).mpr hs), if_pos hs, ← sub_eq_add_neg]
      rfl
    · rw [if_neg (mt (h.dependents shardId s).mp hs), if_neg hs, add_zero]
      rfl

theorem counter_run (h : dag.Linked) (calls : List DagCall) (s : Int) :
    counter (calls.foldl step dag).inDegree s = counter dag.inDegree s + ((stepsOf step dag calls).map (charge s)).sum := by
  induction calls generalizing dag with
  | nil => exact (add_zero _).symm
  | cons call rest ih => rw [List.foldl_cons, ih (h.step call), counter_step h, stepsOf, List.map_cons, List.sum_cons, add_assoc]

theorem mem_shards {s : Int} : s ∈ dag.shards ↔ dag.Known s := by
  rw [Known, ← Bool.not_eq_false, Table.contains_eq_false_iff, Table.get?_eq_none_iff, not_not]
  rfl

end Runs

def run (calls : List DagCall) : DependencyDAG := calls.foldl step init

/-- Cycles are found just where there are some, and what is found is one. -/
def FindsCycles (order : SetOrder) (calls : List DagCall) : Prop :=
  ∃ cycles, (run calls).findCycles order = some cycles ∧ (cycles ≠ [] ↔ ∃ v, TransGen (DependsOn calls) v v) ∧
    ∀ walk ∈ cycles, ClosedWalk (DependsOn calls) walk

/-- Deadlocks are the cycles, and a sort has each shard once, after those it depends on. -/
structure DetectsDeadlocks (order : SetOrder) (calls : List DagCall) : Prop where
  deadlock : (run calls).detectDeadlock order = some true ↔ ∃ v, TransGen (DependsOn calls) v v
  sorted : ∀ sorted, (run calls).topoSortShards order = some (some sorted) → sorted.Nodup ∧
    (∀ s, s ∈ sorted ↔ ∃ t, DependsOn calls s t ∨ DependsOn calls t s) ∧
    ∀ a b, DependsOn calls a b → sorted.idxOf b < sorted.idxOf a

section Reached

variable (calls : List DagCall)

theorem linked_run : (run calls).Linked := linked_init.run calls

theorem mem_getDependencies (a b : Int) : b ∈ (run calls).getDependencies a ↔ DependsOn calls a b := by
  rw [run, mem_getDependencies_run]
  exact or_iff_right (ListSet.not_mem_empty b)

theorem mem_shards_run (s : Int) : s ∈ (run calls).shards ↔ ∃ t, DependsOn calls s t ∨ DependsOn calls t s := by
  rw [mem_shards, run, known_run]
  exact or_iff_right Bool.false_ne_true

theorem keys_of_dependency (a b : Int) (h : b ∈ (run calls).getDependencies a) : a ∈ (run calls).shards ∧ b ∈ (run calls).shards := by
  rw [mem_getDependencies] at h
  rw [mem_shards_run, mem_shards_run]
  exact ⟨⟨b, .inl h⟩, ⟨a, .inr h⟩⟩

theorem Balanced.countsEach {calls : List DagCall} (h : Balanced calls) : (run calls).CountsEach := by
  intro shard _
  have hperm : ((run calls).getDependencies shard).elems.Perm (added calls shard).dedup := by
    refine (List.perm_ext_iff_of_nodup ((run calls).getDependencies shard).nodup (List.nodup_dedup _)).mpr fun b => ?_
    rw [List.mem_dedup]
    exact mem_getDependencies calls shard b
  have hstart : counter init.inDegree shard = 0 := rfl
  rw [run, counter_run linked_init, hstart, zero_add, h shard, ← hperm.length_eq, run]

theorem getDependencies_run_eq : (fun a b => b ∈ (run calls).getDependencies a) = DependsOn calls := by
  funext a b
  exact propext (mem_getDependencies calls a b)

theorem findsCycles (order : SetOrder) : FindsCycles order calls := by
  have hfound := findCycles_spec order (keys_of_dependency calls)
  rwa [getDependencies_run_eq] at hfound

end Reached

/-- Cycles are found in every state, and the sort always ends; where the counters are those
of the distinct dependencies it finds every deadlock and no other. -/
theorem deadlocks_are_cycles (order : SetOrder) (calls : List DagCall) :
    FindsCycles order calls ∧ (∃ deadlock, (run calls).detectDeadlock order = some deadlock) ∧
      (Balanced calls → DetectsDeadlocks order calls) := by
  refine ⟨findsCycles calls order, ?_, fun hbalanced => ?_⟩
  · obtain ⟨outcome, hsort⟩ := @topoSortShards_total order _ (linked_run calls) (keys_of_dependency calls)
    exact ⟨outcome.isNone, by rw [detectDeadlock, hsort]; rfl⟩
  · obtain ⟨outcome, hsort, hcycle, hsorted⟩ :=
      @topoSortShards_spec order _ (linked_run calls) (keys_of_dependency calls) hbalanced.countsEach
    rw [getDependencies_run_eq] at hcycle
    refine ⟨?_, fun sorted hsome => ?_⟩
    · rw [detectDeadlock, hsort, Option.map_some, Option.some_inj, Option.isNone_iff_eq_none]
      exact hcycle
    · rw [hsort] at hsome
      obtain ⟨hperm, hafter⟩ := hsorted sorted (Option.some.inj hsome)
      refine ⟨hperm.nodup_iff.mpr (run calls).graph.keysNodup, fun s => ?_, fun a b hab => hafter a b ((mem_getDependencies calls a b).mpr hab)⟩
      rw [hperm.mem_iff]
      exact mem_shards_run calls s

theorem deadlocks_are_cycles_single : DetectsDeadlocks .insertion [.addDependency 0 1 "need" none] := by
  refine (deadlocks_are_cycles .insertion [.addDependency 0 1 "need" none]).2.2 fun shard => ?_
  by_cases h : 0 = shard <;> simp [stepsOf, charge, added, addedBy, h]

/-- The same dependency added twice is taken for a deadlock. -/
theorem repeated_dependency_is_deadlock :
    ¬DetectsDeadlocks .insertion [.addDependency 0 1 "need" none, .addDependency 0 1 "need" none] := by
  intro h
  obtain ⟨v, hcycle⟩ := h.deadlock.mp (by decide)
  have hedge : ∀ a b, DependsOn [.addDependency 0 1 "need" none, .addDependency 0 1 "need" none] a b → a = 0 ∧ b = 1 := by
    intro a b hab
    by_cases ha : 0 = a
    · subst ha
      simpa [DependsOn, added, addedBy] using hab
    · simp [DependsOn, added, addedBy, ha] at hab
  obtain ⟨_, hfirst, _⟩ := TransGen.head'_iff.mp hcycle
  obtain ⟨_, _, hlast⟩ := TransGen.tail'_iff.mp hcycle
  have hzero := (hedge _ _ hfirst).1
  have hone := (hedge _ _ hlast).2
  omega

end DependencyDAG

end AgentNetwork.Sharding
