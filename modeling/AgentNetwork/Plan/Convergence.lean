import AgentNetwork.Plan.LastWriterWins

namespace AgentNetwork.Plan

open Relational StableSort PlanOp AutomergePlanStore

/-- The stores reached from the empty one by appends and merges whose operations
are all of one set. -/
inductive Reached (ops : PlanOp → Prop) : AutomergePlanStore → Prop
  | empty : Reached ops init
  | append {store : AutomergePlanStore} {op : PlanOp} : Reached ops store → ops op → Reached ops (appendOp op store).2
  | merge {store : AutomergePlanStore} {peer : CRDTDocument} {peerLog : List PlanOp} : Reached ops store →
      peer.ops = peerLog.map toDict → (∀ op ∈ peerLog, ops op) → Reached ops (mergeWithPeer peer store).2

/-- The operations in the log of a store. -/
def logOf (store : AutomergePlanStore) : List PlanOp := store.doc.ops.filterMap fun d => d.toOp.toOption

theorem Holds.logOf_eq {log : List PlanOp} {store : AutomergePlanStore} (h : Holds log store) : logOf store = log := by
  have hop (op : PlanOp) : op.toDict.toOp.toOption = some op := by rw [toOp_toDict]; rfl
  rw [logOf, h.ops, List.filterMap_map]
  simp only [Function.comp_def, hop, List.filterMap_some]

theorem Reached.holds {ops : PlanOp → Prop} (hwell : ∀ op, ops op → op.WellFormed) {store : AutomergePlanStore}
    (h : Reached ops store) :
    Holds (logOf store) store ∧ Shows (logOf store) store.doc ∧ ∀ op ∈ logOf store, ops op := by
  suffices hlog : ∃ log, Holds log store ∧ Shows log store.doc ∧ ∀ op ∈ log, ops op by
    obtain ⟨log, hholds, hshows, hops⟩ := hlog
    rw [hholds.logOf_eq]
    exact ⟨hholds, hshows, hops⟩
  induction h with
  | empty => exact ⟨[], holds_init, shows_nil init.doc, by simp⟩
  | @append store op _ hop ih =>
    obtain ⟨log, hholds, hshows, hops⟩ := ih
    obtain ⟨store', happend, hholds', hshows'⟩ := hholds.append hshows (hwell op hop)
    rw [happend]
    refine ⟨_, hholds', hshows', ?_⟩
    intro x hx
    rcases mem_union.mp hx with hx | ⟨hx, _⟩
    · exact hops x hx
    · rwa [List.mem_singleton.mp hx]
  | @merge store peer peerLog _ hpeer hpeerOps ih =>
    obtain ⟨log, hholds, _, hops⟩ := ih
    obtain ⟨store', hmerge, hholds', hshows'⟩ := hholds.merge hpeer fun op hm => hwell op (hpeerOps op hm)
    rw [hmerge]
    refine ⟨_, hholds', hshows', ?_⟩
    intro x hx
    rcases mem_union.mp ((mem_sortOn _).mp hx) with hx | ⟨hx, _⟩
    · exact hops x hx
    · exact hpeerOps x hx

/-- What two replicas are to agree on. -/
structure Converged (a b : AutomergePlanStore) : Prop where
  opIds : ∀ i, i ∈ a.opIds ↔ i ∈ b.opIds
  tasks : ∀ t, (a.doc.tasks.get? t).map (fun task => (task.state, task.taskType, task.threadId)) =
    (b.doc.tasks.get? t).map fun task => (task.state, task.taskType, task.threadId)
  edges : ∀ p c, a.doc.HasEdge p c ↔ b.doc.HasEdge p c
  annotations : ∀ t k, (a.doc.annotationOf t k).map Annotation.value = (b.doc.annotationOf t k).map Annotation.value

/-- The operation whose state a task ends with: the last STATE where it is above
the creator, else the creator. -/
def decider (creator : PlanOp) (last : Option PlanOp) : PlanOp :=
  match last with
  | none => creator
  | some w => if creator.lamport < w.lamport then w else creator

def deciderOf (t : String) (ops : List PlanOp) : Option PlanOp :=
  (creatorOf t ops).map fun c => decider c (lastStateOf t ops)

/-- The ties between operations with one lamport fall the same way in both
orders: each task has one creator's thread and type, one deciding state, and each
annotation one value. -/
structure TiesAgree (la lb : List PlanOp) : Prop where
  threads : ∀ t, (creatorOf t la).map PlanOp.threadId = (creatorOf t lb).map PlanOp.threadId
  types : ∀ t, (creatorOf t la).map PlanOp.typeValue = (creatorOf t lb).map PlanOp.typeValue
  states : ∀ t, (deciderOf t la).map PlanOp.stateValue = (deciderOf t lb).map PlanOp.stateValue
  annotations : ∀ t k, (annotatorOf t k la).map (fun op => (annotationFrom k op).value) =
    (annotatorOf t k lb).map fun op => (annotationFrom k op).value

theorem settle_view (creator last : Option PlanOp) :
    (settle creator last).map (fun task => (task.state, task.taskType, task.threadId)) =
      creator.map fun c => ((decider c last).stateValue, c.typeValue, c.threadId) := by
  cases creator with
  | none => rfl
  | some c =>
    cases last with
    | none => rfl
    | some w =>
      simp only [settle, decider, Option.map_some]
      split <;> rfl

theorem converged_iff {la lb : List PlanOp} {a b : AutomergePlanStore} (ha : Shows (sortOn PlanOp.lamport la) a.doc)
    (hb : Shows (sortOn PlanOp.lamport lb) b.doc) (hids : ∀ i, i ∈ a.opIds ↔ i ∈ b.opIds)
    (hmem : ∀ op, op ∈ la ↔ op ∈ lb) : Converged a b ↔ TiesAgree la lb := by
  constructor
  · intro h
    have htask (t : String) := h.tasks t
    simp only [ha.sorted_task, hb.sorted_task, settle_view] at htask
    have hpart {α : Type} (g : Json × Json × String → α) (t : String) := congrArg (Option.map g) (htask t)
    simp only [Option.map_map, Function.comp_def] at hpart
    refine ⟨hpart fun v => v.2.2, hpart fun v => v.2.1, ?_, ?_⟩
    · intro t
      have hstate := hpart (fun v => v.1) t
      simpa only [deciderOf, Option.map_map, Function.comp_def] using hstate
    · intro t k
      have hvalue := h.annotations t k
      simpa only [ha.sorted_annotationOf, hb.sorted_annotationOf, Option.map_map, Function.comp_def] using hvalue
  · intro h
    refine ⟨hids, ?_, ?_, ?_⟩
    · intro t
      have hthread := h.threads t
      have htype := h.types t
      have hstate := h.states t
      simp only [deciderOf, Option.map_map, Function.comp_def] at hstate
      rw [ha.sorted_task, hb.sorted_task, settle_view, settle_view]
      cases hca : creatorOf t la with
      | none => cases hcb : creatorOf t lb <;> simp_all
      | some ca => cases hcb : creatorOf t lb <;> simp_all
    · intro p c
      rw [ha.sorted_edge, hb.sorted_edge]
      simp only [hmem]
    · intro t k
      rw [ha.sorted_annotationOf, hb.sorted_annotationOf, Option.map_map, Option.map_map]
      exact h.annotations t k

theorem union_comm_mem {ops : PlanOp → Prop} (hid : ∀ x y, ops x → ops y → x.opId = y.opId → x = y)
    {la lb : List PlanOp} (ha : ∀ op ∈ la, ops op) (hb : ∀ op ∈ lb, ops op) (op : PlanOp) :
    op ∈ union la lb ↔ op ∈ union lb la := by
  have hboth {l m : List PlanOp} (hl : ∀ op ∈ l, ops op) (hm : ∀ op ∈ m, ops op) :
      op ∈ union l m ↔ op ∈ l ∨ op ∈ m := by
    rw [mem_union]
    constructor
    · rintro (h | ⟨h, _⟩)
      · exact Or.inl h
      · exact Or.inr h
    · rintro (h | h)
      · exact Or.inl h
      · by_cases hl' : op ∈ l
        · exact Or.inl hl'
        · refine Or.inr ⟨h, fun x hx he => hl' ?_⟩
          rwa [← hid x op (hl x hx) (hm op h) he]
  rw [hboth ha hb, hboth hb ha, or_comm]

/-- Two replicas that merge each other's documents agree exactly when the ties
fall the same way in both orders. -/
theorem merge_converges_iff {ops : PlanOp → Prop} (hid : ∀ x y, ops x → ops y → x.opId = y.opId → x = y)
    (hwell : ∀ op, ops op → op.WellFormed) {a b : AutomergePlanStore} (ha : Reached ops a) (hb : Reached ops b) :
    (mergeWithPeer (getSaveData b) a).1 = .ok () ∧ (mergeWithPeer (getSaveData a) b).1 = .ok () ∧
      (Converged (mergeWithPeer (getSaveData b) a).2 (mergeWithPeer (getSaveData a) b).2 ↔
        TiesAgree (union (logOf a) (logOf b)) (union (logOf b) (logOf a))) := by
  obtain ⟨hholdsA, _, hopsA⟩ := ha.holds hwell
  obtain ⟨hholdsB, _, hopsB⟩ := hb.holds hwell
  have hpeerA : (getSaveData a).ops = (logOf a).map toDict := hholdsA.ops
  have hpeerB : (getSaveData b).ops = (logOf b).map toDict := hholdsB.ops
  obtain ⟨a', hmergeA, hholdsA', hshowsA⟩ := hholdsA.merge hpeerB fun op hm => hwell op (hopsB op hm)
  obtain ⟨b', hmergeB, hholdsB', hshowsB⟩ := hholdsB.merge hpeerA fun op hm => hwell op (hopsA op hm)
  have hmem := union_comm_mem hid hopsA hopsB
  rw [hmergeA, hmergeB]
  refine ⟨rfl, rfl, converged_iff hshowsA hshowsB ?_ hmem⟩
  intro i
  rw [hholdsA'.opIds, hholdsB'.opIds]
  simp only [mem_sortOn, hmem]

/-- Without ties there is nothing to disagree on. -/
theorem tiesAgree_of_distinct {la lb : List PlanOp} (hd : Distinct la) (hmem : ∀ op, op ∈ la ↔ op ∈ lb) :
    TiesAgree la lb := by
  have hcreator (t : String) : creatorOf t la = creatorOf t lb := firstLeast_filter_congr hd hmem
  have hlast (t : String) : lastStateOf t la = lastStateOf t lb := firstGreatest_filter_congr hd hmem
  have hannotator (t k : String) : annotatorOf t k la = annotatorOf t k lb := firstGreatest_filter_congr hd hmem
  refine ⟨?_, ?_, ?_, ?_⟩
  · exact fun t => by rw [hcreator]
  · exact fun t => by rw [hcreator]
  · exact fun t => by rw [deciderOf, deciderOf, hcreator, hlast]
  · exact fun t k => by rw [hannotator]

/-- Two replicas, each with its own operation that adds the task. -/
inductive OneOf (here there : PlanOp) : PlanOp → Prop
  | here : OneOf here there here
  | there : OneOf here there there

theorem oneOf_ids {here there : PlanOp} (h : here.opId ≠ there.opId) (x y : PlanOp) (hx : OneOf here there x)
    (hy : OneOf here there y) (he : x.opId = y.opId) : x = y := by
  cases hx <;> cases hy
  · rfl
  · exact absurd he h
  · exact absurd he.symm h
  · rfl

theorem oneOf_wellFormed (threadA threadB : String) (la lb : Int) (op : PlanOp)
    (h : OneOf (sampleOp "a" threadA la .addTask) (sampleOp "b" threadB lb .addTask) op) : op.WellFormed := by
  cases h
  · exact sampleOp_wellFormed "a" threadA la
  · exact sampleOp_wellFormed "b" threadB lb

/-- The replica that adds the task later takes the thread of the other one. -/
theorem merge_converges_iff_two_threads :
    let a := (appendOp (sampleOp "a" "north" 1 .addTask) init).2
    let b := (appendOp (sampleOp "b" "south" 2 .addTask) init).2
    Converged (mergeWithPeer (getSaveData b) a).2 (mergeWithPeer (getSaveData a) b).2 := by
  intro a b
  have hid := @oneOf_ids (sampleOp "a" "north" 1 .addTask) (sampleOp "b" "south" 2 .addTask) (by decide)
  have hwell := oneOf_wellFormed "north" "south" 1 2
  refine (merge_converges_iff hid hwell (Reached.empty.append .here) (Reached.empty.append .there)).2.2.mpr ?_
  have hab : union (logOf a) (logOf b) = [sampleOp "a" "north" 1 .addTask, sampleOp "b" "south" 2 .addTask] := by decide
  have hba : union (logOf b) (logOf a) = [sampleOp "b" "south" 2 .addTask, sampleOp "a" "north" 1 .addTask] := by decide
  rw [hab, hba]
  refine tiesAgree_of_distinct ?_ ?_
  · unfold Distinct
    decide
  · intro op
    simp [or_comm]

/-- With one lamport on both, each replica keeps its own thread. -/
theorem merge_keeps_own_thread :
    let here := sampleOp "a" "north" 1 .addTask
    let there := sampleOp "b" "south" 1 .addTask
    let a := (appendOp here init).2
    let b := (appendOp there init).2
    (∀ x y, OneOf here there x → OneOf here there y → x.opId = y.opId → x = y) ∧
      (∀ op, OneOf here there op → op.WellFormed) ∧ Reached (OneOf here there) a ∧ Reached (OneOf here there) b ∧
      ¬ Converged (mergeWithPeer (getSaveData b) a).2 (mergeWithPeer (getSaveData a) b).2 := by
  refine ⟨oneOf_ids (by decide), oneOf_wellFormed "north" "south" 1 1, Reached.empty.append .here,
    Reached.empty.append .there, ?_⟩
  intro h
  have htask := h.tasks "task"
  revert htask
  decide

end AgentNetwork.Plan
