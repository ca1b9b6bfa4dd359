import AgentNetwork.Plan.PlanStore
import AgentNetwork.Plan.Incremental

namespace AgentNetwork.Plan

open Relational StableSort PlanOp

/-- The keys that the stores read are there and are strings, and the numbers fit
a column: the operations that both stores can hold. -/
structure PlanOp.Storable (op : PlanOp) : Prop where
  state : op.opType = .state → ∃ s, op.payload.get? "state" = some (.str s)
  type : op.opType = .addTask →
    (op.payload.get? "type").getD .null = .null ∨ ∃ s, op.payload.get? "type" = some (.str s)
  link : op.opType = .link →
    ∃ p c, op.payload.get? "parent" = some (.str p) ∧ op.payload.get? "child" = some (.str c)
  lamport : PlanStore.fits op.lamport = true
  timestampNs : PlanStore.fits op.timestampNs = true

theorem PlanOp.Storable.wellFormed {op : PlanOp} (h : op.Storable) : op.WellFormed where
  state hs := by
    obtain ⟨s, hv⟩ := h.state hs
    exact ⟨.str s, hv⟩
  link := h.link

/-- The type column takes what the payload gives as a type. -/
theorem PlanOp.Storable.bindType {op : PlanOp} (hw : op.Storable) (h : op.opType = .addTask) :
    ∃ taskType, PlanStore.bindText ((op.payload.get? "type").getD .null) = .ok taskType ∧
      (taskType.map Json.str).getD .null = (op.payload.get? "type").getD .null := by
  rcases hw.type h with hnull | ⟨s, hs⟩
  · exact ⟨none, by rw [hnull]; rfl, hnull.symm⟩
  · exact ⟨some s, by rw [hs]; rfl, by rw [hs]; rfl⟩

/-- The task that a row stands for. -/
def TaskRow.toTask (row : TaskRow) : Task :=
  ⟨row.taskId, row.threadId, (row.taskType.map Json.str).getD .null, .str row.state, row.lastLamport⟩

namespace PlanStore

/-- The tables show the operations of the list, applied in its order. -/
structure Shows (l : List PlanOp) (store : PlanStore) : Prop where
  ops : store.ops = l
  tasks : ∀ t, (store.tasks.get? t).map TaskRow.toTask = l.foldl (taskStep t) none
  edges : ∀ p c, (p, c) ∈ store.edges ↔ ∃ op ∈ l, op.Links (.str p) (.str c)

theorem shows_init : Shows [] init := ⟨rfl, fun _ => rfl, by simp [init]⟩

section Steps

variable {store : PlanStore} {op : PlanOp}

theorem insertTask_get? (row : TaskRow) (t : String) : (insertTask row store).tasks.get? t =
    if t = row.taskId ∧ store.tasks.get? row.taskId = none then some row else store.tasks.get? t := by
  unfold insertTask
  split
  next h =>
    obtain ⟨old, hold⟩ := Table.contains_eq_true_iff.mp h
    rw [if_neg]
    intro hn
    rw [hold] at hn
    cases hn.2
  next h =>
    have hnone := Table.contains_eq_false_iff.mp (by simpa using h)
    rw [Table.get?_upsert]
    by_cases ht : t = row.taskId
    · rw [if_pos ht, if_pos ⟨ht, hnone⟩]
    · rw [if_neg ht, if_neg fun hn => ht hn.1]

theorem insertTask_frame (row : TaskRow) : (insertTask row store).ops = store.ops ∧ (insertTask row store).edges = store.edges := by
  unfold insertTask
  split <;> exact ⟨rfl, rfl⟩

theorem insertEdge_frame (parent child : Option String) :
    (insertEdge parent child store).ops = store.ops ∧ (insertEdge parent child store).tasks = store.tasks := by
  unfold insertEdge
  split
  next => split <;> exact ⟨rfl, rfl⟩
  next => exact ⟨rfl, rfl⟩

theorem mem_insertEdge {p c p' c' : String} :
    (p', c') ∈ (insertEdge (some p) (some c) store).edges ↔ (p', c') ∈ store.edges ∨ (p', c') = (p, c) := by
  unfold insertEdge
  dsimp only
  split
  next hmem =>
    constructor
    · exact Or.inl
    · intro hor
      rcases hor with hm | he
      · exact hm
      · exact he ▸ hmem
  next => simp

/-- Creating the row only if it is not there is the step of an ADD_TASK. -/
theorem insertTask_addTask (h : op.opType = .addTask) {taskType : Option String}
    (htype : (taskType.map Json.str).getD .null = (op.payload.get? "type").getD .null) (t : String) :
    ((insertTask ⟨op.taskId, op.threadId, taskType, TaskState.draft.value, op.lamport⟩ store).tasks.get? t).map
      TaskRow.toTask = taskStep t ((store.tasks.get? t).map TaskRow.toTask) op := by
  have hset : op.setsState t = false := by simp [setsState, h]
  rw [insertTask_get?]
  dsimp only
  by_cases ht : t = op.taskId
  · subst ht
    have hcreates : op.creates op.taskId = true := by simp [creates, h]
    cases hrow : store.tasks.get? op.taskId with
    | none =>
      rw [if_pos ⟨rfl, rfl⟩, Option.map_some, Option.map_none, taskStep, if_pos hcreates]
      simp [TaskRow.toTask, toTask, typeValue, stateValue, h, htype]
    | some row => simp [taskStep, hset]
  · have hcreates : op.creates t = false := by simp [creates, Ne.symm ht]
    rw [if_neg fun hn => ht hn.1]
    cases store.tasks.get? t <;> simp [taskStep, hset, hcreates]

/-- Creating the row at lamport 0 and then updating it is the step of a STATE
with a positive lamport. -/
theorem updateState_state (h : op.opType = .state) (hpos : 1 ≤ op.lamport) {state : String}
    (hstate : op.payload.get? "state" = some (.str state)) :
    ∃ store', updateState op (some state)
        (insertTask ⟨op.taskId, op.threadId, none, TaskState.draft.value, 0⟩ store) = .ok store' ∧
      store'.ops = store.ops ∧ store'.edges = store.edges ∧
      ∀ t, (store'.tasks.get? t).map TaskRow.toTask = taskStep t ((store.tasks.get? t).map TaskRow.toTask) op := by
  have hvalue : op.stateValue = .str state := by simp [stateValue, h, hstate]
  have hops (row : TaskRow) : (insertTask row store).ops = store.ops := (insertTask_frame row).1
  have hedges (row : TaskRow) : (insertTask row store).edges = store.edges := (insertTask_frame row).2
  have hget (t : String) := @insertTask_get? store ⟨op.taskId, op.threadId, none, TaskState.draft.value, 0⟩ t
  dsimp only at hget
  unfold updateState
  cases hrow : store.tasks.get? op.taskId with
  | none =>
    have hnew := hget op.taskId
    rw [if_pos ⟨rfl, hrow⟩] at hnew
    rw [hnew]
    dsimp only
    rw [if_pos (by omega)]
    refine ⟨_, rfl, hops _, hedges _, ?_⟩
    intro t
    rw [Table.get?_upsert]
    by_cases ht : t = op.taskId
    · subst ht
      have hcreates : op.creates op.taskId = true := by simp [creates, h]
      rw [if_pos rfl, hrow, Option.map_none, taskStep, if_pos hcreates]
      simp [TaskRow.toTask, toTask, typeValue, h, hvalue]
    · rw [if_neg ht, hget, if_neg fun hn => ht hn.1, taskStep_of_ne (Ne.symm ht)]
  | some row =>
    have hold (t : String) := (hget t).trans (if_neg fun hn => by rw [hrow] at hn; cases hn.2)
    rw [hold, hrow]
    dsimp only
    by_cases hlamport : row.lastLamport < op.lamport
    · rw [if_pos hlamport]
      refine ⟨_, rfl, hops _, hedges _, ?_⟩
      intro t
      rw [Table.get?_upsert]
      by_cases ht : t = op.taskId
      · subst ht
        have hset : op.setsState op.taskId = true := by simp [setsState, h]
        rw [if_pos rfl, hrow, Option.map_some, Option.map_some, taskStep, if_pos ⟨hset, hlamport⟩, hvalue]
        rfl
      · rw [if_neg ht, hold, taskStep_of_ne (Ne.symm ht)]
    · rw [if_neg hlamport]
      refine ⟨_, rfl, hops _, hedges _, ?_⟩
      intro t
      rw [hold]
      by_cases ht : t = op.taskId
      · subst ht
        rw [hrow, Option.map_some, taskStep, if_neg fun hs => hlamport hs.2]
      · rw [taskStep_of_ne (Ne.symm ht)]

/-- An operation that both stores can hold is stored and shown last. -/
theorem Shows.append {l : List PlanOp} (hs : Shows l store) (hw : op.Storable) (hpos : 1 ≤ op.lamport)
    (hnew : op.opId ∉ l.map PlanOp.opId) :
    ∃ store', appendOp op store = (.ok (), store') ∧ Shows (l ++ [op]) store' := by
  have hinsert : insertOp op store = .ok { store with ops := store.ops ++ [op] } := by
    unfold insertOp
    rw [if_neg (not_not.mpr ⟨hw.lamport, hw.timestampNs⟩), if_neg (hs.ops ▸ hnew)]
  suffices happly : ∃ store', applyOp op { store with ops := store.ops ++ [op] } = .ok store' ∧
      Shows (l ++ [op]) store' by
    obtain ⟨store', hok, hshows⟩ := happly
    refine ⟨store', ?_, hshows⟩
    have hboth : insertOp op store >>= applyOp op = .ok store' := by
      rw [hinsert]
      exact hok
    rw [appendOp, hboth]
  have hfold (t : String) : (l ++ [op]).foldl (taskStep t) none = taskStep t (l.foldl (taskStep t) none) op := by
    rw [List.foldl_append]
    rfl
  have hops : store.ops ++ [op] = l ++ [op] := by rw [hs.ops]
  have hlink (h : op.opType ≠ .link) (p c : String) : (p, c) ∈ store.edges ↔
      ∃ x ∈ l ++ [op], x.Links (.str p) (.str c) := by
    rw [hs.edges, links_append_of_kind h]
  unfold applyOp
  cases h : op.opType with
  | addTask =>
    obtain ⟨taskType, hbind, hvalue⟩ := hw.bindType h
    refine ⟨insertTask ⟨op.taskId, op.threadId, taskType, TaskState.draft.value, op.lamport⟩
      { store with ops := store.ops ++ [op] }, by rw [hbind]; rfl, ?_, ?_, ?_⟩
    · exact (insertTask_frame _).1.trans hops
    · intro t
      rw [insertTask_addTask h hvalue, hfold, ← hs.tasks]
    · intro p c
      rw [← hlink (by simp [h]), (insertTask_frame _).2]
  | state =>
    obtain ⟨s, hstate⟩ := hw.state h
    obtain ⟨store', hupdate, hops', hedges', htasks'⟩ :=
      @updateState_state { store with ops := store.ops ++ [op] } op h hpos s hstate
    refine ⟨store', ?_, hops'.trans hops, ?_, ?_⟩
    · dsimp only
      rw [payloadField, hstate]
      exact hupdate
    · intro t
      rw [htasks', hfold, ← hs.tasks]
    · intro p c
      rw [hedges', ← hlink (by simp [h])]
  | link =>
    obtain ⟨p, c, hp, hc⟩ := hw.link h
    refine ⟨insertEdge (some p) (some c) { store with ops := store.ops ++ [op] }, ?_, ?_, ?_, ?_⟩
    · dsimp only
      rw [payloadField, hp, payloadField, hc]
      rfl
    · exact (insertEdge_frame _ _).1.trans hops
    · intro t
      rw [hfold, taskStep_of_kind (by simp [h]) (by simp [h]), ← hs.tasks, (insertEdge_frame _ _).2]
    · intro p' c'
      rw [mem_insertEdge, hs.edges]
      simp only [Links, h, hp, hc, List.mem_append, List.mem_singleton, or_and_right, exists_or, exists_eq_left,
        true_and, Option.some.injEq, Json.str.injEq, Prod.mk.injEq]
      rw [eq_comm (a := p), eq_comm (a := c)]
  | annotate =>
    refine ⟨_, rfl, hops, ?_, hlink (by simp [h])⟩
    intro t
    rw [hfold, taskStep_of_kind (by simp [h]) (by simp [h]), ← hs.tasks]
  | requires =>
    refine ⟨_, rfl, hops, ?_, hlink (by simp [h])⟩
    intro t
    rw [hfold, taskStep_of_kind (by simp [h]) (by simp [h]), ← hs.tasks]
  | produces =>
    refine ⟨_, rfl, hops, ?_, hlink (by simp [h])⟩
    intro t
    rw [hfold, taskStep_of_kind (by simp [h]) (by simp [h]), ← hs.tasks]

end Steps

/-- A run of appends. -/
def appendAll (ops : List PlanOp) (store : PlanStore) : PlanStore :=
  ops.foldl (fun store op => (appendOp op store).2) store

end PlanStore

section Both

open AutomergePlanStore

variable {l : List PlanOp} {sql : PlanStore} {automerge : AutomergePlanStore}

/-- Both stores hold and show the operations of one list. -/
structure BothShow (l : List PlanOp) (sql : PlanStore) (automerge : AutomergePlanStore) : Prop where
  sql : sql.Shows l
  holds : Holds l automerge
  shows : Shows l automerge.doc

theorem bothShow_init : BothShow [] PlanStore.init AutomergePlanStore.init :=
  ⟨PlanStore.shows_init, holds_init, shows_nil AutomergePlanStore.init.doc⟩

theorem union_of_new {op : PlanOp} (h : op.opId ∉ l.map PlanOp.opId) : union l [op] = l ++ [op] := by
  have hunseen : unseen l [op] = [op] := by
    apply List.filter_eq_self.mpr
    intro x hx
    rw [List.mem_singleton.mp hx]
    exact decide_eq_true h
  rw [union, hunseen]

/-- Neither store refuses an operation that both can hold, and both then show it. -/
theorem BothShow.append (h : BothShow l sql automerge) {op : PlanOp} (hw : op.Storable) (hpos : 1 ≤ op.lamport)
    (hnew : op.opId ∉ l.map PlanOp.opId) :
    (sql.appendOp op).1 = .ok () ∧ (automerge.appendOp op).1 = .ok () ∧
      BothShow (l ++ [op]) (sql.appendOp op).2 (automerge.appendOp op).2 := by
  obtain ⟨sql', happend, hshows⟩ := h.sql.append hw hpos hnew
  obtain ⟨automerge', happend', hholds', hshows'⟩ := h.holds.append h.shows hw.wellFormed
  rw [union_of_new hnew] at hholds' hshows'
  rw [happend, happend']
  exact ⟨rfl, rfl, hshows, hholds', hshows'⟩

theorem bothShow_appendAll {ops : List PlanOp} (hw : ∀ op ∈ ops, op.Storable) (hpos : ∀ op ∈ ops, 1 ≤ op.lamport)
    (hd : (ops.map PlanOp.opId).Nodup) :
    BothShow ops (PlanStore.appendAll ops .init) (AgentNetwork.Plan.appendAll ops .init) := by
  induction ops using List.reverseRecOn with
  | nil => exact bothShow_init
  | append_singleton l op ih =>
    rw [List.map_append, List.nodup_append] at hd
    have hnew : op.opId ∉ l.map PlanOp.opId := fun hm => hd.2.2 _ hm _ (List.mem_singleton_self _) rfl
    have hbefore := ih (fun x hx => hw x (List.mem_append_left _ hx)) (fun x hx => hpos x (List.mem_append_left _ hx)) hd.1
    have hlast : op ∈ l ++ [op] := List.mem_append_right _ (List.mem_singleton_self _)
    have hstep := (hbefore.append (hw op hlast) (hpos op hlast) hnew).2.2
    unfold PlanStore.appendAll AgentNetwork.Plan.appendAll at hstep ⊢
    rw [List.foldl_append, List.foldl_append]
    exact hstep

def Task.view (task : Task) : TaskView := ⟨task.taskId, task.threadId, task.taskType, task.state⟩

/-- What the two stores are to agree on. -/
structure StoresAgree (sql : PlanStore) (automerge : AutomergePlanStore) : Prop where
  tasks : ∀ t, (automerge.getTask t).map (fun found => found.1.view) = sql.getTask t
  edges : ∀ p c, automerge.doc.HasEdge p c ↔ ∃ parent child, p = .str parent ∧ c = .str child ∧ (parent, child) ∈ sql.edges
  threads : ∀ thread, ∃ ops, automerge.getOpsForThread thread = .ok ops ∧ ops.Perm (sql.getOpsForThread thread) ∧
    (ops.Pairwise fun a b => a.lamport ≤ b.lamport) ∧
    (sql.getOpsForThread thread).Pairwise fun a b => a.lamport ≤ b.lamport

theorem threadOps_toDict (thread : String) (ops : List PlanOp) :
    threadOps thread (ops.map toDict) = .ok (ops.filter fun op => op.threadId = thread) := by
  induction ops with
  | nil => rfl
  | cons op ops ih =>
    rw [List.map_cons, threadOps, ih, toOp_toDict]
    have hthread : field "thread_id" op.toDict.threadId = .ok op.threadId := rfl
    rw [hthread]
    by_cases h : op.threadId = thread
    · simp [h, bind, Except.bind]
    · simp [h, bind, Except.bind]

theorem BothShow.agree (h : BothShow l sql automerge) (hw : ∀ op ∈ l, op.Storable) : StoresAgree sql automerge where
  tasks t := by
    have hsame := (h.shows.tasks t).trans (h.sql.tasks t).symm
    rw [AutomergePlanStore.getTask, PlanStore.getTask, hsame]
    cases sql.tasks.get? t <;> rfl
  edges p c := by
    rw [h.shows.edges]
    constructor
    · intro hedge
      obtain ⟨op, hop, hlink, hp, hc⟩ := hedge
      obtain ⟨parent, child, hparent, hchild⟩ := (hw op hop).link hlink
      have hpe := Option.some.inj (hp.symm.trans hparent)
      have hce := Option.some.inj (hc.symm.trans hchild)
      exact ⟨parent, child, hpe, hce, (h.sql.edges parent child).mpr ⟨op, hop, hlink, hparent, hchild⟩⟩
    · intro hedge
      obtain ⟨parent, child, hpe, hce, hm⟩ := hedge
      rw [hpe, hce]
      exact (h.sql.edges parent child).mp hm
  threads thread := by
    refine ⟨sortOn PlanOp.lamport (l.filter fun op => op.threadId = thread), ?_, ?_, pairwise_sortOn _ _, pairwise_sortOn _ _⟩
    · rw [AutomergePlanStore.getOpsForThread, h.holds.ops, threadOps_toDict]
      rfl
    · rw [PlanStore.getOpsForThread, h.sql.ops]

/-- The SQLite and the Automerge store agree on every list of operations that both
can hold, and neither raises on any of them. -/
theorem stores_agree (ops : List PlanOp) (hw : ∀ op ∈ ops, op.Storable) (hpos : ∀ op ∈ ops, 1 ≤ op.lamport)
    (hd : (ops.map PlanOp.opId).Nodup) :
    StoresAgree (PlanStore.appendAll ops .init) (AgentNetwork.Plan.appendAll ops .init) ∧
      ∀ before op after, ops = before ++ op :: after →
        ((PlanStore.appendAll before .init).appendOp op).1 = .ok () ∧
        ((AgentNetwork.Plan.appendAll before .init).appendOp op).1 = .ok () := by
  refine ⟨(bothShow_appendAll hw hpos hd).agree hw, ?_⟩
  rintro before op after rfl
  rw [List.map_append, List.nodup_append] at hd
  have hbefore := bothShow_appendAll (fun x hx => hw x (List.mem_append_left _ hx))
    (fun x hx => hpos x (List.mem_append_left _ hx)) hd.1
  have hop : op ∈ before ++ op :: after := List.mem_append_right _ List.mem_cons_self
  have hnew : op.opId ∉ before.map PlanOp.opId := fun hm => hd.2.2 _ hm _ List.mem_cons_self rfl
  obtain ⟨hsql, hautomerge, _⟩ := hbefore.append (hw op hop) (hpos op hop) hnew
  exact ⟨hsql, hautomerge⟩

def decidedOp (opId : String) (lamport : Int) : PlanOp :=
  ⟨opId, "north", lamport, "actor", .state, "task", ⟨[("state", .str "DECIDED")], by decide⟩, 0⟩

/-- The ADD_TASK comes after a STATE with a higher lamport. -/
theorem stores_agree_late_add_task :
    StoresAgree (PlanStore.appendAll [decidedOp "a" 4, sampleOp "b" "south" 2 .addTask] .init)
      (AgentNetwork.Plan.appendAll [decidedOp "a" 4, sampleOp "b" "south" 2 .addTask] .init) := by
  have hstate : (decidedOp "a" 4).Storable := ⟨fun _ => ⟨"DECIDED", rfl⟩, nofun, nofun, rfl, rfl⟩
  have hadd : (sampleOp "b" "south" 2 .addTask).Storable := ⟨nofun, fun _ => Or.inl rfl, nofun, rfl, rfl⟩
  refine (stores_agree [decidedOp "a" 4, sampleOp "b" "south" 2 .addTask] ?_ ?_ ?_).1
  · simpa using ⟨hstate, hadd⟩
  · simp [decidedOp, sampleOp]
  · decide

end Both

end AgentNetwork.Plan
