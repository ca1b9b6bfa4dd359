import AgentNetwork.Plan.Agreement
import AgentNetwork.Plan.LastWriterWins

namespace AgentNetwork.Plan

open Relational StableSort PlanOp

/-- The columns of `tasks` that a row has besides its key and its lamport. -/
def TaskRow.columns (row : TaskRow) : String × Option String × String := (row.threadId, row.taskType, row.state)

def Task.columns (task : Task) : String × Json × Json := (task.threadId, task.taskType, task.state)

theorem TaskRow.columns_eq_iff {a b : TaskRow} : a.columns = b.columns ↔ a.toTask.columns = b.toTask.columns := by
  have htype : a.taskType = b.taskType ↔ (a.taskType.map Json.str).getD .null = (b.taskType.map Json.str).getD .null := by
    cases a.taskType <;> cases b.taskType <;> simp
  simp [columns, Task.columns, toTask, htype]

theorem TaskRow.map_columns_eq_iff {a b : Option TaskRow} :
    a.map columns = b.map columns ↔ (a.map toTask).map Task.columns = (b.map toTask).map Task.columns := by
  cases a with
  | none => cases b <;> simp
  | some a =>
    cases b with
    | none => simp
    | some b => simpa using columns_eq_iff

namespace PlanStore

/-- The derived tables have the same rows, but for the lamports. -/
structure SameRows (a b : PlanStore) : Prop where
  tasks : ∀ t, (a.tasks.get? t).map TaskRow.columns = (b.tasks.get? t).map TaskRow.columns
  edges : ∀ p c, (p, c) ∈ a.edges ↔ (p, c) ∈ b.edges

/-- In whatever order the operations arrive, the derived tables have the same rows. -/
def ArrivalIndependent (ops : List PlanOp) : Prop :=
  ∀ l l' : List PlanOp, l.Perm ops → l'.Perm ops → SameRows (appendAll l .init) (appendAll l' .init)

/-- It makes no difference which of the operations comes first on a task. -/
structure NoRace (ops : List PlanOp) : Prop where
  creators : ∀ t, ∀ x ∈ ops, ∀ y ∈ ops, x.creates t = true → y.creates t = true →
    x.threadId = y.threadId ∧ x.typeValue = y.typeValue
  states : ∀ x ∈ ops, x.opType = .addTask → ∀ w, lastStateOf x.taskId ops = some w →
    x.lamport < w.lamport ∨ w.stateValue = .str TaskState.draft.value

section Orders

variable {ops l : List PlanOp} {t : String}

theorem distinct_of_nodup (h : (ops.map PlanOp.lamport).Nodup) : Distinct ops :=
  fun _ hx _ hy => List.inj_on_of_nodup_map h hx hy

/-- The newest STATE does not depend on the order. -/
theorem lastStateOf_perm (hd : Distinct ops) (h : l.Perm ops) : lastStateOf t l = lastStateOf t ops := by
  refine firstGreatest_filter_congr ?_ fun x => h.mem_iff
  exact fun x hx y hy => hd x (h.mem_iff.mp hx) y (h.mem_iff.mp hy)

/-- The first creator gives the thread and the type of the row. -/
theorem settle_some (c : PlanOp) (w : Option PlanOp) : ∃ task, settle (some c) w = some task ∧
    task.threadId = c.threadId ∧ task.taskType = c.typeValue := by
  cases w with
  | none => exact ⟨c.toTask, rfl, rfl, rfl⟩
  | some w =>
    simp only [settle]
    split
    · exact ⟨_, rfl, rfl, rfl⟩
    · exact ⟨_, rfl, rfl, rfl⟩

/-- The state of the row, if it makes no difference who creates it. -/
def outcome (t : String) (ops : List PlanOp) : Json :=
  match lastStateOf t ops with
  | none => .str TaskState.draft.value
  | some w => w.stateValue

theorem settle_outcome (hd : Distinct ops) (h : NoRace ops) {c : PlanOp} (hc : c ∈ ops) (hcreates : c.creates t = true) :
    ∃ task, settle (some c) (lastStateOf t ops) = some task ∧ task.state = outcome t ops := by
  have hkind := hcreates
  simp only [creates, decide_eq_true_eq] at hkind
  obtain ⟨rfl, hkind⟩ := hkind
  unfold outcome
  cases hw : lastStateOf c.taskId ops with
  | none =>
    have hset := lastStateOf_none.mp hw c hc
    exact ⟨c.toTask, rfl, stateValue_of_not_setsState hcreates hset⟩
  | some w =>
    obtain ⟨hm, _, hmax⟩ := lastStateOf_some hw
    simp only [settle]
    by_cases hlt : c.lamport < w.lamport
    · rw [if_pos hlt]
      exact ⟨_, rfl, rfl⟩
    · rw [if_neg hlt]
      refine ⟨c.toTask, rfl, ?_⟩
      rcases hkind with hadd | hstate
      · have hdraft := (h.states c hc hadd w hw).resolve_left hlt
        have hvalue : c.stateValue = .str TaskState.draft.value := by simp [stateValue, hadd]
        exact hvalue.trans hdraft.symm
      · have hset : c.setsState c.taskId = true := by simp [setsState, hstate]
        have hle := hmax c hc hset
        have hsame : c = w := hd c hc w hm (by omega)
        rw [← hsame]
        rfl

/-- The rows are the same if they are made from the same columns. -/
theorem Shows.sameRows {l l' : List PlanOp} {a b : PlanStore} (ha : Shows l a) (hb : Shows l' b)
    (hmem : ∀ op, op ∈ l ↔ op ∈ l') (htasks : ∀ t,
      (settle (l.filter (creates t)).head? (lastStateOf t l)).map Task.columns =
        (settle (l'.filter (creates t)).head? (lastStateOf t l')).map Task.columns) : SameRows a b where
  tasks t := by
    rw [TaskRow.map_columns_eq_iff, ha.tasks, hb.tasks, foldl_taskStep, foldl_taskStep]
    exact htasks t
  edges p c := by
    rw [ha.edges, hb.edges]
    simp only [hmem]

theorem SameRows.columns {l l' : List PlanOp} {a b : PlanStore} (h : SameRows a b) (ha : Shows l a) (hb : Shows l' b) :
    (settle (l.filter (creates t)).head? (lastStateOf t l)).map Task.columns =
      (settle (l'.filter (creates t)).head? (lastStateOf t l')).map Task.columns := by
  have hsame := TaskRow.map_columns_eq_iff.mp (h.tasks t)
  rw [ha.tasks, hb.tasks, foldl_taskStep, foldl_taskStep] at hsame
  exact hsame

/-- The columns that a task has in every order. -/
theorem NoRace.columns (h : NoRace ops) (hd : Distinct ops) (hperm : l.Perm ops) {c : PlanOp} (hc : c ∈ ops)
    (hcreates : c.creates t = true) : (settle (l.filter (creates t)).head? (lastStateOf t l)).map Task.columns =
      some (c.threadId, c.typeValue, outcome t ops) := by
  rw [lastStateOf_perm hd hperm]
  cases hfirst : (l.filter (creates t)).head? with
  | none =>
    rw [List.head?_eq_none_iff, List.filter_eq_nil_iff] at hfirst
    exact absurd hcreates (hfirst c (hperm.mem_iff.mpr hc))
  | some d =>
    have hm := List.mem_filter.mp (List.mem_of_mem_head? hfirst)
    have hd' := hperm.mem_iff.mp hm.1
    obtain ⟨task, htask, hthread, htype⟩ := settle_some d (lastStateOf t ops)
    obtain ⟨task', htask', hstate⟩ := settle_outcome hd h hd' hm.2
    obtain rfl := Option.some.inj (htask.symm.trans htask')
    obtain ⟨hthreads, htypes⟩ := h.creators t d hd' c hc hm.2 hcreates
    rw [htask, Option.map_some, Task.columns, hthread, htype, hstate, hthreads, htypes]

end Orders

section Appended

variable {ops : List PlanOp}

theorem shows_perm {l : List PlanOp} (hw : ∀ op ∈ ops, op.Storable) (hpos : ∀ op ∈ ops, 1 ≤ op.lamport)
    (hids : (ops.map PlanOp.opId).Nodup) (h : l.Perm ops) : Shows l (appendAll l .init) := by
  refine (bothShow_appendAll ?_ ?_ ?_).sql
  · exact fun op hop => hw op (h.mem_iff.mp hop)
  · exact fun op hop => hpos op (h.mem_iff.mp hop)
  · exact (h.map PlanOp.opId).nodup_iff.mpr hids

theorem NoRace.arrivalIndependent (h : NoRace ops) (hw : ∀ op ∈ ops, op.Storable) (hpos : ∀ op ∈ ops, 1 ≤ op.lamport)
    (hids : (ops.map PlanOp.opId).Nodup) (hd : Distinct ops) : ArrivalIndependent ops := by
  intro l l' hl hl'
  refine (shows_perm hw hpos hids hl).sameRows (shows_perm hw hpos hids hl') (fun op => hl.mem_iff.trans hl'.mem_iff.symm) ?_
  intro t
  by_cases hsome : ∃ c ∈ ops, c.creates t = true
  · obtain ⟨c, hc, hcreates⟩ := hsome
    rw [h.columns hd hl hc hcreates, h.columns hd hl' hc hcreates]
  · have hnone {k : List PlanOp} (hk : k.Perm ops) : k.filter (creates t) = [] := by
      refine List.filter_eq_nil_iff.mpr fun op hop hcreates => ?_
      exact hsome ⟨op, hk.mem_iff.mp hop, hcreates⟩
    rw [hnone hl, hnone hl']
    rfl

/-- What a task becomes when one of its creators arrives before all others. -/
theorem columns_first (hd : Distinct ops) {t : String} {x : PlanOp} (hx : x ∈ ops) (hcreates : x.creates t = true) :
    (x :: ops.erase x).Perm ops ∧
      settle ((x :: ops.erase x).filter (creates t)).head? (lastStateOf t (x :: ops.erase x)) =
        settle (some x) (lastStateOf t ops) := by
  have hperm : (x :: ops.erase x).Perm ops := (List.perm_cons_erase hx).symm
  refine ⟨hperm, ?_⟩
  rw [lastStateOf_perm hd hperm, List.filter_cons_of_pos hcreates, List.head?_cons]

theorem ArrivalIndependent.settle_eq (h : ArrivalIndependent ops) (hw : ∀ op ∈ ops, op.Storable)
    (hpos : ∀ op ∈ ops, 1 ≤ op.lamport) (hids : (ops.map PlanOp.opId).Nodup) (hd : Distinct ops) {t : String}
    {x y : PlanOp} (hx : x ∈ ops) (hy : y ∈ ops) (hxt : x.creates t = true) (hyt : y.creates t = true) :
    (settle (some x) (lastStateOf t ops)).map Task.columns = (settle (some y) (lastStateOf t ops)).map Task.columns := by
  obtain ⟨hpx, hsx⟩ := columns_first hd hx hxt
  obtain ⟨hpy, hsy⟩ := columns_first hd hy hyt
  have hsame := (h _ _ hpx hpy).columns (shows_perm hw hpos hids hpx) (shows_perm hw hpos hids hpy) (t := t)
  rwa [hsx, hsy] at hsame

theorem ArrivalIndependent.noRace (h : ArrivalIndependent ops) (hw : ∀ op ∈ ops, op.Storable)
    (hpos : ∀ op ∈ ops, 1 ≤ op.lamport) (hids : (ops.map PlanOp.opId).Nodup) (hd : Distinct ops) : NoRace ops where
  creators t x hx y hy hxt hyt := by
    have hsame := h.settle_eq hw hpos hids hd hx hy hxt hyt
    obtain ⟨a, ha, hthread, htype⟩ := settle_some x (lastStateOf t ops)
    obtain ⟨b, hb, hthread', htype'⟩ := settle_some y (lastStateOf t ops)
    rw [ha, hb] at hsame
    simp only [Option.map_some, Task.columns, Option.some.injEq, Prod.mk.injEq] at hsame
    rw [← hthread, ← hthread', ← htype, ← htype']
    exact ⟨hsame.1, hsame.2.1⟩
  states x hx hadd w hlast := by
    by_cases hlt : x.lamport < w.lamport
    · exact Or.inl hlt
    · right
      obtain ⟨hm, hset, _⟩ := lastStateOf_some hlast
      have hxt : x.creates x.taskId = true := by simp [creates, hadd]
      have hsame := h.settle_eq hw hpos hids hd hx hm hxt (creates_of_setsState hset)
      rw [hlast] at hsame
      simp only [settle, if_neg hlt, lt_irrefl, if_false, Option.map_some, Task.columns, Option.some.injEq,
        Prod.mk.injEq] at hsame
      have hdraft : x.toTask.state = .str TaskState.draft.value := by simp [toTask, stateValue, hadd]
      exact hsame.2.2.symm.trans hdraft

/-- The derived tables do not depend on the order of arrival exactly when all that
can create a task agree on its thread and type, and no ADD_TASK is newer than the
newest STATE of its task, unless that is DRAFT. -/
theorem arrivalIndependent_iff (hw : ∀ op ∈ ops, op.Storable) (hpos : ∀ op ∈ ops, 1 ≤ op.lamport)
    (hids : (ops.map PlanOp.opId).Nodup) (hlamports : (ops.map PlanOp.lamport).Nodup) :
    ArrivalIndependent ops ↔ NoRace ops := by
  have hd := distinct_of_nodup hlamports
  constructor
  · exact fun h => h.noRace hw hpos hids hd
  · exact fun h => h.arrivalIndependent hw hpos hids hd

/-- A task that is added and then decided. -/
theorem arrivalIndependent_decided :
    ArrivalIndependent [sampleOp "a" "north" 1 .addTask, decidedOp "b" 4] := by
  refine (arrivalIndependent_iff ?_ ?_ (by decide) (by decide)).mpr ⟨?_, ?_⟩
  · have hadd : (sampleOp "a" "north" 1 .addTask).Storable := ⟨nofun, fun _ => Or.inl rfl, nofun, rfl, rfl⟩
    have hstate : (decidedOp "b" 4).Storable := ⟨fun _ => ⟨"DECIDED", rfl⟩, nofun, nofun, rfl, rfl⟩
    simpa using ⟨hadd, hstate⟩
  · decide
  · have hsame : ∀ x ∈ [sampleOp "a" "north" 1 .addTask, decidedOp "b" 4], ∀ y ∈ [sampleOp "a" "north" 1 .addTask, decidedOp "b" 4],
        x.threadId = y.threadId ∧ x.typeValue = y.typeValue := by decide
    exact fun t x hx y hy _ _ => hsame x hx y hy
  · intro x hx hadd w hw
    have hwm := (lastStateOf_some hw).1
    have hset := (lastStateOf_some hw).2.1
    simp only [List.mem_cons, List.not_mem_nil, or_false] at hx hwm
    rcases hx with rfl | rfl
    · rcases hwm with rfl | rfl
      · cases hset
      · exact Or.inl (by decide)
    · cases hadd

/-- The row keeps the thread of the ADD_TASK that arrived first. -/
theorem arrivalDependent_two_threads :
    let ops := [sampleOp "a" "north" 1 .addTask, sampleOp "b" "south" 2 .addTask]
    (∀ op ∈ ops, op.Storable) ∧ (∀ op ∈ ops, 1 ≤ op.lamport) ∧ (ops.map PlanOp.opId).Nodup ∧
      (ops.map PlanOp.lamport).Nodup ∧ ¬ArrivalIndependent ops := by
  intro ops
  refine ⟨?_, by decide, by decide, by decide, ?_⟩
  · have hnorth : (sampleOp "a" "north" 1 .addTask).Storable := ⟨nofun, fun _ => Or.inl rfl, nofun, rfl, rfl⟩
    have hsouth : (sampleOp "b" "south" 2 .addTask).Storable := ⟨nofun, fun _ => Or.inl rfl, nofun, rfl, rfl⟩
    simpa [ops] using ⟨hnorth, hsouth⟩
  · intro h
    have hrow := (h ops ops.reverse (List.Perm.refl _) (List.reverse_perm _)).tasks "task"
    revert hrow
    decide

end Appended

end PlanStore

end AgentNetwork.Plan
