import AgentNetwork.Handlers.Stretches
import AgentNetwork.Library.Program

namespace AgentNetwork.Handlers

open Relational Plan Transition PlanStore Transactional

/-- The store holds FINAL for the task. -/
def IsFinal (t : String) (store : PlanStore) : Prop :=
  ∃ row, store.tasks.get? t = some row ∧ row.state = TaskState.final.value

/-- A STATE for the task, with another state and taken into the log, is no newer
than the last one. -/
def Stays (t : String) (store : PlanStore) (op : PlanOp) : Prop :=
  ∀ row store' json state, store.tasks.get? t = some row → op.opType = .state → op.taskId = t →
    insertOp op store = .ok store' → op.payload.get? "state" = some json → bindText json = .ok (some state) →
    state ≠ TaskState.final.value → op.lamport ≤ row.lastLamport

section Append

variable {t : String} {store store' : PlanStore} {op : PlanOp}

theorem insertOp_tasks (h : insertOp op store = .ok store') : store'.tasks = store.tasks := by
  unfold insertOp at h
  split at h
  next => cases h
  next =>
    split at h
    next => cases h
    next =>
      rw [← Except.ok.inj h]

/-- A row that is there stays through `INSERT OR IGNORE`. -/
theorem insertTask_keeps {row new : TaskRow} (h : store.tasks.get? t = some row) :
    (insertTask new store).tasks.get? t = some row := by
  unfold insertTask
  split
  next => exact h
  next hc =>
    have hnone := Table.contains_eq_false_iff.mp (by simpa using hc)
    rw [Table.get?_upsert, if_neg]
    · exact h
    · intro he
      rw [he, hnone] at h
      cases h

theorem insertEdge_tasks (parent child : Option String) : (insertEdge parent child store).tasks = store.tasks := by
  unfold insertEdge
  split
  next =>
    split <;> rfl
  next => rfl

/-- What the guarded update does to a task that is there. -/
theorem updateState_row {row : TaskRow} {newState : Option String} (hrow : store.tasks.get? t = some row)
    (h : updateState op newState store = .ok store') :
    store'.tasks.get? t = some row ∨
      (op.taskId = t ∧ row.lastLamport < op.lamport ∧ ∃ state, newState = some state ∧
        store'.tasks.get? t = some { row with state := state, lastLamport := op.lamport }) := by
  unfold updateState at h
  split at h
  next =>
    rw [← Except.ok.inj h]
    exact Or.inl hrow
  next old hold =>
    split at h
    next hlamport =>
      cases newState with
      | none => cases h
      | some state =>
        rw [← Except.ok.inj h]
        by_cases ht : op.taskId = t
        · rw [ht, hrow] at hold
          rw [← Option.some.inj hold] at hlamport
          refine Or.inr ⟨ht, hlamport, state, rfl, ?_⟩
          rw [Table.get?_upsert, if_pos ht.symm, Option.some.inj hold]
        · left
          rw [Table.get?_upsert, if_neg (Ne.symm ht)]
          exact hrow
    next =>
      rw [← Except.ok.inj h]
      exact Or.inl hrow

/-- What an operation does to a task that is there: nothing, or the guarded update. -/
theorem applyOp_row {row : TaskRow} (hrow : store.tasks.get? t = some row) (h : applyOp op store = .ok store') :
    store'.tasks.get? t = some row ∨
      (op.opType = .state ∧ op.taskId = t ∧ row.lastLamport < op.lamport ∧ ∃ json state,
        op.payload.get? "state" = some json ∧ bindText json = .ok (some state) ∧
        store'.tasks.get? t = some { row with state := state, lastLamport := op.lamport }) := by
  unfold applyOp at h
  split at h
  next =>
    obtain ⟨taskType, _, hok⟩ := except_bind_ok.mp h
    rw [← Except.ok.inj hok]
    exact Or.inl (insertTask_keeps hrow)
  next hkind =>
    obtain ⟨json, hfield, hrest⟩ := except_bind_ok.mp h
    obtain ⟨newState, hbind, hupdate⟩ := except_bind_ok.mp hrest
    have hjson : op.payload.get? "state" = some json := by
      unfold payloadField at hfield
      split at hfield
      next value hvalue => rw [hvalue, Except.ok.inj hfield]
      next => cases hfield
    obtain hkeep | ⟨ht, hlamport, state, hstate, hnew⟩ := updateState_row (insertTask_keeps hrow) hupdate
    · exact Or.inl hkeep
    · exact Or.inr ⟨hkind, ht, hlamport, json, state, hjson, hstate ▸ hbind, hnew⟩
  next =>
    obtain ⟨_, _, h₁⟩ := except_bind_ok.mp h
    obtain ⟨_, _, h₂⟩ := except_bind_ok.mp h₁
    obtain ⟨_, _, h₃⟩ := except_bind_ok.mp h₂
    obtain ⟨_, _, h₄⟩ := except_bind_ok.mp h₃
    rw [← Except.ok.inj h₄, insertEdge_tasks]
    exact Or.inl hrow
  all_goals
    rw [← Except.ok.inj h]
    exact Or.inl hrow

/-- Where the guard lets a STATE through and its value can be bound, it is written. -/
theorem applyOp_writes {row : TaskRow} {json : Json} {state : String} (hrow : store.tasks.get? t = some row)
    (hkind : op.opType = .state) (ht : op.taskId = t) (hlamport : row.lastLamport < op.lamport)
    (hjson : op.payload.get? "state" = some json) (hbind : bindText json = .ok (some state)) :
    ∃ store', applyOp op store = .ok store' ∧
      store'.tasks.get? t = some { row with state := state, lastLamport := op.lamport } := by
  subst ht
  have hinsert : insertTask ⟨op.taskId, op.threadId, none, TaskState.draft.value, 0⟩ store = store := by
    unfold insertTask
    exact if_pos (Table.contains_eq_true_iff.mpr ⟨row, hrow⟩)
  have hfield : payloadField op "state" = .ok json := by
    rw [payloadField, hjson]
  unfold applyOp
  rw [hkind]
  dsimp only
  rw [hinsert, hfield]
  refine ⟨{ store with tasks := store.tasks.upsert op.taskId { row with state := state, lastLamport := op.lamport } }, ?_, ?_⟩
  · show (bindText json >>= fun newState => updateState op newState store) = _
    rw [hbind]
    show updateState op (some state) store = _
    rw [updateState, hrow]
    exact if_pos hlamport
  · rw [Table.get?_upsert, if_pos rfl]

/-- What an append does to a task that is there: nothing, or the guarded update. -/
theorem appendOp_row {row : TaskRow} (op : PlanOp) (hrow : store.tasks.get? t = some row) :
    (appendOp op store).2.tasks.get? t = some row ∨
      (op.opType = .state ∧ op.taskId = t ∧ row.lastLamport < op.lamport ∧ (∃ store', insertOp op store = .ok store') ∧
        ∃ json state, op.payload.get? "state" = some json ∧ bindText json = .ok (some state) ∧
          (appendOp op store).2.tasks.get? t = some { row with state := state, lastLamport := op.lamport }) := by
  unfold appendOp
  split
  next store₂ hboth =>
    obtain ⟨store₁, hinsert, happly⟩ := except_bind_ok.mp hboth
    have hrow₁ : store₁.tasks.get? t = some row := by rw [insertOp_tasks hinsert, hrow]
    obtain hkeep | ⟨hkind, ht, hlamport, hwrites⟩ := applyOp_row hrow₁ happly
    · exact Or.inl hkeep
    · exact Or.inr ⟨hkind, ht, hlamport, ⟨store₁, hinsert⟩, hwrites⟩
  next => exact Or.inl hrow

/-- A newer STATE that the log takes is written. -/
theorem appendOp_writes {row : TaskRow} {json : Json} {state : String} (hrow : store.tasks.get? t = some row)
    (hkind : op.opType = .state) (ht : op.taskId = t) (hlamport : row.lastLamport < op.lamport)
    (hinsert : insertOp op store = .ok store') (hjson : op.payload.get? "state" = some json)
    (hbind : bindText json = .ok (some state)) :
    (appendOp op store).2.tasks.get? t = some { row with state := state, lastLamport := op.lamport } := by
  have hrow' : store'.tasks.get? t = some row := by rw [insertOp_tasks hinsert, hrow]
  obtain ⟨store₂, happly, hnew⟩ := applyOp_writes hrow' hkind ht hlamport hjson hbind
  have hboth : insertOp op store >>= applyOp op = .ok store₂ := except_bind_ok.mpr ⟨store', hinsert, happly⟩
  rw [appendOp, hboth]
  exact hnew

/-- A final task stays final through an append exactly when the operation is not a
newer STATE. -/
theorem appendOp_final_iff (hf : IsFinal t store) : IsFinal t (appendOp op store).2 ↔ Stays t store op := by
  obtain ⟨row, hrow, hfinal⟩ := hf
  constructor
  · intro hafter row' store₁ json state hrow' hkind ht hinsert hjson hbind hne
    have hsame := Option.some.inj (hrow.symm.trans hrow')
    rw [← hsame]
    by_contra hlamport
    rw [not_le] at hlamport
    obtain ⟨row₂, hrow₂, hfinal₂⟩ := hafter
    rw [appendOp_writes hrow hkind ht hlamport hinsert hjson hbind] at hrow₂
    rw [← Option.some.inj hrow₂] at hfinal₂
    exact hne hfinal₂
  · intro hstays
    obtain hkeep | ⟨hkind, ht, hlamport, ⟨store₁, hinsert⟩, json, state, hjson, hbind, hnew⟩ := appendOp_row op hrow
    · exact ⟨row, hkeep, hfinal⟩
    · refine ⟨_, hnew, ?_⟩
      by_contra hne
      have hle := hstays row store₁ json state hrow hkind ht hinsert hjson hbind hne
      omega

end Append

section Runs

variable {κ : Type} {adapter : Option (TryDecide κ)} {allowed : Envelope YieldPayload → Bool} {t : String}
  {p p' : Process κ}

/-- The STATE that a handler is about to append for the task, if it is not FINAL, is
no newer than the last one. -/
def KeepsFinal (t : String) (p : Process κ) : Action κ → Prop
  | .resume id _ => ∀ stage op, p.running id = some stage → stage.append? = some op → Stays t p.node.planStore op
  | .receive _ _ | .elsewhere _ => True

theorem Process.Step.final_iff {a : Action κ} (h : p.Step adapter allowed a p') (hf : IsFinal t p.node.planStore) :
    IsFinal t p'.node.planStore ↔ KeepsFinal t p a := by
  cases h with
  | receive id stage hfree harrives => exact ⟨fun _ => trivial, fun _ => hf⟩
  | resume id draws stage hstage hfresh =>
    have hstretch : Stretch draws stage p.node (stage.resume adapter allowed draws p.node) := resume_stretch stage p.node
    show IsFinal t (stage.resume adapter allowed draws p.node).2.planStore ↔ _
    rw [hstretch.planStore]
    cases hop : stage.append? with
    | none =>
      refine ⟨?_, fun _ => hf⟩
      intro _ stage' op hstage' hop'
      rw [Option.some.inj (hstage.symm.trans hstage'), hop'] at hop
      cases hop
    | some op =>
      dsimp only
      rw [appendOp_final_iff hf]
      constructor
      · intro hstays stage' op' hstage' hop'
        rw [← Option.some.inj (hstage.symm.trans hstage')] at hop'
        rw [← Option.some.inj (hop.symm.trans hop')]
        exact hstays
      · intro hkeeps
        exact hkeeps stage op hstage hop
  | elsewhere consensus => exact ⟨fun _ => trivial, fun _ => hf⟩

/-- FINAL is absorbing in every run in which no handler appends a newer STATE for the
task, and a single step that does so ends it. -/
theorem final_absorbing (start : Process κ) (hf : IsFinal t start.node.planStore) :
    (∀ p, Visits (Process.Step adapter allowed) (KeepsFinal t) start p → IsFinal t p.node.planStore) ∧
    ∀ p a p', Visits (Process.Step adapter allowed) (fun _ _ => True) start p → IsFinal t p.node.planStore →
      p.Step adapter allowed a p' → (IsFinal t p'.node.planStore ↔ KeepsFinal t p a) := by
  refine ⟨?_, fun p a p' _ hp hstep => hstep.final_iff hp⟩
  intro p h
  exact Visits.invariant (I := fun p : Process κ => IsFinal t p.node.planStore) h hf
    fun hp hok hstep => (hstep.final_iff hp).mpr hok

end Runs

def emptyProcess : Process Unit := ⟨⟨PlanStore.init, .empty, (), none⟩, fun _ => none, [], fun _ => 0⟩

/-- Draws that number what they give. -/
def numbered (name : String) : Draws := ⟨fun n => name ++ toString n, fun n => n⟩

def releaseTask (lamport : Int) : Envelope ReleasePayload := ⟨"north", "system", lamport, ⟨some "task", some "lease", none⟩⟩

/-- The task is FINAL at lamport 5. -/
def finalProcess : Process Unit :=
  { emptyProcess with
    node := { emptyProcess.node with
      planStore := (emptyProcess.node.planStore.appendOp
        ⟨"a", "north", 5, "worker", .state, "task", dict [("state", .str "FINAL")], 0⟩).2 } }

theorem isFinal_finalProcess : IsFinal "task" finalProcess.node.planStore := ⟨_, rfl, rfl⟩

/-- A RELEASE from before the end is taken into the log and leaves the task FINAL. -/
theorem final_absorbing_late_release : ∃ p, Visits (Process.Step (none : Option (TryDecide Unit)) fun _ => true)
    (KeepsFinal "task") finalProcess p ∧ p.node.planStore.ops.length = 3 ∧ IsFinal "task" p.node.planStore := by
  have hreceive : Visits (Process.Step (none : Option (TryDecide Unit)) fun _ => true) (KeepsFinal "task") finalProcess
      { finalProcess with running := Function.update finalProcess.running 1 (some (.release (releaseTask 3))) } := by
    refine .next .start ?_ (.receive 1 (.release (releaseTask 3)) rfl rfl)
    trivial
  have hquiet {p : Process Unit} {id : Nat} {draws : Draws} {stage : Stage} (hstage : p.running id = some stage)
      (h : ∀ op, stage.append? = some op → op.opType = .state → op.lamport ≤ 5)
      (hlast : ∀ row, p.node.planStore.tasks.get? "task" = some row → row.lastLamport = 5) :
      KeepsFinal "task" p (.resume id draws) := by
    intro stage' op hstage' hop row store' json state hrow hkind _ _ _ _ _
    rw [← Option.some.inj (hstage.symm.trans hstage')] at hop
    rw [hlast row hrow]
    exact h op hop hkind
  have hstart := Visits.next hreceive (hquiet rfl (fun op hop => by cases hop) (fun row hrow => by
    rw [← Option.some.inj hrow])) (.resume 1 (numbered "release") _ rfl rfl)
  have hnote := Visits.next hstart (hquiet rfl (fun op hop hkind => by
    rw [← Option.some.inj hop] at hkind; cases hkind) (fun row hrow => by
    rw [← Option.some.inj hrow])) (.resume 1 (numbered "release") _ rfl rfl)
  have hdraft := Visits.next hnote (hquiet rfl (fun op hop _ => by
    rw [← Option.some.inj hop]; decide) (fun row hrow => by
    rw [← Option.some.inj hrow])) (.resume 1 (numbered "release") _ rfl rfl)
  exact ⟨_, hdraft, rfl, (final_absorbing finalProcess isFinal_finalProcess).1 _ hdraft⟩

/-- A RELEASE that comes after the end, at a higher lamport, takes the task back to DRAFT. -/
theorem release_reopens_final_task : ∃ p, Visits (Process.Step (none : Option (TryDecide Unit)) fun _ => true)
    (fun _ _ => True) finalProcess p ∧ IsFinal "task" finalProcess.node.planStore ∧
    (p.node.planStore.getTask "task").map TaskView.state = some (.str "DRAFT") ∧ ¬IsFinal "task" p.node.planStore := by
  have hreceive : Visits (Process.Step (none : Option (TryDecide Unit)) fun _ => true) (fun _ _ => True) finalProcess _ :=
    .next .start trivial (.receive 1 (.release (releaseTask 9)) rfl rfl)
  have hstart := Visits.next hreceive trivial (.resume 1 (numbered "release") _ rfl rfl)
  have hnote := Visits.next hstart trivial (.resume 1 (numbered "release") _ rfl rfl)
  have hdraft := Visits.next hnote trivial (.resume 1 (numbered "release") _ rfl rfl)
  refine ⟨_, hdraft, isFinal_finalProcess, rfl, ?_⟩
  intro hfinal
  obtain ⟨row, hrow, hstate⟩ := hfinal
  rw [← Option.some.inj hrow] at hstate
  exact absurd hstate (by decide)

end AgentNetwork.Handlers
