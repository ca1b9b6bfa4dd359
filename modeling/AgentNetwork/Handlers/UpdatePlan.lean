import AgentNetwork.Handlers.Node
import AgentNetwork.Library.Awaiting
import AgentNetwork.Plan.Patching
import AgentNetwork.Plan.Versioning

namespace AgentNetwork.Handlers

open Relational Plan Python

inductive UpdateError
  | sqlError (error : SqlError)
  | planError (error : PlanError)
  | typeError (message : String)
  deriving DecidableEq

/-- What the handler calls on a plan store: the append, as it is once its body has
run, and the query. -/
structure PlanApi (σ : Type) where
  appendOp : PlanOp → σ → Except UpdateError (Called Unit) × σ
  getTask : String → σ → Called (Option Json)

/-- The task as `PlanStore.get_task` returns it. -/
def taskViewDict (task : TaskView) : Json :=
  .obj [("task_id", .str task.taskId), ("thread_id", .str task.threadId), ("task_type", task.taskType), ("state", task.state)]

/-- The task as `AutomergePlanStore.get_task` returns it. -/
def taskDict (task : Task) (annotations : Option (List (String × Json))) : Json :=
  .obj ([("task_id", .str task.taskId), ("thread_id", .str task.threadId), ("task_type", task.taskType),
    ("state", task.state), ("last_lamport", .int task.lastLamport)] ++
      (annotations.map fun fields => ("annotations", Json.obj fields)).toList)

/-- Both are coroutine functions. -/
def sqliteApi : PlanApi PlanStore where
  appendOp op store :=
    match store.appendOp op with
    | (.ok _, store) => (.ok (.coroutine ()), store)
    | (.error e, store) => (.error (.sqlError e), store)
  getTask taskId store := .coroutine ((store.getTask taskId).map taskViewDict)

/-- Both are plain functions. -/
def automergeApi : PlanApi AutomergePlanStore where
  appendOp op store :=
    match store.appendOp op with
    | (.ok _, store) => (.ok (.value ()), store)
    | (.error e, store) => (.error (.planError e), store)
  getTask taskId store := .value ((store.getTask taskId).map fun found => taskDict found.1 found.2)

structure UpdatePlanPayload where
  ops : Option (List OpData)

/-- What the handler works on. -/
structure UpdateNode (σ : Type) where
  planStore : σ
  versionTracker : VersionTracker

/-- How a call ends, and the operations that it has applied to the store. -/
structure Updated where
  outcome : Except UpdateError Unit
  applied : List PlanOp
  deriving DecidableEq

/-- The operation of an update, unless it is skipped. -/
def admitOp (op : OpData) : Option (Plan.OpType × String × Table String Json) :=
  let opTypeStr := op.opType.getD ""
  let taskId := op.taskId.getD ""
  let opPayload := op.getPayload
  if opTypeStr = "" ∨ taskId = "" then none
  else
    match Plan.OpType.ofValue opTypeStr with
    | .error _ => none
    | .ok opType =>
      if opType = .state ∧ ¬opPayload.contains "state" then none
      else if opType = .link ∧ (¬opPayload.contains "parent" ∨ ¬opPayload.contains "child") then none
      else some (opType, taskId, opPayload)

section Update

variable {σ : Type} (api : PlanApi σ) (sha256Hex : String → String) (message : Envelope UpdatePlanPayload) (draws : Draws)

/-- The operation that is appended after so many others. -/
def planOpOf (admitted : Plan.OpType × String × Table String Json) (appliedCount : Nat) : PlanOp :=
  ⟨draws.uuid4 (1 + appliedCount), message.threadId, message.lamport + appliedCount, message.senderPkB64, admitted.1,
    admitted.2.1, admitted.2.2, draws.timeNs (1 + appliedCount)⟩

/-- The loop over the operations. -/
def applyOps : List OpData → List PlanOp → σ → Except UpdateError Unit × List PlanOp × σ
  | [], applied, store => (.ok (), applied, store)
  | op :: rest, applied, store =>
    match admitOp op with
    | none => applyOps rest applied store
    | some admitted =>
      let planOp := planOpOf message draws admitted applied.length
      match api.appendOp planOp store with
      | (.error e, store) => (.error e, applied, store)
      | (.ok called, store) =>
        match called.await "NoneType" with
        | .error e => (.error (.typeError e.message), applied ++ [planOp], store)
        | .ok _ => applyOps rest (applied ++ [planOp]) store

/-- `set(op_data.get("task_id") for op_data in ops_data if op_data.get("task_id"))`. -/
def namedTasks (ops : List OpData) : List String := (ops.filterMap fun op => given op.taskId).dedup

/-- A task to put in the snapshot: a coroutine is as good as a task. -/
def snapshotTask : Called (Option Json) → Option (Called Json)
  | .value none => none
  | .value (some task) => some (.value task)
  | .coroutine task => some (.coroutine (task.getD .null))

def planStateOf (ops : List OpData) (store : σ) : List (String × Called Json) :=
  (namedTasks ops).filterMap fun taskId => (snapshotTask (api.getTask taskId store)).map fun task => (taskId, task)

/-- The recording of a version; whatever it raises is caught. -/
def recordUpdate (ops : List OpData) (patchId : String) (appliedCount : Nat) (store : σ) (versionTracker : VersionTracker) :
    VersionTracker :=
  let planState := planStateOf api ops store
  if planState = [] then versionTracker
  else
    match planState.mapM fun entry => entry.2.serializable.map fun task => (entry.1, task) with
    | .error _ => versionTracker
    | .ok entries =>
      let metadata := Json.obj [("thread_id", .str message.threadId), ("patch_id", .str patchId),
        ("actor_id", .str message.senderPkB64), ("ops_count", .int appliedCount)]
      (versionTracker.recordVersion sha256Hex (dict entries) (message.lamport + appliedCount - 1) none (some metadata)
        (draws.uuid4 (1 + appliedCount)) (draws.timeNs (1 + appliedCount))).2

def handleUpdatePlan (node : UpdateNode σ) : UpdateNode σ × Updated :=
  let opsData := message.payload.ops.getD []
  if opsData = [] then (node, ⟨.ok (), []⟩)
  else
    let patch : PlanPatch := ⟨draws.uuid4 0, message.senderPkB64, message.lamport, opsData, draws.timeNs 0⟩
    if patch.patchId = "" ∨ patch.actorId = "" ∨ patch.baseLamport < 0 then (node, ⟨.ok (), []⟩)
    else
      match applyOps api message draws opsData [] node.planStore with
      | (.error e, applied, store) => ({ node with planStore := store }, ⟨.error e, applied⟩)
      | (.ok _, applied, store) =>
        let versionTracker :=
          if applied = [] then node.versionTracker
          else recordUpdate api sha256Hex message draws opsData patch.patchId applied.length store node.versionTracker
        (⟨store, versionTracker⟩, ⟨.ok (), applied⟩)

/-- The first operation that the update would append. -/
def firstOp : Option PlanOp :=
  let opsData := message.payload.ops.getD []
  if draws.uuid4 0 = "" ∨ message.senderPkB64 = "" ∨ message.lamport < 0 then none
  else (opsData.findSome? admitOp).map fun admitted => planOpOf message draws admitted 0

/-- The update has left a version at the lamport of its last operation, whose
snapshot has the tasks it names, and it has kept the versions there were. -/
structure LeavesVersion (before after : UpdateNode σ) (updated : Updated) : Prop where
  recorded : ∀ last, updated.applied.getLast? = some last → ∃ version snapshot,
    VersionTracker.getVersionById version.versionId after.versionTracker = .ok (some version) ∧
    version.lamport = last.lamport ∧
    VersionTracker.getSnapshotData version.versionId after.versionTracker = .ok snapshot ∧
    ∀ taskId ∈ namedTasks (message.payload.ops.getD []), ∀ task, (api.getTask taskId after.planStore).result = some task →
      snapshot.lookup taskId = some task
  kept : ∀ versionId version, VersionTracker.getVersionById versionId before.versionTracker = .ok (some version) →
    VersionTracker.getVersionById versionId after.versionTracker = .ok (some version)

/-- The node after a run of updates. -/
def updateAll (run : List (Envelope UpdatePlanPayload × Draws)) (node : UpdateNode σ) : UpdateNode σ :=
  run.foldl (fun node m => (handleUpdatePlan api sha256Hex m.1 m.2 node).1) node

/-- Every update of the run leaves its version. -/
def RunLeavesVersions (run : List (Envelope UpdatePlanPayload × Draws)) (node : UpdateNode σ) : Prop :=
  ∀ before m after, run = before ++ m :: after →
    let reached := updateAll api sha256Hex before node
    let handled := handleUpdatePlan api sha256Hex m.1 m.2 reached
    LeavesVersion api m.1 reached handled.1 handled.2

/-- The store refuses the first operation of every update that has one. -/
def RunRefused (run : List (Envelope UpdatePlanPayload × Draws)) (node : UpdateNode σ) : Prop :=
  ∀ before m after, run = before ++ m :: after → ∀ op, firstOp m.1 m.2 = some op →
    ∃ e, (api.appendOp op (updateAll api sha256Hex before node).planStore).1 = .error e

end Update

section Applied

variable {σ : Type} {api : PlanApi σ} {message : Envelope UpdatePlanPayload} {draws : Draws}

theorem applyOps_extends (ops : List OpData) (applied : List PlanOp) (store : σ) :
    applied <+: (applyOps api message draws ops applied store).2.1 := by
  induction ops generalizing applied store with
  | nil => exact List.prefix_refl _
  | cons op rest ih =>
    rw [applyOps]
    cases admitOp op with
    | none => exact ih applied store
    | some admitted =>
      dsimp only
      cases api.appendOp (planOpOf message draws admitted applied.length) store with
      | mk appended store' =>
        cases appended with
        | error e => exact List.prefix_refl _
        | ok called =>
          dsimp only
          cases called.await "NoneType" with
          | error e => exact List.prefix_append _ _
          | ok _ => exact (List.prefix_append _ _).trans (ih _ store')

/-- Nothing is applied only if the first operation is refused. -/
theorem applyOps_nil_iff (ops : List OpData) (store : σ) :
    (applyOps api message draws ops [] store).2.1 = [] ↔
      ∀ admitted, ops.findSome? admitOp = some admitted →
        ∃ e, (api.appendOp (planOpOf message draws admitted 0) store).1 = .error e := by
  induction ops with
  | nil => simp [applyOps]
  | cons op rest ih =>
    rw [applyOps, List.findSome?_cons]
    cases admitOp op with
    | none => exact ih
    | some admitted =>
      simp only [List.length_nil, List.nil_append, Option.some.injEq, forall_eq']
      cases happend : api.appendOp (planOpOf message draws admitted 0) store with
      | mk appended store' =>
        cases appended with
        | error e => simp
        | ok called =>
          dsimp only
          cases called.await "NoneType" with
          | error e => simp
          | ok _ =>
            obtain ⟨more, hmore⟩ := @applyOps_extends σ api message draws rest [planOpOf message draws admitted 0] store'
            rw [← hmore]
            simp

theorem handleUpdatePlan_nil_iff (sha256Hex : String → String) (node : UpdateNode σ) :
    (handleUpdatePlan api sha256Hex message draws node).2.applied = [] ↔
      ∀ op, firstOp message draws = some op → ∃ e, (api.appendOp op node.planStore).1 = .error e := by
  unfold handleUpdatePlan firstOp
  dsimp only
  by_cases hnone : message.payload.ops.getD [] = []
  · simp [hnone]
  · rw [if_neg hnone]
    by_cases hturned : draws.uuid4 0 = "" ∨ message.senderPkB64 = "" ∨ message.lamport < 0
    · simp [hturned]
    · rw [if_neg hturned, if_neg hturned]
      have hiff := @applyOps_nil_iff σ api message draws (message.payload.ops.getD []) node.planStore
      simp only [Option.map_eq_some_iff, forall_exists_index, and_imp, forall_apply_eq_imp_iff₂]
      rw [← hiff]
      cases happlied : applyOps api message draws (message.payload.ops.getD []) [] node.planStore with
      | mk outcome rest =>
        cases outcome with
        | error e => rfl
        | ok _ => rfl

/-- A store of which no update can record a version. -/
def Unrecorded (api : PlanApi σ) : Prop :=
  ∀ sha256Hex message draws node, (handleUpdatePlan api sha256Hex message draws node).1.versionTracker = node.versionTracker

theorem Unrecorded.updateAll (h : Unrecorded api) (sha256Hex : String → String)
    (run : List (Envelope UpdatePlanPayload × Draws)) (node : UpdateNode σ) :
    (updateAll api sha256Hex run node).versionTracker = node.versionTracker := by
  induction run using List.reverseRecOn with
  | nil => rfl
  | append_singleton before m ih =>
    rw [Handlers.updateAll, List.foldl_append]
    exact (h sha256Hex m.1 m.2 _).trans ih

/-- Where nothing is recorded, only updates that apply nothing leave their version. -/
theorem Unrecorded.leavesVersion_iff (h : Unrecorded api) (sha256Hex : String → String) {node : UpdateNode σ}
    (hinit : node.versionTracker = .init) :
    LeavesVersion api message node (handleUpdatePlan api sha256Hex message draws node).1
      (handleUpdatePlan api sha256Hex message draws node).2 ↔
      (handleUpdatePlan api sha256Hex message draws node).2.applied = [] := by
  have htracker : (handleUpdatePlan api sha256Hex message draws node).1.versionTracker = .init := (h _ _ _ _).trans hinit
  constructor
  · intro hleaves
    cases hlast : (handleUpdatePlan api sha256Hex message draws node).2.applied.getLast? with
    | none => exact List.getLast?_eq_none_iff.mp hlast
    | some last =>
      obtain ⟨version, snapshot, hversion, _⟩ := hleaves.recorded last hlast
      rw [htracker] at hversion
      cases hversion
  · intro hnil
    refine ⟨?_, ?_⟩
    · intro last hlast
      rw [hnil] at hlast
      cases hlast
    · intro versionId version hbefore
      rw [hinit] at hbefore
      cases hbefore

theorem Unrecorded.run_iff (h : Unrecorded api) (sha256Hex : String → String)
    (run : List (Envelope UpdatePlanPayload × Draws)) (store : σ) :
    RunLeavesVersions api sha256Hex run ⟨store, .init⟩ ↔ RunRefused api sha256Hex run ⟨store, .init⟩ := by
  refine forall_congr' fun before => forall_congr' fun m => forall_congr' fun after => imp_congr_right fun _ => ?_
  have hinit : (Handlers.updateAll api sha256Hex before ⟨store, .init⟩).versionTracker = .init := h.updateAll sha256Hex before _
  exact (h.leavesVersion_iff sha256Hex hinit).trans (handleUpdatePlan_nil_iff sha256Hex _)

end Applied

/-- A snapshot of coroutines cannot be written. -/
theorem sqlite_unrecorded : Unrecorded sqliteApi := by
  intro sha256Hex message draws node
  have hcoroutine (ops : List OpData) (store : PlanStore) :
      ∀ entry ∈ planStateOf sqliteApi ops store, ∃ task, entry.2 = .coroutine task := by
    intro entry hentry
    obtain ⟨taskId, _, hsome⟩ := List.mem_filterMap.mp hentry
    cases hsome
    exact ⟨_, rfl⟩
  have hrecord (ops : List OpData) (patchId : String) (n : Nat) (store : PlanStore) :
      recordUpdate sqliteApi sha256Hex message draws ops patchId n store node.versionTracker = node.versionTracker := by
    unfold recordUpdate
    dsimp only
    cases hstate : planStateOf sqliteApi ops store with
    | nil => rw [if_pos rfl]
    | cons entry rest =>
      obtain ⟨task, htask⟩ := hcoroutine ops store entry (hstate ▸ List.mem_cons_self)
      rw [if_neg (List.cons_ne_nil _ _), List.mapM_cons, htask]
      rfl
  unfold handleUpdatePlan
  dsimp only
  split
  next => rfl
  next =>
    split
    next => rfl
    next =>
      split
      next => rfl
      next =>
        dsimp only
        split
        next => rfl
        next => exact hrecord _ _ _ _

/-- The append has nothing to wait for. -/
theorem automerge_appendOp {op : PlanOp} {store : AutomergePlanStore} {called : Called Unit}
    (h : (automergeApi.appendOp op store).1 = .ok called) : called = .value () := by
  unfold automergeApi at h
  dsimp only at h
  split at h
  next =>
    cases h
    rfl
  next => cases h

/-- The first append that the handler awaits is the last. -/
theorem applyOps_automerge {message : Envelope UpdatePlanPayload} {draws : Draws} (ops : List OpData)
    (applied : List PlanOp) (store : AutomergePlanStore)
    (h : (applyOps automergeApi message draws ops applied store).1 = .ok ()) :
    (applyOps automergeApi message draws ops applied store).2.1 = applied := by
  induction ops with
  | nil => rfl
  | cons op rest ih =>
    rw [applyOps] at h ⊢
    cases hadmitted : admitOp op with
    | none =>
      rw [hadmitted] at h
      exact ih h
    | some admitted =>
      rw [hadmitted] at h
      dsimp only at h ⊢
      cases happend : automergeApi.appendOp (planOpOf message draws admitted applied.length) store with
      | mk appended store' =>
        rw [happend] at h
        cases appended with
        | error e => cases h
        | ok called =>
          obtain rfl := automerge_appendOp (congrArg Prod.fst happend)
          cases h

theorem automerge_unrecorded : Unrecorded automergeApi := by
  intro sha256Hex message draws node
  unfold handleUpdatePlan
  dsimp only
  split
  next => rfl
  next =>
    split
    next => rfl
    next =>
      split
      next => rfl
      next _ applied store happlied =>
        have hnil : (applyOps automergeApi message draws (message.payload.ops.getD []) [] node.planStore).2.1 = [] :=
          applyOps_automerge _ _ _ (by rw [happlied])
        rw [happlied] at hnil
        dsimp only at hnil ⊢
        rw [if_pos hnil]

/-- With either store, the updates of a run leave their versions exactly when the
store refuses the first operation of each update that has one. -/
theorem updates_leave_versions_iff (sha256Hex : String → String) (run : List (Envelope UpdatePlanPayload × Draws)) :
    (∀ store, RunLeavesVersions sqliteApi sha256Hex run ⟨store, .init⟩ ↔ RunRefused sqliteApi sha256Hex run ⟨store, .init⟩) ∧
      ∀ store, RunLeavesVersions automergeApi sha256Hex run ⟨store, .init⟩ ↔
        RunRefused automergeApi sha256Hex run ⟨store, .init⟩ :=
  ⟨sqlite_unrecorded.run_iff sha256Hex run, automerge_unrecorded.run_iff sha256Hex run⟩

/-- An update that adds one task. -/
def sampleUpdate : Envelope UpdatePlanPayload := ⟨"north", "alice", 1, ⟨some [⟨some "ADD_TASK", some "task", none⟩]⟩⟩

/-- The update of one task is applied to either store, and no version is recorded;
with the Automerge store the handler raises as well. -/
theorem update_leaves_no_version :
    let draws : Draws := ⟨fun n => if n = 0 then "patch" else "op", fun _ => 0⟩
    let sqlite := handleUpdatePlan sqliteApi (fun _ => "hash") sampleUpdate draws ⟨.init, .init⟩
    let automerge := handleUpdatePlan automergeApi (fun _ => "hash") sampleUpdate draws ⟨.init, .init⟩
    sqlite.2.outcome = .ok () ∧ sqlite.2.applied.length = 1 ∧ sqlite.1.versionTracker.versions = [] ∧
      automerge.2.outcome = .error (.typeError "object NoneType can't be used in 'await' expression") ∧
      automerge.2.applied.length = 1 ∧ automerge.1.versionTracker.versions = [] ∧
      ¬RunLeavesVersions sqliteApi (fun _ => "hash") [(sampleUpdate, draws)] ⟨.init, .init⟩ ∧
      ¬RunLeavesVersions automergeApi (fun _ => "hash") [(sampleUpdate, draws)] ⟨.init, .init⟩ := by
  intro draws sqlite automerge
  have hsqlite : sqlite.2.applied.length = 1 ∧ sqlite.1.versionTracker = .init := ⟨by rfl, sqlite_unrecorded _ _ _ _⟩
  have hautomerge : automerge.2.applied.length = 1 ∧ automerge.1.versionTracker = .init :=
    ⟨by rfl, automerge_unrecorded _ _ _ _⟩
  refine ⟨by rfl, hsqlite.1, by rw [hsqlite.2]; rfl, by rfl, hautomerge.1, by rw [hautomerge.2]; rfl, ?_, ?_⟩
  · intro h
    have hnil : sqlite.2.applied = [] := (sqlite_unrecorded.leavesVersion_iff _ rfl).mp (h [] (sampleUpdate, draws) [] rfl)
    rw [hnil] at hsqlite
    cases hsqlite.1
  · intro h
    have hnil : automerge.2.applied = [] := (automerge_unrecorded.leavesVersion_iff _ rfl).mp (h [] (sampleUpdate, draws) [] rfl)
    rw [hnil] at hautomerge
    cases hautomerge.1

end AgentNetwork.Handlers
