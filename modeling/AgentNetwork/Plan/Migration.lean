import AgentNetwork.Library.Awaiting
import AgentNetwork.Library.JsonIndent
import AgentNetwork.Library.Program
import AgentNetwork.Library.PythonBytes
import AgentNetwork.Library.PythonValues
import AgentNetwork.Plan.Agreement
import Mathlib.Data.List.Dedup
import Mathlib.Data.List.ReduceOption
import Mathlib.Data.String.Basic

namespace AgentNetwork.Plan

open Relational StableSort Python Transactional

inductive MigrationError
  | fileNotFound (message : String)
  | typeError (message : String)
  | planError (error : PlanError)
  deriving DecidableEq

namespace PlanStore

/-- The stores that successful appends lead to, with what was appended. -/
inductive Appended : List PlanOp → PlanStore → Prop
  | init : Appended [] .init
  | append {l : List PlanOp} {store store' : PlanStore} {op : PlanOp} : Appended l store →
      appendOp op store = (.ok (), store') → Appended (l ++ [op]) store'

end PlanStore

namespace MigrationTool

/-- `SELECT DISTINCT thread_id FROM ops`, in the order of the index on the column. -/
def threadIds (store : PlanStore) : List String := sortOn id (store.ops.map PlanOp.threadId).dedup

/-- `load_from_sqlite`; what it calls for each thread is a coroutine function. -/
def loadFromSqlite (db : Option PlanStore) : Except MigrationError (List PlanOp) :=
  match db with
  | none => .error (.fileNotFound "SQLite database not found")
  | some store =>
    let calls := (threadIds store).map fun threadId => Called.coroutine (store.getOpsForThread threadId)
    match Called.extendAll calls [] with
    | .error e => .error (.typeError e.message)
    | .ok allOps => .ok (sortOn PlanOp.lamport allOps)

/-- The loop of `export_to_automerge`. -/
def replay : List PlanOp → AutomergePlanStore → Except MigrationError AutomergePlanStore
  | [], store => .ok store
  | op :: ops, store =>
    match store.appendOp op with
    | (.ok _, store) => replay ops store
    | (.error e, _) => .error (.planError e)

/-- `export_to_automerge`: the store, and what is written to the file. -/
def exportToAutomerge (ops : List PlanOp) : Except MigrationError (AutomergePlanStore × CRDTDocument) := do
  let store ← replay ops .init
  .ok (store, store.getSaveData)

/-- The migration of the database succeeds, and a store that loads the file has the
operations, the tasks and the edges of the database. -/
def Preserves (store : PlanStore) : Prop :=
  ∃ ops automerge data loaded, loadFromSqlite (some store) = .ok ops ∧ exportToAutomerge ops = .ok (automerge, data) ∧
    AutomergePlanStore.loadFromData data .init = (.ok (), loaded) ∧
    loaded.doc.ops.Perm (store.ops.map PlanOp.toDict) ∧ StoresAgree store loaded

end MigrationTool

section Migration

variable {store : PlanStore} {l : List PlanOp}

open PlanStore MigrationTool

theorem PlanStore.insertOp_ops {op : PlanOp} {store store' : PlanStore} (h : insertOp op store = .ok store') :
    store'.ops = store.ops ++ [op] := by
  unfold insertOp at h
  split at h
  next => cases h
  next =>
    split at h
    next => cases h
    next =>
      cases h
      rfl

theorem PlanStore.updateState_ops {op : PlanOp} {newState : Option String} {store store' : PlanStore}
    (h : updateState op newState store = .ok store') : store'.ops = store.ops := by
  unfold updateState at h
  split at h
  next =>
    cases h
    rfl
  next =>
    split at h
    next =>
      split at h
      next => cases h
      next =>
        cases h
        rfl
    next =>
      cases h
      rfl

/-- The derived tables are written after the operation and beside it. -/
theorem PlanStore.applyOp_ops {op : PlanOp} {store store' : PlanStore} (h : applyOp op store = .ok store') :
    store'.ops = store.ops := by
  unfold applyOp at h
  cases htype : op.opType with
  | addTask =>
    rw [htype] at h
    obtain ⟨taskType, _, hrest⟩ := except_bind_ok.mp h
    cases hrest
    exact (insertTask_frame _).1
  | state =>
    rw [htype] at h
    obtain ⟨value, _, hrest⟩ := except_bind_ok.mp h
    obtain ⟨newState, _, hrest⟩ := except_bind_ok.mp hrest
    exact (updateState_ops hrest).trans (insertTask_frame _).1
  | link =>
    rw [htype] at h
    obtain ⟨parent, _, hrest⟩ := except_bind_ok.mp h
    obtain ⟨child, _, hrest⟩ := except_bind_ok.mp hrest
    obtain ⟨parent', _, hrest⟩ := except_bind_ok.mp hrest
    obtain ⟨child', _, hrest⟩ := except_bind_ok.mp hrest
    cases hrest
    exact (insertEdge_frame _ _).1
  | annotate | requires | produces =>
    rw [htype] at h
    cases h
    rfl

theorem PlanStore.appendOp_ops {op : PlanOp} {store store' : PlanStore} (h : appendOp op store = (.ok (), store')) :
    store'.ops = store.ops ++ [op] := by
  unfold appendOp at h
  cases hdone : insertOp op store >>= applyOp op with
  | error e =>
    rw [hdone] at h
    cases h
  | ok done =>
    rw [hdone] at h
    cases h
    obtain ⟨inserted, hinsert, happly⟩ := except_bind_ok.mp hdone
    rw [applyOp_ops happly, insertOp_ops hinsert]

theorem PlanStore.Appended.ops (h : Appended l store) : store.ops = l := by
  induction h with
  | init => rfl
  | append _ happend ih => rw [appendOp_ops happend, ih]

theorem PlanStore.Appended.of_nil (h : Appended [] store) : store = .init := by
  generalize hl : ([] : List PlanOp) = l at h
  cases h with
  | init => rfl
  | append => simp at hl

/-- The database gives its operations only if there is no thread to ask for. -/
theorem loadFromSqlite_ok {ops : List PlanOp} (h : loadFromSqlite (some store) = .ok ops) : store.ops = [] := by
  unfold loadFromSqlite at h
  dsimp only at h
  split at h
  next => cases h
  next allOps hall =>
    have hvalues := Called.extendAll_eq_ok hall
    by_contra hne
    obtain ⟨op, hop⟩ := List.exists_mem_of_ne_nil _ hne
    have hthread : op.threadId ∈ threadIds store := by
      rw [threadIds, mem_sortOn, List.mem_dedup]
      exact List.mem_map_of_mem hop
    obtain ⟨more, hmore⟩ := hvalues _ (List.mem_map_of_mem hthread)
    cases hmore

/-- A database without operations is migrated to a store without operations. -/
theorem preserves_init : Preserves .init := by
  refine ⟨[], .init, _, .init, rfl, rfl, rfl, List.Perm.refl _, ?_⟩
  have hboth := bothShow_init
  exact hboth.agree (List.forall_mem_nil _)

/-- The migration preserves the plan exactly when there is no plan. -/
theorem preserves_iff (h : Appended l store) : Preserves store ↔ l = [] := by
  constructor
  · rintro ⟨ops, _, _, _, hload, _⟩
    rw [← h.ops]
    exact loadFromSqlite_ok hload
  · intro hl
    rw [hl] at h
    rw [h.of_nil]
    exact preserves_init

/-- A database to which nothing was appended. -/
theorem preserves_empty : Preserves .init := (preserves_iff Appended.init).mpr rfl

/-- A database with one task: the tool raises when it loads it. -/
theorem migration_raises : ∃ l store, Appended l store ∧ (l.map PlanOp.opId).Nodup ∧
    loadFromSqlite (some store) = .error (.typeError "'coroutine' object is not iterable") ∧ ¬Preserves store := by
  let op : PlanOp := ⟨"a", "north", 1, "actor", .addTask, "task", .empty, 0⟩
  have happended : Appended [op] (appendOp op .init).2 := Appended.init.append (by rfl)
  have hload : loadFromSqlite (some (appendOp op .init).2) = .error (.typeError "'coroutine' object is not iterable") := by
    rfl
  refine ⟨_, _, happended, by decide, hload, ?_⟩
  rintro ⟨ops, _, _, _, hok, _⟩
  rw [hload] at hok
  cases hok

end Migration

namespace MigrationTool

/-- What a verification raises. -/
inductive VerificationError
  | unicodeDecodeError
  | jsonDecodeError
  | keyError (key : String)
  | raised (e : Exn)
  deriving DecidableEq

def raising {α : Type} : Except Exn α → Except VerificationError α
  | .ok a => .ok a
  | .error e => .error (.raised e)

/-- `value[key]`. -/
def subscript (value : Json) (key : String) : Except VerificationError Json :=
  match value with
  | .obj fields =>
    match fields.lookup key with
    | some item => .ok item
    | none => .error (.keyError key)
  | .arr _ => .error (.raised (.typeError "list indices must be integers or slices, not str"))
  | .str _ => .error (.raised (.typeError "string indices must be integers, not 'str'"))
  | value => .error (.raised (.typeError s!"'{typeName value}' object is not subscriptable"))

/-- `value[key] = item`. -/
def assignItem (value : Json) (key : String) (item : Json) : Except VerificationError Json :=
  match value with
  | .obj fields => .ok (.obj (Json.setField fields key item))
  | .arr _ => .error (.raised (.typeError "list indices must be integers or slices, not str"))
  | value => .error (.raised (.typeError s!"'{typeName value}' object does not support item assignment"))

/-- `key in value`. -/
def isIn (key : String) : Json → Except VerificationError Bool
  | .obj fields => .ok (key ∈ fields.map Prod.fst)
  | .arr items => .ok (items.any fun item => equal (.str key) item)
  | .str text => .ok (key.toList <:+: text.toList)
  | value => .error (.raised (.typeError s!"argument of type '{typeName value}' is not iterable"))

/-- `len(value)`. -/
def size : Json → Except VerificationError Nat
  | .obj fields => .ok fields.length
  | .arr items => .ok items.length
  | .str text => .ok text.length
  | value => .error (.raised (.typeError s!"object of type '{typeName value}' has no len()"))

/-- An element of a set: its hash is taken. -/
def element (value : Json) : Except VerificationError Json :=
  if value.hashable then .ok value else .error (.raised (.typeError s!"unhashable type: '{typeName value}'"))

/-- One element of a set is found for another; NaN is one object. -/
def sameElement (a b : Json) : Bool := decide (a = b) || equal a b

/-- The set of the elements of a list; of equal ones the first stays. -/
def setOf (items : List Json) : List Json :=
  items.foldl (fun kept item => if kept.any (sameElement · item) then kept else kept ++ [item]) []

/-- The order in which a loop visits the elements of a set. -/
structure SetOrder where
  visit : ∀ {α : Type}, List α → List α
  perm : ∀ {α : Type} (l : List α), (visit l).Perm l

def SetOrder.asBuilt : SetOrder := ⟨fun l => l, fun l => List.Perm.refl l⟩

/-- The document of a store that has loaded a file; its values are those of the file. -/
structure SavedDocument where
  tasks : Json
  edges : Json
  annotations : Json
  ops : Json

namespace SavedDocument

/-- `load_from_data`, from the value that the file holds. -/
def ofDict (docDict : Json) : Except VerificationError SavedDocument := do
  let tasks ← subscript docDict "tasks"
  let edges ← subscript docDict "edges"
  let annotations ← subscript docDict "annotations"
  let ops ← subscript docDict "ops"
  let logged ← raising (iterate ops)
  let _ ← logged.mapM fun op => subscript op "op_id" >>= element
  .ok ⟨tasks, edges, annotations, ops⟩

def loadFromData (data : List UInt8) : Except VerificationError SavedDocument :=
  match decodeUtf8 data with
  | none => .error .unicodeDecodeError
  | some text =>
    match Json.loads text with
    | none => .error .jsonDecodeError
    | some docDict => ofDict docDict

/-- `get_task`. -/
def getTask (doc : SavedDocument) (taskId : String) : Except VerificationError (Option Json) := do
  let tasks ← raising (asDict "get" doc.tasks)
  match (tasks.lookup taskId).filter truthy with
  | none => .ok none
  | some task =>
    if ← isIn taskId doc.annotations then
      let annotations ← subscript doc.annotations taskId >>= fun value => raising (asDict "items" value)
      let values ← annotations.mapM fun entry => (subscript entry.2 "value").map fun value => (entry.1, value)
      (assignItem task "annotations" (.obj values)).map some
    else .ok (some task)

/-- `get_all_tasks`; a value that is no dictionary has no `get`. -/
def getAllTasks (doc : SavedDocument) : Except VerificationError (List Json) :=
  match doc.tasks with
  | .obj fields => (fields.mapM fun entry => doc.getTask entry.1).map List.reduceOption
  | value =>
    match iterate value with
    | .error e => .error (.raised e)
    | .ok [] => .ok []
    | .ok (_ :: _) => .error (.raised (.attributeError s!"'{typeName value}' object has no attribute 'get'"))

/-- The set of the `task_id`s of all tasks. -/
def taskIds (doc : SavedDocument) : Except VerificationError (List Json) := do
  let tasks ← doc.getAllTasks
  let ids ← tasks.mapM fun task => subscript task "task_id" >>= element
  .ok (setOf ids)

end SavedDocument

structure Statistics where
  sqliteTasks : Nat
  automergeTasks : Nat
  stateMismatches : Nat
  sqliteEdges : Nat
  automergeEdges : Nat
  deriving DecidableEq

structure Report where
  success : Bool
  errors : List String
  warnings : List String
  statistics : Statistics
  deriving DecidableEq

/-- `_get_sqlite_tasks`. -/
def getSqliteTasks (store : PlanStore) : List (String × TaskRow) := store.tasks.entries

/-- `_get_sqlite_edges`. -/
def getSqliteEdges (store : PlanStore) : Table String (List String) :=
  store.edges.foldl (fun edges edge => edges.upsert edge.1 ((edges.get? edge.1).getD [] ++ [edge.2])) .empty

/-- The round of the loop over the common tasks: the mismatch that it notes. -/
def stateMismatch (doc : SavedDocument) (entry : String × TaskRow) : Except VerificationError (Option Json) := do
  let automergeTask ← doc.getTask entry.1
  let automergeState ← subscript (automergeTask.getD .null) "state"
  .ok (if equal (.str entry.2.state) automergeState then none
    else some (.obj [("task_id", .str entry.1), ("sqlite_state", .str entry.2.state), ("automerge_state", automergeState)]))

variable (isPrintable : Char → Bool) (order : SetOrder)

def listText (items : List Json) : String := String.ofList (reprChars isPrintable (.arr items))

/-- `verify_migration`, once both stores are loaded. -/
def compareStores (store : PlanStore) (doc : SavedDocument) : Except VerificationError Report := do
  let sqliteTasks := getSqliteTasks store
  let automergeTaskIds ← doc.taskIds
  let sqliteTaskIds := sqliteTasks.map fun entry => Json.str entry.1
  let missing := sqliteTaskIds.filter fun taskId => !automergeTaskIds.any (sameElement taskId)
  let extra := automergeTaskIds.filter fun taskId => !sqliteTaskIds.any (sameElement taskId)
  let common := sqliteTasks.filter fun entry => automergeTaskIds.any (sameElement (.str entry.1))
  let mismatches ← ((order.visit common).mapM (stateMismatch doc)).map List.reduceOption
  let automergeEdges ← raising (asDict "values" doc.edges)
  let automergeSizes ← automergeEdges.mapM fun entry => size entry.2
  let missingText := s!"Missing {missing.length} tasks in Automerge: {listText isPrintable ((order.visit missing).take 5)}"
  let mismatchText := s!"State mismatches in {mismatches.length} tasks: {listText isPrintable (mismatches.take 3)}"
  let extraText := s!"Extra {extra.length} tasks in Automerge: {listText isPrintable ((order.visit extra).take 5)}"
  .ok {
    success := missing.isEmpty && mismatches.isEmpty
    errors := (if missing.isEmpty then [] else [missingText]) ++ if mismatches.isEmpty then [] else [mismatchText]
    warnings := if extra.isEmpty then [] else [extraText]
    statistics := ⟨sqliteTaskIds.length, automergeTaskIds.length, mismatches.length,
      ((getSqliteEdges store).entries.map fun entry => entry.2.length).sum, automergeSizes.sum⟩ }

/-- `verify_migration`; a store that the tool has loaded before is not loaded again. -/
def verifyMigration (sqliteStore : Option PlanStore) (db : PlanStore) (data : List UInt8) :
    Except VerificationError (Bool × Report) := do
  let doc ← SavedDocument.loadFromData data
  let report ← compareStores isPrintable order (sqliteStore.getD db) doc
  .ok (report.success, report)

/-- A task of the database is in the document under its id, with the state of its row. -/
def HoldsTask (doc : SavedDocument) (taskId : String) (row : TaskRow) : Prop :=
  ∃ task, doc.getTask taskId = .ok (some task) ∧ subscript task "state" = .ok (.str row.state)

/-- The document has the tasks of the database and no others. -/
def SameTaskIds (store : PlanStore) (doc : SavedDocument) : Prop :=
  ∃ ids, doc.taskIds = .ok ids ∧ ∀ taskId, taskId ∈ ids ↔ ∃ k ∈ store.tasks.keys, taskId = .str k

/-- The document has the edges of the database and no others. -/
def SameEdges (store : PlanStore) (doc : SavedDocument) : Prop :=
  ∀ parent child, (parent, child) ∈ store.edges ↔
    ∃ edges children, doc.edges = .obj edges ∧ edges.lookup parent = some (.arr children) ∧ .str child ∈ children

section Verification

variable {isPrintable : Char → Bool} {order : SetOrder} {store : PlanStore} {doc : SavedDocument} {report : Report}
variable {taskId : String} {row : TaskRow}

theorem equal_str {s : String} {value : Json} : equal (.str s) value = true ↔ value = .str s := by
  cases value with
  | str t =>
    simp only [equal, decide_eq_true_eq, Json.str.injEq]
    exact eq_comm
  | null | bool | int | float | arr | obj => simp [equal]

theorem sameElement_str {s : String} {value : Json} : sameElement (.str s) value = true ↔ value = .str s := by
  rw [sameElement, Bool.or_eq_true, decide_eq_true_eq, equal_str, eq_comm, or_self]

theorem sameElement_to_str {s : String} {value : Json} : sameElement value (.str s) = true ↔ value = .str s := by
  cases value with
  | str t => simp [sameElement, equal]
  | null | arr | obj => simp [sameElement, equal]
  | bool | int | float => simp [sameElement, equal, equalNumbers, Number.ofJson?]

theorem any_sameElement_str {ids : List Json} {s : String} : ids.any (sameElement (.str s)) = true ↔ .str s ∈ ids := by
  rw [List.any_eq_true]
  constructor
  · rintro ⟨value, hvalue, hsame⟩
    rwa [← sameElement_str.mp hsame]
  · intro h
    exact ⟨_, h, sameElement_str.mpr rfl⟩

theorem any_sameElement_ids {value : Json} :
    ((getSqliteTasks store).map fun entry => Json.str entry.1).any (sameElement value) = true ↔
      ∃ k ∈ store.tasks.keys, value = .str k := by
  simp [getSqliteTasks, Table.keys, sameElement_to_str]

/-- The round notes nothing only if the document holds the task with the state of its row. -/
theorem stateMismatch_none (h : stateMismatch doc (taskId, row) = .ok none) : HoldsTask doc taskId row := by
  obtain ⟨task, htask, h⟩ := except_bind_ok.mp h
  obtain ⟨state, hstate, hfinal⟩ := except_bind_ok.mp h
  have hnone := Except.ok.inj hfinal
  cases task with
  | none => cases hstate
  | some task =>
    refine ⟨task, htask, ?_⟩
    dsimp only at hnone
    split at hnone
    next hequal =>
      rw [equal_str.mp hequal] at hstate
      exact hstate
    next => cases hnone

/-- What a report without an error says of the tasks, and what its warnings say. -/
theorem compareStores_ok (h : compareStores isPrintable order store doc = .ok report) :
    ∃ ids, doc.taskIds = .ok ids ∧
      (report.success = true → ∀ entry ∈ store.tasks.entries, .str entry.1 ∈ ids ∧ HoldsTask doc entry.1 entry.2) ∧
      (report.warnings = [] ↔ ∀ taskId ∈ ids, ∃ k ∈ store.tasks.keys, taskId = .str k) := by
  obtain ⟨ids, hids, h⟩ := except_bind_ok.mp h
  obtain ⟨mismatches, hmismatches, h⟩ := except_bind_ok.mp h
  obtain ⟨edges, _, h⟩ := except_bind_ok.mp h
  obtain ⟨sizes, _, h⟩ := except_bind_ok.mp h
  cases h
  refine ⟨ids, hids, ?_, ?_⟩
  · intro hsuccess entry hentry
    simp only [Bool.and_eq_true, List.isEmpty_iff] at hsuccess
    obtain ⟨hmissing, hnone⟩ := hsuccess
    have hin : ids.any (sameElement (.str entry.1)) = true := by
      have hnot := List.filter_eq_nil_iff.mp hmissing _ (List.mem_map.mpr ⟨entry, hentry, rfl⟩)
      simpa using hnot
    refine ⟨any_sameElement_str.mp hin, ?_⟩
    obtain ⟨results, hresults, hreduced⟩ := except_map_ok.mp hmismatches
    have hcommon : entry ∈ (getSqliteTasks store).filter fun e => ids.any (sameElement (.str e.1)) :=
      List.mem_filter.mpr ⟨hentry, hin⟩
    obtain ⟨noted, hnoted, hround⟩ := mapM_mem hresults ((order.perm _).mem_iff.mpr hcommon)
    cases noted with
    | none => exact stateMismatch_none hround
    | some mismatch =>
      rw [hnone] at hreduced
      have hmem := List.reduceOption_mem_iff.mpr hnoted
      rw [hreduced] at hmem
      cases hmem
  · constructor
    · intro hwarnings taskId htaskId
      by_contra hnot
      have hextra : taskId ∈ ids.filter fun id => !((getSqliteTasks store).map fun entry => Json.str entry.1).any (sameElement id) := by
        refine List.mem_filter.mpr ⟨htaskId, ?_⟩
        rw [Bool.not_eq_true', Bool.eq_false_iff]
        exact fun hany => hnot (any_sameElement_ids.mp hany)
      dsimp only at hwarnings
      rw [if_neg (by rw [List.isEmpty_iff]; exact List.ne_nil_of_mem hextra)] at hwarnings
      cases hwarnings
    · intro hknown
      refine if_pos ?_
      rw [List.isEmpty_iff, List.filter_eq_nil_iff]
      intro taskId htaskId
      rw [any_sameElement_ids.mpr (hknown taskId htaskId)]
      decide

/-- A verification that succeeds has found every task of the database in the file under its
id and with its state, and has warned of the tasks that only the file has. -/
theorem verified_tasks_are_migrated {sqliteStore : Option PlanStore} {db : PlanStore} {data : List UInt8}
    (h : verifyMigration isPrintable order sqliteStore db data = .ok (true, report)) :
    ∃ doc ids, SavedDocument.loadFromData data = .ok doc ∧ doc.taskIds = .ok ids ∧
      (∀ taskId row, (sqliteStore.getD db).tasks.get? taskId = some row → .str taskId ∈ ids ∧ HoldsTask doc taskId row) ∧
      (report.warnings = [] ↔ ∀ taskId ∈ ids, ∃ k ∈ (sqliteStore.getD db).tasks.keys, taskId = .str k) := by
  obtain ⟨doc, hdoc, hrest⟩ := except_bind_ok.mp h
  obtain ⟨compared, hcompared, hfinal⟩ := except_bind_ok.mp hrest
  obtain ⟨hsuccess, heq⟩ := Prod.mk.inj (Except.ok.inj hfinal)
  subst heq
  obtain ⟨ids, hids, htasks, hwarnings⟩ := compareStores_ok hcompared
  refine ⟨doc, ids, hdoc, hids, ?_, hwarnings⟩
  intro taskId row hrow
  exact htasks hsuccess (taskId, row) (Table.get?_eq_some_iff.mp hrow)

/-- A verification that succeeds vouches for the tasks, their states and the edges. -/
def VouchesForAll (isPrintable : Char → Bool) (order : SetOrder) (db : PlanStore) (data : List UInt8) : Prop :=
  ∀ report, verifyMigration isPrintable order none db data = .ok (true, report) →
    ∃ doc, SavedDocument.loadFromData data = .ok doc ∧ SameTaskIds db doc ∧
      (∀ taskId row, db.tasks.get? taskId = some row → HoldsTask doc taskId row) ∧ SameEdges db doc

/-- `get_save_data`, of a document with these tasks and edges. -/
def saveFile (tasks edges : List (String × Json)) : Json :=
  .obj [("tasks", .obj tasks), ("edges", .obj edges), ("annotations", .obj []), ("ops", .arr []), ("version", .int 0)]

def fileData (value : Json) : List UInt8 := encodeUtf8 (value.writeIndented 2)

theorem loadFromData_fileData {value : Json} (h : value.wellFormed = true) :
    SavedDocument.loadFromData (fileData value) = SavedDocument.ofDict value := by
  rw [SavedDocument.loadFromData, fileData, decodeUtf8_encodeUtf8]
  dsimp only
  rw [Json.loads_writeIndented 2 value h]

theorem verifyMigration_fileData {value : Json} (h : value.wellFormed = true) (db : PlanStore) :
    verifyMigration isPrintable order none db (fileData value) = (do
      let doc ← SavedDocument.ofDict value
      let report ← compareStores isPrintable order db doc
      .ok (report.success, report)) := by
  rw [verifyMigration, loadFromData_fileData h]
  rfl

def sampleDatabase : PlanStore := ⟨[], .upsert .empty "a" ⟨"a", "north", none, "DRAFT", 1⟩, [("a", "b")]⟩

def sampleTask (taskId : String) : String × Json :=
  (taskId, .obj [("task_id", .str taskId), ("thread_id", .str "north"), ("task_type", .null), ("state", .str "DRAFT"), ("last_lamport", .int 1)])

def migratedFile : Json := saveFile [sampleTask "a"] [("a", .arr [.str "b"])]

theorem verified_tasks_are_migrated_sample :
    ∃ doc ids, SavedDocument.loadFromData (fileData migratedFile) = .ok doc ∧ doc.taskIds = .ok ids ∧
      ∀ taskId row, sampleDatabase.tasks.get? taskId = some row → .str taskId ∈ ids ∧ HoldsTask doc taskId row := by
  have hwell : migratedFile.wellFormed = true := by decide
  have hverified : verifyMigration (fun _ => true) .asBuilt none sampleDatabase (fileData migratedFile) = _ :=
    verifyMigration_fileData hwell sampleDatabase
  obtain ⟨doc, ids, hdoc, hids, htasks, _⟩ := verified_tasks_are_migrated (hverified.trans rfl)
  exact ⟨doc, ids, hdoc, hids, htasks⟩

/-- A task that only the file has is a warning, and of the edges only the numbers are reported. -/
theorem differing_stores_verified :
    ¬VouchesForAll (fun _ => true) .asBuilt sampleDatabase
      (fileData (saveFile [sampleTask "a", sampleTask "b"] [("a", .arr [.str "b"])])) ∧
    ¬VouchesForAll (fun _ => true) .asBuilt sampleDatabase (fileData (saveFile [sampleTask "a"] [("a", .arr [.str "c"])])) := by
  constructor
  · intro h
    obtain ⟨doc, hdoc, ⟨ids, hids, hsame⟩, _⟩ := h _ ((verifyMigration_fileData (by decide) _).trans rfl)
    rw [loadFromData_fileData (by decide)] at hdoc
    cases hdoc
    cases hids
    obtain ⟨k, hk, hkey⟩ := (hsame (.str "b")).mp (by decide)
    cases hkey
    exact absurd hk (by decide)
  · intro h
    obtain ⟨doc, hdoc, _, _, hsame⟩ := h _ ((verifyMigration_fileData (by decide) _).trans rfl)
    rw [loadFromData_fileData (by decide)] at hdoc
    cases hdoc
    obtain ⟨edges, children, hedges, hchildren, hchild⟩ := (hsame "a" "b").mp (by decide)
    cases hedges
    cases hchildren
    exact absurd hchild (by decide)

end Verification

end MigrationTool

end AgentNetwork.Plan
