import AgentNetwork.Plan.AutomergeStore

namespace AgentNetwork.Plan

open Relational StableSort

/-- The exceptions of the SQLite plan store. -/
inductive SqlError
  | keyError (key : String)
  | integrityError (message : String)
  | interfaceError (message : String)
  | overflowError (message : String)
  deriving DecidableEq

/-- A row of `tasks`. -/
structure TaskRow where
  taskId : String
  threadId : String
  taskType : Option String
  state : String
  lastLamport : Int
  deriving DecidableEq

/-- The tables of the store; `ops` and `edges` in insertion order. -/
structure PlanStore where
  ops : List PlanOp
  tasks : Table String TaskRow
  edges : List (String × String)
  deriving DecidableEq

/-- What `get_task` tells about a task. -/
structure TaskView where
  taskId : String
  threadId : String
  taskType : Json
  state : Json
  deriving DecidableEq

namespace PlanStore

def init : PlanStore := ⟨[], .empty, []⟩

/-- The integers that SQLite can hold. -/
def fits (n : Int) : Bool := -(2 ^ 63) ≤ n ∧ n < 2 ^ 63

/-- A value bound to a TEXT column; a number that is no integer keeps its literal. -/
def bindText : Json → Except SqlError (Option String)
  | .null => .ok none
  | .str s => .ok (some s)
  | .bool b => .ok (some (if b then "1" else "0"))
  | .int n => if fits n then .ok (some (toString n)) else .error (.overflowError "Python int too large to convert to SQLite INTEGER")
  | .float literal => .ok (some literal)
  | .arr _ => .error (.interfaceError "type 'list' is not supported")
  | .obj _ => .error (.interfaceError "type 'dict' is not supported")

def payloadField (op : PlanOp) (key : String) : Except SqlError Json :=
  match op.payload.get? key with
  | some value => .ok value
  | none => .error (.keyError key)

def insertOp (op : PlanOp) (store : PlanStore) : Except SqlError PlanStore :=
  if ¬(fits op.lamport ∧ fits op.timestampNs) then
    .error (.overflowError "Python int too large to convert to SQLite INTEGER")
  else if op.opId ∈ store.ops.map PlanOp.opId then .error (.integrityError "UNIQUE constraint failed: ops.op_id")
  else .ok { store with ops := store.ops ++ [op] }

/-- `INSERT OR IGNORE INTO tasks`. -/
def insertTask (row : TaskRow) (store : PlanStore) : PlanStore :=
  if store.tasks.contains row.taskId then store else { store with tasks := store.tasks.upsert row.taskId row }

/-- The guarded update of a STATE. -/
def updateState (op : PlanOp) (newState : Option String) (store : PlanStore) : Except SqlError PlanStore :=
  match store.tasks.get? op.taskId with
  | none => .ok store
  | some row =>
    if row.lastLamport < op.lamport then
      match newState with
      | none => .error (.integrityError "NOT NULL constraint failed: tasks.state")
      | some state =>
        .ok { store with tasks := store.tasks.upsert op.taskId { row with state := state, lastLamport := op.lamport } }
    else .ok store

/-- `INSERT OR IGNORE INTO edges`, which also ignores a NULL. -/
def insertEdge (parent child : Option String) (store : PlanStore) : PlanStore :=
  match parent, child with
  | some p, some c => if (p, c) ∈ store.edges then store else { store with edges := store.edges ++ [(p, c)] }
  | _, _ => store

/-- `_apply_op`. -/
def applyOp (op : PlanOp) (store : PlanStore) : Except SqlError PlanStore :=
  match op.opType with
  | .addTask => do
    let taskType ← bindText ((op.payload.get? "type").getD .null)
    .ok (insertTask ⟨op.taskId, op.threadId, taskType, TaskState.draft.value, op.lamport⟩ store)
  | .state => do
    let store := insertTask ⟨op.taskId, op.threadId, none, TaskState.draft.value, 0⟩ store
    let newState ← payloadField op "state"
    let newState ← bindText newState
    updateState op newState store
  | .link => do
    let parent ← payloadField op "parent"
    let child ← payloadField op "child"
    let parent ← bindText parent
    let child ← bindText child
    .ok (insertEdge parent child store)
  | .annotate | .requires | .produces => .ok store

/-- `append_op`: one transaction, rolled back when it raises. -/
def appendOp (op : PlanOp) (store : PlanStore) : Except SqlError Unit × PlanStore :=
  match insertOp op store >>= applyOp op with
  | .ok store' => (.ok (), store')
  | .error e => (.error e, store)

def getTask (taskId : String) (store : PlanStore) : Option TaskView :=
  (store.tasks.get? taskId).map fun row =>
    ⟨row.taskId, row.threadId, (row.taskType.map Json.str).getD .null, .str row.state⟩

/-- `get_ops_for_thread`; among equal lamports the rows come as they were inserted. -/
def getOpsForThread (threadId : String) (store : PlanStore) : List PlanOp :=
  sortOn PlanOp.lamport (store.ops.filter fun op => op.threadId = threadId)

end PlanStore

namespace AutomergePlanStore

/-- What `get_task` returns: the task, and its annotations if there are any. -/
def getTask (taskId : String) (store : AutomergePlanStore) : Option (Task × Option (List (String × Json))) :=
  (store.doc.tasks.get? taskId).map fun task =>
    (task, (store.doc.annotations.get? taskId).map fun annotations =>
      annotations.entries.map fun entry => (entry.1, entry.2.value))

/-- The operations of the thread, read from the log. -/
def threadOps (threadId : String) : List OpDict → Except PlanError (List PlanOp)
  | [] => .ok []
  | d :: rest => do
    let thread ← field "thread_id" d.threadId
    if thread = threadId then
      let op ← d.toOp
      let ops ← threadOps threadId rest
      .ok (op :: ops)
    else threadOps threadId rest

def getOpsForThread (threadId : String) (store : AutomergePlanStore) : Except PlanError (List PlanOp) := do
  let ops ← threadOps threadId store.doc.ops
  .ok (sortOn PlanOp.lamport ops)

end AutomergePlanStore

end AgentNetwork.Plan
