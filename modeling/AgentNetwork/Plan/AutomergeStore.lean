import AgentNetwork.Plan.Operations
import AgentNetwork.Library.StableSort

namespace AgentNetwork.Plan

open Relational StableSort

/-- A task as the document holds it. -/
structure Task where
  taskId : String
  threadId : String
  taskType : Json
  state : Json
  lastLamport : Int
  deriving DecidableEq

structure Annotation where
  value : Json
  lamport : Int
  deriving DecidableEq

/-- `CRDTDocument`, which is also what a peer receives. -/
structure CRDTDocument where
  tasks : Table String Task
  edges : Table Json (List Json)
  annotations : Table String (Table String Annotation)
  ops : List OpDict
  version : Nat
  deriving DecidableEq

/-- The document and the ids of its operations. -/
structure AutomergePlanStore where
  doc : CRDTDocument
  opIds : List String
  deriving DecidableEq

namespace AutomergePlanStore

def init : AutomergePlanStore := ⟨⟨.empty, .empty, .empty, [], 0⟩, []⟩

/-- `payload[key]`. -/
def payloadField (op : PlanOp) (key : String) : Except PlanError Json := field key (op.payload.get? key)

def addTask (doc : CRDTDocument) (op : PlanOp) : CRDTDocument :=
  if doc.tasks.contains op.taskId then doc
  else
    let taskType := (op.payload.get? "type").getD .null
    let task : Task := ⟨op.taskId, op.threadId, taskType, .str TaskState.draft.value, op.lamport⟩
    { doc with tasks := doc.tasks.upsert op.taskId task }

def setState (doc : CRDTDocument) (op : PlanOp) : Except PlanError CRDTDocument :=
  match doc.tasks.get? op.taskId with
  | none => do
    let state ← payloadField op "state"
    .ok { doc with tasks := doc.tasks.upsert op.taskId ⟨op.taskId, op.threadId, .null, state, op.lamport⟩ }
  | some task =>
    if op.lamport > task.lastLamport then do
      let state ← payloadField op "state"
      .ok { doc with tasks := doc.tasks.upsert op.taskId { task with state := state, lastLamport := op.lamport } }
    else .ok doc

def addLink (doc : CRDTDocument) (op : PlanOp) : Except PlanError CRDTDocument := do
  let parent ← payloadField op "parent"
  let child ← payloadField op "child"
  if parent.hashable then
    let children := (doc.edges.get? parent).getD []
    .ok { doc with edges := doc.edges.upsert parent (if child ∈ children then children else children ++ [child]) }
  else .error (.typeError "unhashable type")

/-- One key of an annotation: the first write, or one with a higher lamport. -/
def annotateKey (lamport : Int) (annotations : Table String Annotation) (entry : String × Json) :
    Table String Annotation :=
  match annotations.get? entry.1 with
  | none => annotations.upsert entry.1 ⟨entry.2, lamport⟩
  | some old => if lamport > old.lamport then annotations.upsert entry.1 ⟨entry.2, lamport⟩ else annotations

def annotate (doc : CRDTDocument) (op : PlanOp) : CRDTDocument :=
  let annotations := (doc.annotations.get? op.taskId).getD .empty
  let updated := op.payload.entries.foldl (annotateKey op.lamport) annotations
  { doc with annotations := doc.annotations.upsert op.taskId updated }

/-- `_apply_to_state`: it raises before it changes anything. -/
def applyToState (doc : CRDTDocument) (op : PlanOp) : Except PlanError CRDTDocument :=
  match op.opType with
  | .addTask => .ok (addTask doc op)
  | .state => setState doc op
  | .link => addLink doc op
  | .annotate => .ok (annotate doc op)
  | .requires | .produces => .ok doc

/-- `append_op`: what it raises, if anything, and the store it leaves. -/
def appendOp (op : PlanOp) (store : AutomergePlanStore) : Except PlanError Unit × AutomergePlanStore :=
  if op.opId ∈ store.opIds then (.ok (), store)
  else
    let doc := { store.doc with ops := store.doc.ops ++ [op.toDict], version := store.doc.version + 1 }
    let opIds := store.opIds ++ [op.opId]
    match applyToState doc op with
    | .ok doc' => (.ok (), ⟨doc', opIds⟩)
    | .error e => (.error e, ⟨doc, opIds⟩)

/-- The loop of `_rebuild_state_from_ops`. -/
def replayOps : List OpDict → CRDTDocument → Except PlanError Unit × CRDTDocument
  | [], doc => (.ok (), doc)
  | d :: rest, doc =>
    match d.toOp.bind (applyToState doc) with
    | .ok doc' => replayOps rest doc'
    | .error e => (.error e, doc)

def rebuildStateFromOps (doc : CRDTDocument) : Except PlanError Unit × CRDTDocument :=
  replayOps doc.ops { doc with tasks := .empty, edges := .empty, annotations := .empty }

/-- `get_save_data`, as the document that `json.loads` gives back. -/
def getSaveData (store : AutomergePlanStore) : CRDTDocument := store.doc

/-- `load_from_data`. -/
def loadFromData (data : CRDTDocument) (store : AutomergePlanStore) : Except PlanError Unit × AutomergePlanStore :=
  match data.ops.mapM fun d => field "op_id" d.opId with
  | .ok ids => (.ok (), ⟨data, ids⟩)
  | .error e => (.error e, ⟨data, store.opIds⟩)

/-- The peer's operations whose id is not known here. -/
def newOps (opIds : List String) (ops : List OpDict) : List OpDict :=
  ops.filter fun d => ¬ d.opId.getD "" ∈ opIds

/-- The sort by `op["lamport"]`. -/
def sortByLamport (ops : List OpDict) : Except PlanError (List OpDict) := do
  let _ ← ops.mapM fun d => field "lamport" d.lamport
  .ok (sortOn (fun d => d.lamport.getD 0) ops)

/-- `merge_with_peer`. -/
def mergeWithPeer (peer : CRDTDocument) (store : AutomergePlanStore) : Except PlanError Unit × AutomergePlanStore :=
  match peer.ops.mapM fun d => field "op_id" d.opId with
  | .error e => (.error e, store)
  | .ok _ =>
    let new := newOps store.opIds peer.ops
    let opIds := store.opIds ++ new.map fun d => d.opId.getD ""
    let doc := { store.doc with ops := store.doc.ops ++ new }
    match sortByLamport doc.ops with
    | .error e => (.error e, ⟨doc, opIds⟩)
    | .ok sorted =>
      match rebuildStateFromOps { doc with ops := sorted } with
      | (.error e, doc') => (.error e, ⟨doc', opIds⟩)
      | (.ok _, doc') => (.ok (), ⟨{ doc' with version := doc'.version + 1 }, opIds⟩)

def getEdges (parentId : Json) (store : AutomergePlanStore) : List Json := (store.doc.edges.get? parentId).getD []

end AutomergePlanStore

end AgentNetwork.Plan
