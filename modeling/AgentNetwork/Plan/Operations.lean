import AgentNetwork.Library.Json
import AgentNetwork.Library.Table

namespace AgentNetwork.Plan

open Relational

/-- The exceptions of the plan stores. -/
inductive PlanError
  | keyError (key : String)
  | valueError (message : String)
  | typeError (message : String)
  deriving DecidableEq

inductive OpType
  | addTask
  | requires
  | produces
  | state
  | link
  | annotate
  deriving DecidableEq

def OpType.value : OpType → String
  | .addTask => "ADD_TASK"
  | .requires => "REQUIRES"
  | .produces => "PRODUCES"
  | .state => "STATE"
  | .link => "LINK"
  | .annotate => "ANNOTATE"

/-- `OpType(value)`. -/
def OpType.ofValue (value : String) : Except PlanError OpType :=
  match [OpType.addTask, .requires, .produces, .state, .link, .annotate].find? (·.value = value) with
  | some op => .ok op
  | none => .error (.valueError s!"'{value}' is not a valid OpType")

inductive TaskState
  | draft
  | decided
  | verified
  | final
  deriving DecidableEq

def TaskState.value : TaskState → String
  | .draft => "DRAFT"
  | .decided => "DECIDED"
  | .verified => "VERIFIED"
  | .final => "FINAL"

/-- A single operation in the plan log. -/
structure PlanOp where
  opId : String
  threadId : String
  lamport : Int
  actorId : String
  opType : OpType
  taskId : String
  payload : Table String Json
  timestampNs : Int
  deriving DecidableEq

/-- An operation as the log keeps it: a dictionary, in which a key may be missing. -/
structure OpDict where
  opId : Option String
  threadId : Option String
  lamport : Option Int
  actorId : Option String
  opType : Option String
  taskId : Option String
  payload : Option (Table String Json)
  timestampNs : Option Int
  deriving DecidableEq

/-- `d[key]`. -/
def field {α : Type} (key : String) (value : Option α) : Except PlanError α :=
  match value with
  | some a => .ok a
  | none => .error (.keyError key)

def PlanOp.toDict (op : PlanOp) : OpDict :=
  ⟨op.opId, op.threadId, op.lamport, op.actorId, op.opType.value, op.taskId, op.payload, op.timestampNs⟩

/-- The `PlanOp` built from a dictionary of the log. -/
def OpDict.toOp (d : OpDict) : Except PlanError PlanOp := do
  let opId ← field "op_id" d.opId
  let threadId ← field "thread_id" d.threadId
  let lamport ← field "lamport" d.lamport
  let actorId ← field "actor_id" d.actorId
  let opType ← field "op_type" d.opType
  let opType ← OpType.ofValue opType
  let taskId ← field "task_id" d.taskId
  let payload ← field "payload" d.payload
  let timestampNs ← field "timestamp_ns" d.timestampNs
  .ok ⟨opId, threadId, lamport, actorId, opType, taskId, payload, timestampNs⟩

theorem ofValue_value (t : OpType) : OpType.ofValue t.value = .ok t := by
  cases t <;> rfl

/-- The log gives back the operation that was appended. -/
theorem toOp_toDict (op : PlanOp) : op.toDict.toOp = .ok op := by
  simp [OpDict.toOp, PlanOp.toDict, field, ofValue_value, bind, Except.bind]

end AgentNetwork.Plan
