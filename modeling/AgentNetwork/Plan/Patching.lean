import AgentNetwork.Library.DepthFirst
import AgentNetwork.Library.ListSet
import AgentNetwork.Library.StableSort
import AgentNetwork.Plan.Operations
import Mathlib.Data.Prod.Lex
import Mathlib.Data.String.Basic

namespace AgentNetwork.Plan

open Relational StableSort DepthFirst

/-- An operation of a patch: a dictionary, in which a key may be missing. -/
structure OpData where
  opType : Option String
  taskId : Option String
  payload : Option (Table String Json)
  deriving DecidableEq

/-- `op_data.get("payload", {})`. -/
def OpData.getPayload (op : OpData) : Table String Json := op.payload.getD .empty

/-- A set of operations to apply to the plan. -/
structure PlanPatch where
  patchId : String
  actorId : String
  baseLamport : Int
  ops : List OpData
  timestampNs : Int
  deriving DecidableEq

/-- What is wrong with the operation of this index, if anything. -/
def validateOp (idx : Nat) (op : OpData) : Option String :=
  let opType := op.opType.getD ""
  if opType = "" then some s!"Op {idx}: Missing op_type"
  else if op.taskId.getD "" = "" then some s!"Op {idx}: Missing task_id"
  else
    match OpType.ofValue opType with
    | .error _ => some s!"Op {idx}: Invalid op_type '{opType}'"
    | .ok .state =>
      if op.getPayload.contains "state" then none else some s!"Op {idx}: STATE op missing 'state' in payload"
    | .ok .link =>
      if op.getPayload.contains "parent" ∧ op.getPayload.contains "child" then none
      else some s!"Op {idx}: LINK op missing 'parent' or 'child' in payload"
    | .ok _ => none

def validatePatch (patch : PlanPatch) : Bool × Option String :=
  if patch.patchId = "" then (false, some "Missing patch_id")
  else if patch.actorId = "" then (false, some "Missing actor_id")
  else if patch.baseLamport < 0 then (false, some "Invalid base_lamport (must be >= 0)")
  else if patch.ops = [] then (false, some "Empty ops list")
  else
    match patch.ops.zipIdx.findSome? fun (op, idx) => validateOp idx op with
    | some error => (false, some error)
    | none => (true, none)

/-- The exceptions of a merge. -/
inductive PatchError
  | plan (e : PlanError)
  | unhashable (value : Json)
  | outOfFuel
  deriving DecidableEq

/-- `d[key]`. -/
def patchField {α : Type} (key : String) (value : Option α) : Except PatchError α :=
  (field key value).mapError .plan

namespace PatchValidator

/-- The adjacency sets; a set is visited in the order in which it was filled. -/
abbrev Graph := Table Json (ListSet Json)

/-- `graph[parent].add(child)`, with a new set for a new parent. -/
def addEdge (graph : Graph) (edge : Json × Json) : Except PatchError Graph :=
  if edge.1.hashable = false then .error (.unhashable edge.1)
  else if edge.2.hashable = false then .error (.unhashable edge.2)
  else .ok (graph.upsert edge.1 (((graph.get? edge.1).getD .empty).add edge.2))

/-- `graph.get(node, [])`. -/
def neighbors (graph : Graph) (node : Json) : List Json := ((graph.get? node).map ListSet.elems).getD []

/-- The two sets that the search changes. -/
structure Marks where
  visited : List Json
  recStack : List Json

def visitNeighbors (search : Json → Marks → Option (Bool × Marks)) : List Json → Marks → Option (Bool × Marks)
  | [], m => some (false, m)
  | neighbor :: rest, m =>
    if neighbor ∉ m.visited then
      match search neighbor m with
      | some (false, m') => visitNeighbors search rest m'
      | outcome => outcome
    else if neighbor ∈ m.recStack then some (true, m)
    else visitNeighbors search rest m

/-- `has_cycle_from`, to a depth of at most `fuel` calls. -/
def hasCycleFrom (graph : Graph) : Nat → Json → Marks → Option (Bool × Marks)
  | 0, _, _ => none
  | fuel + 1, node, m =>
    match visitNeighbors (hasCycleFrom graph fuel) (neighbors graph node) ⟨node :: m.visited, node :: m.recStack⟩ with
    | some (false, m') => some (false, { m' with recStack := m'.recStack.erase node })
    | outcome => outcome

/-- The loop over the parents, each with a stack of its own. -/
def checkNodes (graph : Graph) (fuel : Nat) : List Json → List Json → Option Bool
  | [], _ => some false
  | node :: rest, visited =>
    if node ∉ visited then
      match hasCycleFrom graph fuel node ⟨visited, []⟩ with
      | none => none
      | some (true, _) => some true
      | some (false, m) => checkNodes graph fuel rest m.visited
    else checkNodes graph fuel rest visited

/-- `_detect_cycle`; no search is deeper than there are ends of edges. -/
def detectCycle (edges : List (Json × Json)) (newEdge : Json × Json) : Except PatchError Bool := do
  let allEdges := edges ++ [newEdge]
  let graph ← allEdges.foldlM addEdge .empty
  match checkNodes graph (2 * allEdges.length) graph.keys [] with
  | some found => .ok found
  | none => .error .outOfFuel

/-- What is kept of an operation: its dictionary, with the patch's lamport and actor. -/
structure Entry where
  op : OpData
  patchLamport : Int
  actor : String
  deriving DecidableEq

structure Merged where
  mergedOps : Table (String × String) Entry
  addTaskOps : Table String Entry
  linkEdges : List (Json × Json)

/-- The first entry stays unless a later one has a higher lamport. -/
def keepHigher {κ : Type} [DecidableEq κ] (ops : Table κ Entry) (key : κ) (entry : Entry) : Table κ Entry :=
  match ops.get? key with
  | none => ops.upsert key entry
  | some old => if entry.patchLamport > old.patchLamport then ops.upsert key entry else ops

/-- The LINK branch. -/
def mergeLink (key : String × String) (entry : Entry) (m : Merged) : Except PatchError Merged := do
  let payload ← patchField "payload" entry.op.payload
  let parent ← patchField "parent" (payload.get? "parent")
  let child ← patchField "child" (payload.get? "child")
  let cycle ← detectCycle m.linkEdges (parent, child)
  if cycle then .ok m
  else .ok { m with linkEdges := m.linkEdges ++ [(parent, child)], mergedOps := m.mergedOps.upsert key entry }

/-- One round of the loop over the operations of the sorted patches. -/
def mergeOp (m : Merged) (source : PlanPatch × OpData) : Except PatchError Merged := do
  let (patch, op) := source
  let opType ← patchField "op_type" op.opType
  let taskId ← patchField "task_id" op.taskId
  let entry : Entry := ⟨op, patch.baseLamport, patch.actorId⟩
  if opType = "ADD_TASK" then .ok { m with addTaskOps := keepHigher m.addTaskOps taskId entry }
  else if opType = "STATE" then .ok { m with mergedOps := keepHigher m.mergedOps (taskId, opType) entry }
  else if opType = "LINK" then mergeLink (taskId, opType) entry m
  else .ok { m with mergedOps := m.mergedOps.upsert (taskId, opType) entry }

/-- The `PlanOp`s made of the entries; `uuid4` gives the ids. -/
def toOps (uuid4 : Nat → String) (count : Nat) (lamport : Int) :
    List (String × String × Entry) → Except PatchError (List PlanOp)
  | [] => .ok []
  | (taskId, opType, entry) :: rest => do
    let type ← (OpType.ofValue opType).mapError .plan
    let ops ← toOps uuid4 (count + 1) (lamport + 1) rest
    .ok (⟨uuid4 count, "merged", lamport, entry.actor, type, taskId, entry.op.getPayload, 0⟩ :: ops)

/-- The tasks first, then the other operations. -/
def entries (m : Merged) : List (String × String × Entry) :=
  m.addTaskOps.entries.map (fun e => (e.1, e.2.op.opType.getD "", e.2)) ++
    (m.mergedOps.entries.filter fun e => e.1.2 ≠ "ADD_TASK").map fun e => (e.1.1, e.1.2, e.2)

def sortKey (patch : PlanPatch) : ℤ ×ₗ String := toLex (patch.baseLamport, patch.actorId)

/-- The operations in the order in which the merge goes over them. -/
def sequence (patches : List PlanPatch) : List (PlanPatch × OpData) :=
  (sortOn sortKey patches).flatMap fun patch => patch.ops.map fun op => (patch, op)

/-- `max(p.base_lamport for p in patches)`. -/
def maxLamport : List PlanPatch → Int
  | [] => 0
  | patch :: rest => rest.foldl (fun lamport p => max lamport p.baseLamport) patch.baseLamport

def mergePatches (uuid4 : Nat → String) (patches : List PlanPatch) : Except PatchError (List PlanOp) :=
  if patches = [] then .ok []
  else do
    let m ← (sequence patches).foldlM mergeOp ⟨.empty, .empty, []⟩
    toOps uuid4 0 (maxLamport patches + 1) (entries m)

end PatchValidator

end AgentNetwork.Plan
