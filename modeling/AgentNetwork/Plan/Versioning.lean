import AgentNetwork.Library.JsonWriter
import AgentNetwork.Library.PythonText
import AgentNetwork.Plan.PlanStore
import Mathlib.Data.String.Basic

namespace AgentNetwork.Plan

open Relational StableSort

/-- A snapshot of the plan at a lamport. -/
structure PlanVersion where
  versionId : String
  lamport : Int
  merkleRoot : String
  timestampNs : Int
  metadata : Json
  deriving DecidableEq

/-- A row of `plan_versions`. -/
structure VersionRow where
  versionId : String
  lamport : Int
  merkleRoot : String
  timestampNs : Int
  metadataJson : String
  deriving DecidableEq

/-- A row of `plan_snapshots`, but for its key. -/
structure SnapshotRow where
  taskState : String
  taskDataJson : String
  deriving DecidableEq

inductive VersionError
  | sqlError (error : SqlError)
  | attributeError (message : String)
  | typeError (message : String)
  | decodeError (text : String)
  deriving DecidableEq

/-- The tables of the tracker; the snapshots under their version and their task. -/
structure VersionTracker where
  versions : List VersionRow
  snapshots : Table (String × String) SnapshotRow

namespace VersionTracker

def init : VersionTracker := ⟨[], .empty⟩

/-- `_compute_merkle_root`. -/
def computeMerkleRoot (sha256Hex : String → String) (planState : Table String Json) : String :=
  let sortedItems := sortOn Prod.fst planState.entries
  sha256Hex ((Json.arr (sortedItems.map fun (taskId, data) => .arr [.str taskId, data])).write Json.canonicalStyle)

/-- `INSERT OR REPLACE INTO plan_versions`: a row with its id or its lamport gives way. -/
def replaceVersion (row : VersionRow) (tracker : VersionTracker) : VersionTracker :=
  let others := tracker.versions.filter fun other => other.versionId ≠ row.versionId ∧ other.lamport ≠ row.lamport
  { tracker with versions := others ++ [row] }

/-- The snapshot of one task. -/
def insertSnapshot (versionId taskId : String) (taskData : Json) (tracker : VersionTracker) :
    Except VersionError VersionTracker :=
  match taskData with
  | .obj fields =>
    match PlanStore.bindText ((fields.lookup "state").getD (.str "DRAFT")) with
    | .error e => .error (.sqlError e)
    | .ok none => .error (.sqlError (.integrityError "NOT NULL constraint failed: plan_snapshots.task_state"))
    | .ok (some taskState) =>
      let row : SnapshotRow := ⟨taskState, taskData.write Json.defaultStyle⟩
      .ok { tracker with snapshots := tracker.snapshots.upsert (versionId, taskId) row }
  | value => .error (.attributeError ("'" ++ Python.typeName value ++ "' object has no attribute 'get'"))

def insertSnapshots (versionId : String) : List (String × Json) → VersionTracker → Except VersionError VersionTracker
  | [], tracker => .ok tracker
  | (taskId, taskData) :: rest, tracker =>
    match insertSnapshot versionId taskId taskData tracker with
    | .ok tracker => insertSnapshots versionId rest tracker
    | .error e => .error e

/-- `record_version`: one transaction, rolled back when it raises. -/
def recordVersion (sha256Hex : String → String) (planState : Table String Json) (lamport : Int)
    (versionId : Option String) (metadata : Option Json) (uuid4 : String) (timeNs : Int) (tracker : VersionTracker) :
    Except VersionError PlanVersion × VersionTracker :=
  let versionId := versionId.getD uuid4
  let metadata := metadata.getD (.obj [])
  let merkleRoot := computeMerkleRoot sha256Hex planState
  if ¬(PlanStore.fits lamport ∧ PlanStore.fits timeNs) then
    (.error (.sqlError (.overflowError "Python int too large to convert to SQLite INTEGER")), tracker)
  else
    let row : VersionRow := ⟨versionId, lamport, merkleRoot, timeNs, metadata.write Json.defaultStyle⟩
    match insertSnapshots versionId planState.entries (replaceVersion row tracker) with
    | .error e => (.error e, tracker)
    | .ok tracker' => (.ok ⟨versionId, lamport, merkleRoot, timeNs, metadata⟩, tracker')

/-- `json.loads` of a column. -/
def readJson (text : String) : Except VersionError Json :=
  match Json.loads text with
  | some value => .ok value
  | none => .error (.decodeError text)

def getVersionById (versionId : String) (tracker : VersionTracker) : Except VersionError (Option PlanVersion) :=
  match tracker.versions.find? fun row => row.versionId = versionId with
  | none => .ok none
  | some row => do
    let metadata ← if row.metadataJson = "" then .ok (.obj []) else readJson row.metadataJson
    .ok (some ⟨row.versionId, row.lamport, row.merkleRoot, row.timestampNs, metadata⟩)

/-- `get_snapshot_data`. -/
def getSnapshotData (versionId : String) (tracker : VersionTracker) : Except VersionError (List (String × Json)) :=
  (tracker.snapshots.entries.filter fun entry => entry.1.1 = versionId).mapM fun entry => do
    let taskData ← readJson entry.2.taskDataJson
    .ok (entry.1.2, taskData)

end VersionTracker

end AgentNetwork.Plan
