import AgentNetwork.Library.JsonWriter
import AgentNetwork.Library.ListSet
import AgentNetwork.Library.Awaiting
import AgentNetwork.Library.PythonNumber
import AgentNetwork.Library.PythonText
import AgentNetwork.Library.Table

namespace AgentNetwork.Checkpoint

open Relational

/-- An operation of the log: a dictionary whose `op_id`, where it has one, is a text. -/
structure Op where
  fields : List (String × Json)
  wellFormed : Json.wellFormed (.obj fields) = true
  named : (match fields.lookup "op_id" with | none | some (.str _) => true | _ => false) = true
  deriving DecidableEq

namespace Op

def data (op : Op) : Json := .obj op.fields

def opId (op : Op) : Option String :=
  match op.fields.lookup "op_id" with
  | some (.str id) => some id
  | _ => none

/-- `op.get("epoch", 0)`. -/
def epoch (op : Op) : Json := (op.fields.lookup "epoch").getD (.int 0)

theorem fields_ne_nil {op : Op} {id : String} (h : op.opId = some id) : op.fields ≠ [] := by
  intro hnil
  simp [opId, hnil] at h

end Op

structure PruningPolicy where
  keepEpochs : Int
  deriving DecidableEq

def PruningPolicy.getPruningThreshold (policy : PruningPolicy) (currentEpoch : Int) : Int :=
  currentEpoch - policy.keepEpochs

/-- The hot tier in memory, the index of the cold tier and the texts of its files. -/
structure TieredStorage where
  hotTier : Table String Op
  coldIndex : ListSet String
  coldFiles : Table (String × String) String
  deriving DecidableEq

/-- The shard of an operation and the name of its file there. -/
def coldPath (opId : String) : String × String :=
  (if 2 ≤ opId.length then String.ofList (opId.toList.take 2) else "00", opId ++ ".json")

theorem coldPath_injective : Function.Injective coldPath := by
  intro a b h
  have hnames := congrArg String.toList (congrArg Prod.snd h)
  simp only [coldPath, String.toList_append] at hnames
  exact String.toList_inj.mp (List.append_cancel_right hnames)

namespace TieredStorage

def getFromHot (s : TieredStorage) (opId : String) : Option Op := s.hotTier.get? opId

/-- A file that is not there or cannot be parsed gives `None`, and so does one that holds `null`. -/
def readFromCold (s : TieredStorage) (opId : String) : Option Json :=
  (s.coldFiles.get? (coldPath opId)).bind fun text => (Json.loads text).filter (· ≠ .null)

def getOp (s : TieredStorage) (opId : String) : Option Json :=
  match (s.getFromHot opId).filter (·.fields ≠ []) with
  | some op => some op.data
  | none => if opId ∈ s.coldIndex then s.readFromCold opId else none

section Moving

-- `succeeds` says which writes the disk lets through; one that fails leaves no file.
variable (succeeds : String → Bool)

def writeToCold (s : TieredStorage) (opId : String) (op : Op) : Bool × TieredStorage :=
  if succeeds opId then
    (true, { s with coldFiles := s.coldFiles.upsert (coldPath opId) (Json.write Json.defaultStyle op.data) })
  else (false, { s with coldFiles := s.coldFiles.erase (coldPath opId) })

/-- One round of the loop of `move_to_cold`, and whether it counts. -/
def moveOp (s : TieredStorage) (op : Op) : Bool × TieredStorage :=
  match op.opId.filter (· ≠ "") with
  | none => (false, s)
  | some opId =>
    match s.writeToCold succeeds opId op with
    | (true, s) => (true, { s with hotTier := s.hotTier.erase opId, coldIndex := s.coldIndex.add opId })
    | (false, s) => (false, s)

def moveToCold (s : TieredStorage) : List Op → Nat × TieredStorage
  | [] => (0, s)
  | op :: rest =>
    let (counts, s) := s.moveOp succeeds op
    let (moved, s) := s.moveToCold rest
    (moved + counts.toNat, s)

end Moving

def pruneFromHot (s : TieredStorage) : List (Option String) → Nat × TieredStorage
  | [] => (0, s)
  | opId :: rest =>
    match opId.filter s.hotTier.contains with
    | none => s.pruneFromHot rest
    | some opId =>
      let (pruned, s) := { s with hotTier := s.hotTier.erase opId }.pruneFromHot rest
      (pruned + 1, s)

end TieredStorage

/-- `op_epoch < threshold_epoch`. -/
def isBefore (threshold : Int) (op : Op) : Except Python.TypeError Bool :=
  match Python.Number.ofJson? op.epoch with
  | some epoch => .ok (epoch.lt (.finite threshold))
  | none => .error ⟨"'<' not supported between instances of '" ++ Python.typeName op.epoch ++ "' and 'int'"⟩

/-- The operations for the cold tier, and how many stay. -/
def selectOps (threshold : Int) : List Op → Except Python.TypeError (List Op × Nat)
  | [] => .ok ([], 0)
  | op :: rest => do
    let old ← isBefore threshold op
    let (toCold, kept) ← selectOps threshold rest
    return if old then (op :: toCold, kept) else (toCold, kept + 1)

structure PruningManager where
  policy : PruningPolicy
  storage : TieredStorage
  deriving DecidableEq

namespace PruningManager

def pruneBeforeEpoch (m : PruningManager) (succeeds : String → Bool) (ops : List Op) (currentEpoch : Int) :
    Except Python.TypeError (Nat × Nat) × PruningManager :=
  match selectOps (m.policy.getPruningThreshold currentEpoch) ops with
  | .error error => (.error error, m)
  | .ok (toCold, kept) =>
    let (moved, storage) := m.storage.moveToCold succeeds toCold
    -- by position: the first `moved` of the list, whichever of them were moved
    let storage := if 0 < moved then (storage.pruneFromHot ((toCold.map Op.opId).take moved)).2 else storage
    (.ok (moved, kept), { m with storage := storage })

end PruningManager

end AgentNetwork.Checkpoint
