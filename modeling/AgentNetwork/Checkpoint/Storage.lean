import AgentNetwork.Checkpoint.Checkpoints
import AgentNetwork.Library.Double
import AgentNetwork.Library.JsonIndent
import AgentNetwork.Library.PythonBytes
import AgentNetwork.Library.PythonValues
import AgentNetwork.Library.Table

/-! Signed checkpoints in files, with the state compressed or not, and the compression of threads. -/

namespace AgentNetwork.Checkpoints

open Relational

structure SignedCheckpoint where
  checkpoint : Checkpoint
  signatures : Json
  deriving DecidableEq

/-- `data[key]`; `none` where it raises. -/
def field? (data : Json) (key : String) : Option Json :=
  match data with
  | .obj fields => fields.lookup key
  | _ => none

/-- `data["checkpoint"]["state_summary"] = state`. -/
def withState (data state : Json) : Json :=
  match data, field? data "checkpoint" with
  | .obj fields, some (.obj checkpoint) =>
    .obj (Json.setField fields "checkpoint" (.obj (Json.setField checkpoint "state_summary" state)))
  | _, _ => data

namespace SignedCheckpoint

def toDict (signed : SignedCheckpoint) : Json :=
  .obj [("checkpoint", signed.checkpoint.toDict), ("signatures", signed.signatures)]

def fromDict (data : Json) : Option SignedCheckpoint := do
  let checkpoint ← Checkpoint.fromDict (← field? data "checkpoint")
  some ⟨checkpoint, (field? data "signatures").getD (.arr [])⟩

end SignedCheckpoint

/-- Compression of bytes at a level, and decompression, `none` where it raises. -/
structure Zstd where
  compress : Int → List UInt8 → List UInt8
  decompress : List UInt8 → Option (List UInt8)

def Zstd.Lossless (zstd : Zstd) : Prop := ∀ level data, zstd.decompress (zstd.compress level data) = some data

variable (zstd : Zstd)

def compressState (level : Int) (planState : Json) : List UInt8 :=
  zstd.compress level (Python.encodeUtf8 (planState.write Json.canonicalStyle))

def decompressState (data : List UInt8) : Option Json := do
  let decompressed ← zstd.decompress data
  let text ← Python.decodeUtf8 decompressed
  Json.loads text

/-- The directory of a manager by file names. Its cache, which only `get_checkpoint`
reads, is not here, so a fresh manager of the configuration is the same. -/
structure CheckpointManager where
  enableCompression : Bool
  compressionLevel : Int
  files : Table String String
  deriving DecidableEq

def compressedMarker (data : List UInt8) : Json := .obj [("_compressed", .bool true), ("_data", .str (Python.hex data))]

/-- `state.get("_compressed")` of a dictionary, for its truth. -/
def isCompressed : Json → Bool
  | .obj fields => ((fields.lookup "_compressed").map Python.truthy).getD false
  | _ => false

namespace CheckpointManager

def storedDict (m : CheckpointManager) (signed : SignedCheckpoint) : Json :=
  let checkpointDict := signed.toDict
  if m.enableCompression then
    withState checkpointDict (compressedMarker (compressState zstd m.compressionLevel signed.checkpoint.stateSummary))
  else checkpointDict

def storeCheckpoint (m : CheckpointManager) (signed : SignedCheckpoint) (path : String) : CheckpointManager :=
  { m with files := m.files.upsert path (Json.writeIndented 2 (m.storedDict zstd signed)) }

/-- The data with its state decompressed. A decompressed state that is empty is not put back. -/
def restoreState (m : CheckpointManager) (data state : Json) : Option Json :=
  if isCompressed state && m.enableCompression then
    match field? state "_data" with
    | some (.str digits) => do
      let compressedBytes ← Python.fromHex digits
      match (decompressState zstd compressedBytes).filter Python.truthy with
      | some decompressedState => some (withState data decompressedState)
      | none => some data
    | _ => none
  else some data

/-- What is loaded from the text of a file; `none` for every exception on the way. -/
def loadText (m : CheckpointManager) (text : String) : Option SignedCheckpoint := do
  let data ← Json.loads text
  let checkpoint ← field? data "checkpoint"
  let state ← field? checkpoint "state_summary"
  let data ← m.restoreState zstd data state
  let signed ← SignedCheckpoint.fromDict data
  if signed.checkpoint.epoch.hashable then some signed else none

def loadCheckpoint (m : CheckpointManager) (path : String) : Option SignedCheckpoint :=
  (m.files.get? path).bind (m.loadText zstd)

end CheckpointManager

namespace SignedCheckpoint

/-- A checkpoint of JSON values with a dictionary for its state. -/
structure Storable (signed : SignedCheckpoint) : Prop where
  wellFormed : signed.toDict.wellFormed = true
  state : ∃ fields, signed.checkpoint.stateSummary = .obj fields
  epoch : signed.checkpoint.epoch.hashable = true

/-- Equal but for the order of keys. -/
def Same (a b : SignedCheckpoint) : Prop := a.toDict.sorted = b.toDict.sorted

def setState (signed : SignedCheckpoint) (state : Json) : SignedCheckpoint :=
  ⟨{ signed.checkpoint with stateSummary := state }, signed.signatures⟩

theorem setState_stateSummary (signed : SignedCheckpoint) (state : Json) :
    (signed.setState state).checkpoint.stateSummary = state := rfl

theorem withState_toDict (signed : SignedCheckpoint) (state : Json) :
    withState signed.toDict state = (signed.setState state).toDict := by
  simp [withState, field?, toDict, Checkpoint.toDict, setState, Json.setField]

theorem fromDict_toDict (signed : SignedCheckpoint) : fromDict signed.toDict = some signed := by
  simp [fromDict, field?, toDict, Checkpoint.toDict, Checkpoint.fromDict, List.lookup_cons]

theorem state_of_toDict (signed : SignedCheckpoint) :
    (field? signed.toDict "checkpoint").bind (field? · "state_summary") = some signed.checkpoint.stateSummary := by
  simp [field?, toDict, Checkpoint.toDict, List.lookup_cons]

theorem wellFormed_toDict_iff (signed : SignedCheckpoint) : signed.toDict.wellFormed = true ↔
    signed.checkpoint.stateSummary.wellFormed = true ∧ (signed.setState .null).toDict.wellFormed = true := by
  simp [toDict, Checkpoint.toDict, setState, Json.wellFormed, Json.wellFormedFields]
  tauto

theorem sorted_setState (signed : SignedCheckpoint) {state other : Json} (h : state.sorted = other.sorted) :
    (signed.setState state).toDict.sorted = (signed.setState other).toDict.sorted := by
  simp only [toDict, Checkpoint.toDict, setState, Json.sorted, Json.sortedFields, h]

theorem computeHash_setState (signed : SignedCheckpoint) {state other : Json} (h : state.sorted = other.sorted)
    (sha256 : String → String) :
    (signed.setState state).checkpoint.computeHash sha256 = (signed.setState other).checkpoint.computeHash sha256 := by
  have hsorted : (Json.obj (signed.setState state).checkpoint.canonical).sorted =
      (Json.obj (signed.setState other).checkpoint.canonical).sorted := by
    simp only [Checkpoint.canonical, setState, Json.sorted, Json.sortedFields, h]
  simp only [Checkpoint.computeHash, Checkpoint.canonicalJson, Json.write, Json.sortedStyle, Json.encode_sorted, hsorted]

theorem Same.checkpoint {a b : SignedCheckpoint} (h : a.Same b) :
    a.checkpoint.toDict.sorted = b.checkpoint.toDict.sorted := by
  have hmem := @Json.mem_of_mem_sorted _ _ h ("checkpoint", a.checkpoint.toDict) List.mem_cons_self
  simpa [Json.sortedFields] using hmem

theorem Same.state {a b : SignedCheckpoint} (h : a.Same b) :
    a.checkpoint.stateSummary.sorted = b.checkpoint.stateSummary.sorted := by
  have hmem := @Json.mem_of_mem_sorted _ _ h.checkpoint ("state_summary", a.checkpoint.stateSummary) (by simp)
  simpa [Json.sortedFields] using hmem

theorem Same.epoch {a b : SignedCheckpoint} (h : a.Same b) : a.checkpoint.epoch.sorted = b.checkpoint.epoch.sorted := by
  have hmem := @Json.mem_of_mem_sorted _ _ h.checkpoint ("epoch", a.checkpoint.epoch) (by simp)
  simpa [Json.sortedFields] using hmem

end SignedCheckpoint

namespace CheckpointManager

variable {zstd} {m : CheckpointManager} {signed : SignedCheckpoint}

theorem storedDict_eq (m : CheckpointManager) (signed : SignedCheckpoint) : m.storedDict zstd signed =
    if m.enableCompression then (signed.setState (compressedMarker
      (compressState zstd m.compressionLevel signed.checkpoint.stateSummary))).toDict else signed.toDict := by
  rw [← signed.withState_toDict]
  rfl

theorem decompressState_compressState (lossless : zstd.Lossless) (level : Int) {state : Json} (h : state.wellFormed = true) :
    decompressState zstd (compressState zstd level state) = some state.sorted := by
  have hreadable : (⟨false, ",", ":"⟩ : Json.Style).Readable := Json.compactStyle_readable
  simp only [decompressState, compressState, lossless level, Option.bind_eq_bind, Option.bind_some,
    Python.decodeUtf8_encodeUtf8]
  exact Json.loads_write_sorted hreadable state h

theorem loadText_eq {text : String} (h : Json.loads text = some signed.toDict) : m.loadText zstd text =
    (m.restoreState zstd signed.toDict signed.checkpoint.stateSummary).bind fun data =>
      (SignedCheckpoint.fromDict data).bind fun loaded =>
        if loaded.checkpoint.epoch.hashable then some loaded else none := by
  have hstate := signed.state_of_toDict
  obtain ⟨checkpoint, hcheckpoint, hfield⟩ := Option.bind_eq_some_iff.mp hstate
  simp only [loadText, h, hcheckpoint, hfield, Option.bind_eq_bind, Option.bind_some]

theorem loadText_plain {text : String} (h : Json.loads text = some signed.toDict) (hoff : m.enableCompression = false)
    (hepoch : signed.checkpoint.epoch.hashable = true) : m.loadText zstd text = some signed := by
  rw [loadText_eq h, restoreState, hoff, Bool.and_false]
  simp [SignedCheckpoint.fromDict_toDict, hepoch]

/-- The state that a stored checkpoint comes back with. -/
def reloadedState (zstd : Zstd) (m : CheckpointManager) (state : Json) : Json :=
  if m.enableCompression then
    if Python.truthy state.sorted then state.sorted else compressedMarker (compressState zstd m.compressionLevel state)
  else state

theorem restoreState_compressed (lossless : zstd.Lossless) (hon : m.enableCompression = true) {state : Json}
    (hstate : state.wellFormed = true) : m.restoreState zstd
      (signed.setState (compressedMarker (compressState zstd m.compressionLevel state))).toDict
      (compressedMarker (compressState zstd m.compressionLevel state)) =
    some (signed.setState (m.reloadedState zstd state)).toDict := by
  have hmarked : isCompressed (compressedMarker (compressState zstd m.compressionLevel state)) = true := rfl
  have hdata : field? (compressedMarker (compressState zstd m.compressionLevel state)) "_data" =
      some (.str (Python.hex (compressState zstd m.compressionLevel state))) := by
    simp [field?, compressedMarker, List.lookup_cons]
  simp only [restoreState, hmarked, hon, Bool.and_self, if_true, hdata, Python.fromHex_hex, Option.bind_eq_bind,
    Option.bind_some, decompressState_compressState lossless m.compressionLevel hstate, reloadedState]
  by_cases htruthy : Python.truthy state.sorted = true
  · rw [Option.filter_some_pos htruthy, if_pos htruthy]
    exact congrArg some (SignedCheckpoint.withState_toDict _ _)
  · rw [Option.filter_some_neg (Bool.eq_false_iff.mpr htruthy), if_neg htruthy]

theorem wellFormed_storedDict (h : signed.Storable) : (m.storedDict zstd signed).wellFormed = true := by
  rw [storedDict_eq]
  split
  next => exact (signed.setState _).wellFormed_toDict_iff.mpr ⟨rfl, (signed.wellFormed_toDict_iff.mp h.wellFormed).2⟩
  next => exact h.wellFormed

theorem loadText_stored (lossless : zstd.Lossless) (h : signed.Storable) :
    m.loadText zstd (Json.writeIndented 2 (m.storedDict zstd signed)) =
      some (signed.setState (m.reloadedState zstd signed.checkpoint.stateSummary)) := by
  have hloads : Json.loads (Json.writeIndented 2 (m.storedDict zstd signed)) = some (m.storedDict zstd signed) :=
    Json.loads_writeIndented 2 _ (wellFormed_storedDict h)
  have hwell := (signed.wellFormed_toDict_iff.mp h.wellFormed).1
  have hepoch : signed.checkpoint.epoch.hashable = true := h.epoch
  rw [storedDict_eq] at hloads ⊢
  by_cases hon : m.enableCompression = true
  · rw [if_pos hon] at hloads ⊢
    rw [loadText_eq hloads]
    have hrestore := @restoreState_compressed zstd m signed lossless hon _ hwell
    rw [SignedCheckpoint.setState_stateSummary, hrestore]
    simp only [Option.bind_some, SignedCheckpoint.fromDict_toDict]
    exact if_pos hepoch
  · rw [if_neg hon] at hloads ⊢
    rw [reloadedState, if_neg hon]
    exact loadText_plain hloads (Bool.eq_false_iff.mpr hon) hepoch

theorem reloadedState_sorted (h : signed.Storable) :
    (m.reloadedState zstd signed.checkpoint.stateSummary).sorted = signed.checkpoint.stateSummary.sorted ↔
      ¬(m.enableCompression = true ∧ signed.checkpoint.stateSummary = .obj []) := by
  obtain ⟨fields, hfields⟩ := h.state
  rw [hfields]
  by_cases hon : m.enableCompression = true
  · cases fields with
    | nil =>
      simp [reloadedState, hon, Json.sorted, Json.sortedFields, Json.sortFields, Python.truthy, compressedMarker]
    | cons field rest =>
      have htruthy : Python.truthy (Json.obj (field :: rest)).sorted = true := by
        have hlen : (Json.sortFields (Json.sortedFields (field :: rest))).length = rest.length + 1 := by
          rw [Json.sortFields, List.length_insertionSort, Json.sortedFields_eq_map, List.length_map, List.length_cons]
        have hne : Json.sortFields (Json.sortedFields (field :: rest)) ≠ [] := List.ne_nil_of_length_pos (by omega)
        simpa [Json.sorted, Python.truthy] using hne
      simp [reloadedState, hon, htruthy, Json.sorted_sorted]
  · simp [reloadedState, hon]

theorem loadCheckpoint_storeCheckpoint (lossless : zstd.Lossless) (m : CheckpointManager) (h : signed.Storable) (path : String) :
    (m.storeCheckpoint zstd signed path).loadCheckpoint zstd path =
      some (signed.setState (m.reloadedState zstd signed.checkpoint.stateSummary)) := by
  rw [loadCheckpoint, storeCheckpoint, Table.get?_upsert, if_pos rfl, Option.bind_some]
  exact loadText_stored lossless h

/-- A checkpoint comes back from its file as it was stored, but for an empty state that was compressed. -/
theorem survives_storage_iff (lossless : zstd.Lossless) (m : CheckpointManager) (h : signed.Storable) (path : String) :
    (∃ loaded, (m.storeCheckpoint zstd signed path).loadCheckpoint zstd path = some loaded ∧ loaded.Same signed ∧
      ∀ sha256, loaded.checkpoint.computeHash sha256 = signed.checkpoint.computeHash sha256) ↔
    ¬(m.enableCompression = true ∧ signed.checkpoint.stateSummary = .obj []) := by
  rw [loadCheckpoint_storeCheckpoint lossless m h, ← reloadedState_sorted h]
  constructor
  · rintro ⟨loaded, hsome, hsame, -⟩
    obtain rfl := Option.some.inj hsome
    exact hsame.state
  · intro hstate
    exact ⟨_, rfl, signed.sorted_setState hstate, signed.computeHash_setState hstate⟩

/-- A frame of the text of an empty dictionary. -/
def emptyFrame : List UInt8 :=
  [0x28, 0xb5, 0x2f, 0xfd, 0x24, 0x02, 0x11, 0x00, 0x00, 0x7b, 0x7d, 0xd1, 0x94, 0xf2, 0x7a]

def sampleZstd : Zstd where
  compress _ data := if data = [0x7b, 0x7d] then emptyFrame else 0 :: data
  decompress data :=
    if data = emptyFrame then some [0x7b, 0x7d] else if data.head? = some 0 then some data.tail else none

theorem sampleZstd_lossless : sampleZstd.Lossless := by
  intro level data
  by_cases hempty : data = [0x7b, 0x7d]
  · simp [sampleZstd, hempty]
  · have hframe : (0 :: data) ≠ emptyFrame := by
      intro heq
      exact absurd (List.cons.inj heq).1 (by decide)
    simp [sampleZstd, hempty, hframe]

def emptyState : SignedCheckpoint := ⟨⟨.int 1, .str "00", .obj [], .int 5, .int 0, .obj []⟩, .arr []⟩

theorem emptyState_storable : emptyState.Storable := ⟨rfl, ⟨[], rfl⟩, rfl⟩

def sampleManager : CheckpointManager := ⟨true, 3, .empty⟩

theorem survives_storage_iff_empty :
    (∃ loaded, (sampleManager.storeCheckpoint sampleZstd emptyState "c.json").loadCheckpoint sampleZstd "c.json" =
        some loaded ∧ loaded.Same emptyState ∧
      ∀ sha256, loaded.checkpoint.computeHash sha256 = emptyState.checkpoint.computeHash sha256) ↔
    ¬(sampleManager.enableCompression = true ∧ emptyState.checkpoint.stateSummary = .obj []) :=
  survives_storage_iff sampleZstd_lossless sampleManager emptyState_storable "c.json"

/-- The empty state comes back as the marker of its compression. -/
theorem empty_state_replaced :
    sampleZstd.Lossless ∧ emptyState.Storable ∧
    (sampleManager.storeCheckpoint sampleZstd emptyState "c.json").loadCheckpoint sampleZstd "c.json" =
      some (emptyState.setState (compressedMarker emptyFrame)) ∧
    ¬(emptyState.setState (compressedMarker emptyFrame)).Same emptyState := by
  refine ⟨sampleZstd_lossless, emptyState_storable, ?_, fun hsame => ?_⟩
  · have hbytes : Python.encodeUtf8 ((Json.obj []).write Json.canonicalStyle) = [0x7b, 0x7d] := by decide
    have hstate : sampleManager.reloadedState sampleZstd emptyState.checkpoint.stateSummary = compressedMarker emptyFrame := by
      simp [reloadedState, sampleManager, emptyState, Json.sorted, Json.sortedFields, Json.sortFields, Python.truthy,
        compressState, hbytes, sampleZstd]
    rw [loadCheckpoint_storeCheckpoint sampleZstd_lossless _ emptyState_storable, hstate]
  · exact absurd hsame.state (by decide)

end CheckpointManager

/-- What `compress_thread` returns. -/
structure ThreadSummary where
  opCount : Nat
  threadId : Json
  firstLamport : Json
  lastLamport : Json
  compressedOps : List UInt8
  compressedSize : Nat
  originalSize : Nat
  originalHash : String
  compressionRatio : ℚ

section Threads

variable (sha256 : List UInt8 → String) (level : Int)

/-- `op.get(key)`. -/
def getKey (op : List (String × Json)) (key : String) : Json := (op.lookup key).getD .null

def compressThread (threadOps : List (List (String × Json))) : ThreadSummary :=
  let dataBytes := Python.encodeUtf8 ((Json.arr (threadOps.map .obj)).write Json.canonicalStyle)
  let compressedOps := zstd.compress level dataBytes
  { opCount := threadOps.length
    threadId := (threadOps.head?.map (getKey · "thread_id")).getD .null
    firstLamport := (threadOps.head?.map (getKey · "lamport")).getD (.int 0)
    lastLamport := (threadOps.getLast?.map (getKey · "lamport")).getD (.int 0)
    compressedOps
    compressedSize := compressedOps.length
    originalSize := dataBytes.length
    originalHash := sha256 dataBytes
    compressionRatio := Double.nearest (compressedOps.length / dataBytes.length) }

/-- `decompress_thread` of a summary with the bytes, empty for those that it lacks. A value
without a length, which the log line asks for, is lost. -/
def decompressThread (compressedOps : List UInt8) : Option Json :=
  if compressedOps = [] then none
  else do
    let decompressed ← zstd.decompress compressedOps
    let text ← Python.decodeUtf8 decompressed
    let threadOps ← Json.loads text
    match threadOps with
    | .arr _ | .obj _ | .str _ => some threadOps
    | .null | .bool _ | .int _ | .float _ => none

def verifyCompressed (original decompressed : Json) : Bool :=
  original.write Json.canonicalStyle == decompressed.write Json.canonicalStyle

/-- The items of `range(0, n, step)` for a positive step. -/
def rangeSteps (n step : Nat) : List Nat := (List.range ((n + step - 1) / step)).map (· * step)

/-- `compress_batch`; a negative batch size makes no batches. -/
def compressBatch (items : List (List (String × Json))) (maxBatchSize : Int) : Except String (List (List UInt8)) :=
  if maxBatchSize = 0 then .error "range() arg 3 must not be zero"
  else if maxBatchSize < 0 then .ok []
  else
    let batches := (rangeSteps items.length maxBatchSize.toNat).map fun i => (items.drop i).take maxBatchSize.toNat
    .ok (batches.flatMap fun batch => batch.map fun item => compressState zstd level (.obj item))

end Threads

/-- The operation with its keys in order, at every depth. -/
def sortedOp (op : List (String × Json)) : List (String × Json) := Json.sortFields (Json.sortedFields op)

theorem sorted_ops (threadOps : List (List (String × Json))) :
    (Json.arr (threadOps.map .obj)).sorted = .arr ((threadOps.map sortedOp).map .obj) := by
  rw [Json.sorted]
  refine congrArg Json.arr ?_
  induction threadOps with
  | nil => rfl
  | cons op rest ih =>
    show (Json.obj op).sorted :: Json.sortedItems (rest.map .obj) = _
    rw [ih]
    rfl

theorem getKey_sortedOp {op : List (String × Json)} (h : Json.wellFormedFields op = true) (key : String) :
    getKey (sortedOp op) key = (getKey op key).sorted := by
  have hkeys : (op.map Prod.fst).Nodup := (Json.wellFormedFields_iff.mp h).1
  have hperm : (sortedOp op).Perm (Json.sortedFields op) := Json.perm_sortFields _
  have hnodup : ((sortedOp op).map Prod.fst).Nodup := by
    rw [(hperm.map Prod.fst).nodup_iff, Json.keys_sortedFields]
    exact hkeys
  unfold getKey
  cases hop : op.lookup key with
  | none =>
    have habsent : (sortedOp op).lookup key = none := by
      rw [List.lookup_eq_none_iff] at hop ⊢
      intro field hfield
      have hmem := hperm.mem_iff.mp hfield
      rw [Json.sortedFields_eq_map] at hmem
      obtain ⟨old, hold, rfl⟩ := List.mem_map.mp hmem
      exact hop old hold
    rw [habsent]
    rfl
  | some value =>
    have hmem := (Relational.Table.lookup_eq_some_iff_mem hkeys).mp hop
    have hsorted : (key, value.sorted) ∈ sortedOp op := by
      rw [hperm.mem_iff, Json.sortedFields_eq_map]
      exact List.mem_map.mpr ⟨(key, value), hmem, rfl⟩
    rw [(Relational.Table.lookup_eq_some_iff_mem hnodup).mpr hsorted]
    rfl

theorem compressThread_sortedOp (sha256 : List UInt8 → String) (level : Int) {threadOps : List (List (String × Json))}
    (h : ∀ op ∈ threadOps, Json.wellFormedFields op = true) :
    compressThread zstd sha256 level (threadOps.map sortedOp) =
      { compressThread zstd sha256 level threadOps with
        threadId := (compressThread zstd sha256 level threadOps).threadId.sorted
        firstLamport := (compressThread zstd sha256 level threadOps).firstLamport.sorted
        lastLamport := (compressThread zstd sha256 level threadOps).lastLamport.sorted } := by
  have htext : (Json.arr ((threadOps.map sortedOp).map .obj)).write Json.canonicalStyle =
      (Json.arr (threadOps.map .obj)).write Json.canonicalStyle := by
    rw [← sorted_ops, Json.canonicalStyle, Json.write, Json.write, Json.encode_sorted, Json.sorted_sorted, ← Json.encode_sorted]
  have hkey : ∀ {op? : Option (List (String × Json))} (key : String) {missing : Json}, (∀ op ∈ op?, op ∈ threadOps) →
      missing.sorted = missing → ((op?.map sortedOp).map (getKey · key)).getD missing = ((op?.map (getKey · key)).getD missing).sorted := by
    intro op? key missing hop hmissing
    cases op? with
    | none => exact hmissing.symm
    | some op => exact getKey_sortedOp (h op (hop op rfl)) key
  unfold compressThread
  simp only [htext, List.length_map, List.head?_map, List.getLast?_map, ThreadSummary.mk.injEq, true_and, and_true]
  refine ⟨hkey _ (fun op hop => List.mem_of_mem_head? hop) rfl, hkey _ (fun op hop => List.mem_of_mem_head? hop) rfl, ?_⟩
  exact hkey _ (fun op hop => List.mem_of_mem_getLast? hop) rfl

variable {zstd}

theorem wellFormed_ops {threadOps : List (List (String × Json))} (h : ∀ op ∈ threadOps, Json.wellFormedFields op = true) :
    (Json.arr (threadOps.map .obj)).wellFormed = true := by
  refine Json.wellFormedItems_iff.mpr fun item hitem => ?_
  obtain ⟨op, hop, rfl⟩ := List.mem_map.mp hitem
  exact h op hop

theorem decompressThread_compressThread (lossless : zstd.Lossless) (framed : ∀ level data, zstd.compress level data ≠ [])
    (sha256 : List UInt8 → String) (level : Int) {threadOps : List (List (String × Json))}
    (h : ∀ op ∈ threadOps, Json.wellFormedFields op = true) :
    decompressThread zstd (compressThread zstd sha256 level threadOps).compressedOps =
      some (.arr ((threadOps.map sortedOp).map .obj)) := by
  have hreadable : (⟨false, ",", ":"⟩ : Json.Style).Readable := Json.compactStyle_readable
  have hloads : Json.loads ((Json.arr (threadOps.map .obj)).write Json.canonicalStyle) =
      some (.arr ((threadOps.map sortedOp).map .obj)) := by
    rw [← sorted_ops]
    exact Json.loads_write_sorted hreadable _ (wellFormed_ops h)
  have hframe : (compressThread zstd sha256 level threadOps).compressedOps ≠ [] := framed _ _
  unfold decompressThread
  rw [if_neg hframe]
  simp only [compressThread, lossless level, Option.bind_eq_bind, Option.bind_some, Python.decodeUtf8_encodeUtf8, hloads]

theorem verifyCompressed_iff {original decompressed : Json} (horiginal : original.wellFormed = true)
    (hdecompressed : decompressed.wellFormed = true) :
    verifyCompressed original decompressed = true ↔ original.sorted = decompressed.sorted := by
  have hreadable : (⟨false, ",", ":"⟩ : Json.Style).Readable := Json.compactStyle_readable
  rw [verifyCompressed, beq_iff_eq]
  exact Json.write_sorted_eq_iff hreadable horiginal hdecompressed

/-- A frame of the text of a thread of one empty operation. -/
def threadFrame : List UInt8 :=
  [0x28, 0xb5, 0x2f, 0xfd, 0x24, 0x04, 0x21, 0x00, 0x00, 0x5b, 0x7b, 0x7d, 0x5d, 0x22, 0xd1, 0xcf, 0x10]

def threadZstd : Zstd where
  compress _ data := if data = [0x5b, 0x7b, 0x7d, 0x5d] then threadFrame else 0 :: data
  decompress data :=
    if data = threadFrame then some [0x5b, 0x7b, 0x7d, 0x5d] else if data.head? = some 0 then some data.tail else none

theorem threadZstd_lossless : threadZstd.Lossless := by
  intro level data
  by_cases htext : data = [0x5b, 0x7b, 0x7d, 0x5d]
  · simp [threadZstd, htext]
  · have hframe : (0 :: data) ≠ threadFrame := by
      intro heq
      exact absurd (List.cons.inj heq).1 (by decide)
    simp [threadZstd, htext, hframe]

theorem threadZstd_framed (level : Int) (data : List UInt8) : threadZstd.compress level data ≠ [] := by
  show (if data = [0x5b, 0x7b, 0x7d, 0x5d] then threadFrame else 0 :: data) ≠ []
  split
  · exact List.cons_ne_nil _ _
  · exact List.cons_ne_nil _ _

def threadSha256 (_ : List UInt8) : String := "e10808d43975dc400731053386849f864f297e6c4f7519c380f3dbaf7067a840"

section Batches

variable {α : Type}

theorem flatMap_slices (items : List α) (size count : Nat) :
    (List.range count).flatMap (fun i => (items.drop (i * size)).take size) = items.take (count * size) := by
  induction count with
  | zero => rw [Nat.zero_mul, List.take_zero]; rfl
  | succ count ih =>
    rw [List.range_succ, List.flatMap_append, ih, List.flatMap_singleton, Nat.succ_mul, List.take_add]

/-- The slices of a list at every step are the list. -/
theorem flatMap_rangeSteps (items : List α) {step : Nat} (h : 0 < step) :
    (rangeSteps items.length step).flatMap (fun i => (items.drop i).take step) = items := by
  have hdivide := Nat.div_add_mod' (items.length + step - 1) step
  have hrest := Nat.mod_lt (items.length + step - 1) h
  rw [rangeSteps, List.flatMap_map, flatMap_slices]
  exact List.take_of_length_le (by omega)

end Batches

/-- In batches of any positive size the items are compressed one by one, in order, and come
back with their keys in order; no item is where the size is negative. -/
theorem compress_batch_exact (lossless : zstd.Lossless) (level : Int) {items : List (List (String × Json))}
    (h : ∀ item ∈ items, Json.wellFormedFields item = true) (maxBatchSize : Int) :
    (maxBatchSize = 0 → compressBatch zstd level items maxBatchSize = .error "range() arg 3 must not be zero") ∧
    (maxBatchSize < 0 → compressBatch zstd level items maxBatchSize = .ok []) ∧
    (0 < maxBatchSize → ∃ frames, compressBatch zstd level items maxBatchSize = .ok frames ∧
      frames.map (decompressState zstd) = items.map fun item => some (Json.obj item).sorted) := by
  unfold compressBatch
  refine ⟨fun hzero => if_pos hzero, fun hnegative => ?_, fun hpositive => ?_⟩
  · rw [if_neg (by omega), if_pos hnegative]
  · have hstep : 0 < maxBatchSize.toNat := by omega
    rw [if_neg (by omega), if_neg (by omega)]
    refine ⟨_, rfl, ?_⟩
    rw [List.flatMap_map, ← List.map_flatMap, flatMap_rangeSteps items hstep, List.map_map]
    refine List.map_congr_left fun item hitem => ?_
    exact CheckpointManager.decompressState_compressState lossless level (h item hitem)

theorem compress_batch_exact_empty_item :
    ((1 : Int) = 0 → compressBatch CheckpointManager.sampleZstd 3 [[]] 1 = .error "range() arg 3 must not be zero") ∧
    ((1 : Int) < 0 → compressBatch CheckpointManager.sampleZstd 3 [[]] 1 = .ok []) ∧
    ((0 : Int) < 1 → ∃ frames, compressBatch CheckpointManager.sampleZstd 3 [[]] 1 = .ok frames ∧
      frames.map (decompressState CheckpointManager.sampleZstd) = [[]].map fun item => some (Json.obj item).sorted) :=
  compress_batch_exact CheckpointManager.sampleZstd_lossless 3 (List.forall_mem_singleton.mpr rfl) 1

end AgentNetwork.Checkpoints
