import AgentNetwork.Checkpoint.Latest
import AgentNetwork.Library.Program
import Mathlib.Order.Bounds.Basic

/-! Fast sync: a node starts from the checkpoint taken for the latest and asks for the operations after it. -/

namespace AgentNetwork.Checkpoints

open Relational

/-- A manager with the checkpoints it has in its cache by epoch. -/
structure CachingManager where
  manager : CheckpointManager
  checkpoints : Table Json SignedCheckpoint

/-- An operation, a dictionary. -/
abbrev SyncOp := List (String × Json)

/-- `op.get("epoch", 0)`. -/
def opEpoch (op : SyncOp) : Json := (op.lookup "epoch").getD (.int 0)

/-- `op.get("lamport", 0)`. -/
def opLamport (op : SyncOp) : Json := (op.lookup "lamport").getD (.int 0)

/-- `a <= b`, where `b` may be a key of a dictionary. -/
def atMost (a b : Json) : Except Python.Exn Bool :=
  match a, b with
  | .str s, .str t => .ok (s ≤ t)
  | a, b =>
    match Python.Number.ofJson? a, Python.Number.ofJson? b with
    | some m, some n => .ok (m.le n)
    | _, _ =>
      .error (.typeError s!"'<=' not supported between instances of '{Python.typeName a}' and '{Python.typeName b}'")

/-- The loop over the epochs: whether none is at most that of the checkpoint. -/
def allAfter (checkpointEpoch : Json) : List SyncOp → Except Python.Exn Bool
  | [] => .ok true
  | op :: rest => do
    if ← atMost (opEpoch op) checkpointEpoch then .ok false
    else allAfter checkpointEpoch rest

def verifyContinuity (checkpoint : SignedCheckpoint) (ops : List SyncOp) : Except Python.Exn Bool := do
  if ops = [] then .ok true
  else if ← allAfter checkpoint.checkpoint.epoch ops then
    let lamports := ops.map opLamport
    let sorted ← Python.sortValues lamports
    .ok (Python.sameValues lamports sorted)
  else .ok false

def syncOpsAfterEpoch (epoch : Json) (opSource : Option (Json → List SyncOp)) : List SyncOp :=
  match opSource with
  | some source => source epoch
  | none => []

/-- The state in the data; `none` for every exception on the way. -/
def applyCheckpoint (data : List UInt8) : Option Json := do
  let text ← Python.decodeUtf8 data
  let checkpointDict ← Json.loads text
  let checkpoint ← SignedCheckpoint.fromDict checkpointDict
  some checkpoint.checkpoint.stateSummary

structure SyncResult where
  checkpointEpoch : Json
  checkpointOps : Json
  newOps : Nat
  state : Json

variable (isPrintable : Char → Bool) (zstd : Zstd)

namespace CachingManager

/-- The cache takes what was loaded. -/
def remember (m : CachingManager) (loaded : Option SignedCheckpoint) : Option SignedCheckpoint × CachingManager :=
  match loaded with
  | some signed => (some signed, { m with checkpoints := m.checkpoints.upsert signed.checkpoint.epoch signed })
  | none => (none, m)

def getCheckpoint (m : CachingManager) (epoch : Json) : Option SignedCheckpoint × CachingManager :=
  match m.checkpoints.get? epoch with
  | some signed => (some signed, m)
  | none => m.remember (m.manager.loadCheckpoint zstd (getCheckpointPath isPrintable epoch))

def getLatestCheckpoint (m : CachingManager) : Option SignedCheckpoint × CachingManager :=
  m.remember (m.manager.getLatestCheckpoint zstd)

/-- The bytes of the checkpoint, and the manager after the lookup. -/
def downloadCheckpoint (m : CachingManager) (checkpointId : Json) : Option (List UInt8) × CachingManager :=
  let (checkpoint, m) := m.getCheckpoint isPrintable zstd checkpointId
  (checkpoint.map fun signed => Python.encodeUtf8 (signed.toDict.write Json.defaultStyle), m)

/-- `fast_sync_node`; the target epoch is not used. -/
def fastSyncNode (m : CachingManager) (_targetEpoch : Option Int) (opSource : Option (Json → List SyncOp)) :
    Except Python.Exn (Option SyncResult) × CachingManager :=
  let (latest, m) := m.getLatestCheckpoint zstd
  match latest with
  | none => (.ok none, m)
  | some checkpoint =>
    let (data, m) := m.downloadCheckpoint isPrintable zstd checkpoint.checkpoint.epoch
    match data.filter (· ≠ []) with
    | none => (.ok none, m)
    | some checkpointData =>
      match (applyCheckpoint checkpointData).filter Python.truthy with
      | none => (.ok none, m)
      | some state =>
        let ops := syncOpsAfterEpoch checkpoint.checkpoint.epoch opSource
        let result := do
          if ← verifyContinuity checkpoint ops then
            .ok (some ⟨checkpoint.checkpoint.epoch, checkpoint.checkpoint.opCount, ops.length, state⟩)
          else .ok none
        (result, m)

/-- The operations that a sync gets from the source. -/
def syncedOps (m : CachingManager) (opSource : Option (Json → List SyncOp)) : List SyncOp :=
  match (m.getLatestCheckpoint zstd).1 with
  | some checkpoint => syncOpsAfterEpoch checkpoint.checkpoint.epoch opSource
  | none => []

end CachingManager

/-- Each operation has the lamport that follows that of the one before it. -/
def Consecutive (ops : List SyncOp) : Prop :=
  ops.IsChain fun a b => ∃ n : Int, Python.Number.ofJson? (opLamport a) = some (.finite n) ∧
    Python.Number.ofJson? (opLamport b) = some (.finite (n + 1 : Int))

/-- Whether the epoch of the operation is a number above the epoch. -/
def isAbove (epoch : Nat) (op : SyncOp) : Bool :=
  ((Python.Number.ofJson? (opEpoch op)).map fun m => Python.Number.lt (.finite epoch) m).getD false

/-- Whether the epoch of the operation is a number that is not at most the epoch: above
it, or the value that is no number. -/
def isAfter (epoch : Nat) (op : SyncOp) : Bool :=
  ((Python.Number.ofJson? (opEpoch op)).map fun m => !m.le (.finite epoch)).getD false

/-- The lamports are as `sorted` has them. -/
def InOrder (ops : List SyncOp) : Prop := Python.Ascending (ops.map opLamport)

theorem isAfter_of_isAbove {epoch : Nat} {op : SyncOp} (h : isAbove epoch op = true) : isAfter epoch op = true := by
  unfold isAbove at h
  unfold isAfter
  cases hnumber : Python.Number.ofJson? (opEpoch op) with
  | none =>
    rw [hnumber] at h
    cases h
  | some m =>
    rw [hnumber] at h
    have hlt : Python.Number.lt (.finite epoch) m = true := h
    cases m <;> simp_all [Python.Number.lt]

theorem Consecutive.inOrder {ops : List SyncOp} (h : Consecutive ops) : InOrder ops := by
  refine (List.isChain_map opLamport).mpr (h.imp fun a b hab => ?_)
  obtain ⟨n, ha, hb⟩ := hab
  rw [Python.Comparison.compare_numbers .less hb ha]
  simp [Python.Comparison.numbers, Python.Number.lt, Python.Number.le]

theorem allAfter_iff {epoch : Nat} {ops : List SyncOp} :
    allAfter (.int epoch) ops = .ok true ↔ ∀ op ∈ ops, isAfter epoch op = true := by
  induction ops with
  | nil => simp [allAfter]
  | cons op rest ih =>
    have hop : isAfter epoch op = true ↔ atMost (opEpoch op) (.int epoch) = .ok false := by
      unfold isAfter
      cases hvalue : opEpoch op <;> simp [atMost, Python.Number.ofJson?]
    unfold allAfter
    rw [List.forall_mem_cons, ← ih, hop]
    cases atMost (opEpoch op) (.int epoch) with
    | error e => simp [bind, Except.bind]
    | ok least => cases least <;> simp [bind, Except.bind]

theorem verifyContinuity_iff {checkpoint : SignedCheckpoint} {epoch : Nat} {ops : List SyncOp}
    (hepoch : checkpoint.checkpoint.epoch = .int epoch) :
    verifyContinuity checkpoint ops = .ok true ↔ (∀ op ∈ ops, isAfter epoch op = true) ∧ InOrder ops := by
  unfold verifyContinuity
  by_cases hnil : ops = []
  · simp [hnil, InOrder, Python.Ascending]
  rw [if_neg hnil, hepoch, Transactional.except_bind_ok, ← allAfter_iff]
  constructor
  · rintro ⟨after, hafter, hsorts⟩
    cases after with
    | false => simp at hsorts
    | true =>
      rw [if_pos rfl, Transactional.except_bind_ok] at hsorts
      obtain ⟨sorted, hsorted, hsame⟩ := hsorts
      exact ⟨hafter, (Python.ascending_of_sortValues hsorted (Except.ok.inj hsame)).2⟩
  · rintro ⟨hafter, horder⟩
    refine ⟨true, hafter, ?_⟩
    rw [if_pos rfl, Transactional.except_bind_ok]
    exact ⟨_, horder.sortValues, congrArg Except.ok (Python.sameValues_self _)⟩

variable {isPrintable zstd}

theorem applyCheckpoint_write {signed : SignedCheckpoint} (h : signed.toDict.wellFormed = true) :
    applyCheckpoint (Python.encodeUtf8 (signed.toDict.write Json.defaultStyle)) = some signed.checkpoint.stateSummary := by
  have hloads : Json.loads (signed.toDict.write Json.defaultStyle) = some signed.toDict :=
    Json.loads_write rfl Json.defaultStyle_readable _ h
  simp only [applyCheckpoint, Python.decodeUtf8_encodeUtf8, Option.bind_eq_bind, Option.bind_some, hloads,
    SignedCheckpoint.fromDict_toDict]

theorem wellFormed_reloaded {m : CheckpointManager} {signed : SignedCheckpoint} (h : signed.Storable) :
    (signed.setState (m.reloadedState zstd signed.checkpoint.stateSummary)).toDict.wellFormed = true := by
  obtain ⟨hstate, hrest⟩ := signed.wellFormed_toDict_iff.mp h.wellFormed
  refine (signed.setState _).wellFormed_toDict_iff.mpr ⟨?_, hrest⟩
  rw [SignedCheckpoint.setState_stateSummary, CheckpointManager.reloadedState]
  split
  next =>
    split
    next => exact Json.wellFormed_sorted _ hstate
    next => rfl
  next => exact hstate

/-- Only an empty state that was not compressed comes back as one that is not true. -/
theorem truthy_reloadedState {m : CheckpointManager} {signed : SignedCheckpoint} (h : signed.Storable) :
    Python.truthy (m.reloadedState zstd signed.checkpoint.stateSummary) = true ↔
      (signed.checkpoint.stateSummary = .obj [] → m.enableCompression = true) := by
  obtain ⟨fields, hfields⟩ := h.state
  rw [hfields, CheckpointManager.reloadedState]
  by_cases hon : m.enableCompression = true
  · rw [if_pos hon]
    split
    next htruthy => simp [htruthy, hon]
    next => simp [compressedMarker, Python.truthy, hon]
  · rw [if_neg hon]
    cases fields <;> simp [Python.truthy, hon]

/-- The sync, once the checkpoint is loaded: it is in the cache when it is asked for again. -/
theorem CachingManager.fastSyncNode_eq {m : CachingManager} {loaded : SignedCheckpoint}
    (hlatest : m.manager.getLatestCheckpoint zstd = some loaded) (hwell : loaded.toDict.wellFormed = true)
    (targetEpoch : Option Int) (opSource : Option (Json → List SyncOp)) :
    (m.fastSyncNode isPrintable zstd targetEpoch opSource).1 =
      if Python.truthy loaded.checkpoint.stateSummary then do
        if ← verifyContinuity loaded (m.syncedOps zstd opSource) then
          .ok (some ⟨loaded.checkpoint.epoch, loaded.checkpoint.opCount, (m.syncedOps zstd opSource).length,
            loaded.checkpoint.stateSummary⟩)
        else .ok none
      else .ok none := by
  have htaken : m.getLatestCheckpoint zstd =
      (some loaded, { m with checkpoints := m.checkpoints.upsert loaded.checkpoint.epoch loaded }) := by
    rw [getLatestCheckpoint, hlatest, remember]
  have hops : m.syncedOps zstd opSource = syncOpsAfterEpoch loaded.checkpoint.epoch opSource := by
    rw [syncedOps, htaken]
  have hbytes : Python.encodeUtf8 (loaded.toDict.write Json.defaultStyle) ≠ [] := by
    intro hnil
    have happly := applyCheckpoint_write hwell
    rw [hnil] at happly
    cases happly
  rw [hops]
  unfold fastSyncNode
  simp only [htaken, downloadCheckpoint, getCheckpoint, Table.get?_upsert, if_true, Option.map_some]
  rw [Option.filter_some_pos (by simpa using hbytes)]
  simp only [applyCheckpoint_write hwell]
  by_cases htruthy : Python.truthy loaded.checkpoint.stateSummary = true
  · rw [Option.filter_some_pos htruthy, if_pos htruthy]
  · rw [Option.filter_some_neg (Bool.eq_false_iff.mpr htruthy), if_neg htruthy]

/-- The epochs that have a checkpoint after the calls. -/
def storedEpochs (calls : List Call) : Set Nat := {epoch | lastStored calls epoch ≠ none}

/-- No stored epoch has a file name that is a greater text. -/
def GreatestName (isPrintable : Char → Bool) (calls : List Call) (epoch : Nat) : Prop :=
  epoch ∈ storedEpochs calls ∧ ∀ other ∈ storedEpochs calls,
    getCheckpointPath isPrintable (.int other) ≤ getCheckpointPath isPrintable (.int epoch)

/-- The checkpoint stored last for the epoch has the empty state. -/
def StoredEmpty (calls : List Call) (epoch : Nat) : Prop :=
  ∃ stored, lastStored calls epoch = some stored ∧ stored.signed.checkpoint.stateSummary = .obj []

/-- The result is that of the checkpoint stored last for the epoch, with the operations counted. -/
structure Restores (calls : List Call) (epoch : Nat) (ops : List SyncOp) (result : SyncResult) : Prop where
  started : result.checkpointEpoch = .int epoch
  state : ∃ stored, lastStored calls epoch = some stored ∧
    result.state.sorted = stored.signed.checkpoint.stateSummary.sorted
  counted : result.newOps = ops.length

/-- The sync starts from the highest epoch when it gets operations without a gap, and
gives no result when it gets others. -/
def SyncsSoundly (isPrintable : Char → Bool) (zstd : Zstd) (m : CachingManager) (calls : List Call) (highest : Nat)
    (targetEpoch : Option Int) (opSource : Option (Json → List SyncOp)) : Prop :=
  let ops := m.syncedOps zstd opSource
  let outcome := (m.fastSyncNode isPrintable zstd targetEpoch opSource).1
  ((ops = [] ∨ Consecutive ops ∧ ∀ op ∈ ops, isAbove highest op = true) →
    ∃ result, outcome = .ok (some result) ∧ Restores calls highest ops result) ∧
  ∀ result, outcome = .ok (some result) → result.newOps = ops.length ∧ Consecutive ops

section Synced

variable {m : CachingManager} {calls : List Call} {named : Nat}

theorem Holds.latest_named (h : Holds zstd m.manager (lastStored calls)) (lossless : zstd.Lossless)
    (hnamed : GreatestName isPrintable calls named) : ∃ stored, lastStored calls named = some stored ∧
      m.manager.getLatestCheckpoint zstd =
        some (stored.signed.setState (m.manager.reloadedState zstd stored.signed.checkpoint.stateSummary)) := by
  obtain ⟨hstored, hgreatest⟩ := hnamed
  simp only [getCheckpointPath_int] at hgreatest
  obtain ⟨last, hlast⟩ := Option.ne_none_iff_exists'.mp hstored
  have hglob : fileName named ∈ m.manager.glob := h.mem_glob.mpr ⟨named, last, hlast, rfl⟩
  rcases h.getLatest lossless with ⟨hempty, -⟩ | ⟨epoch, stored, hkept, hnames, hlatest⟩
  · rw [hempty] at hglob
    exact absurd hglob List.not_mem_nil
  · have hin : epoch ∈ storedEpochs calls := Option.ne_none_iff_exists'.mpr ⟨stored, hkept⟩
    obtain rfl : epoch = named := fileName_injective (String.le_antisymm (hgreatest epoch hin) (hnames _ hglob))
    exact ⟨stored, hkept, hlatest⟩

theorem Holds.syncedOps_named (h : Holds zstd m.manager (lastStored calls)) (lossless : zstd.Lossless)
    (hnamed : GreatestName isPrintable calls named) (opSource : Option (Json → List SyncOp)) :
    m.syncedOps zstd opSource = syncOpsAfterEpoch (.int named) opSource := by
  obtain ⟨stored, hkept, hlatest⟩ := h.latest_named lossless hnamed
  rw [CachingManager.syncedOps, CachingManager.getLatestCheckpoint, hlatest, CachingManager.remember]
  change syncOpsAfterEpoch stored.signed.checkpoint.epoch opSource = _
  rw [stored.numbered, h.numbered named stored hkept]

/-- When the sync gives a result, and which. -/
theorem Holds.fastSyncNode_iff (h : Holds zstd m.manager (lastStored calls)) (lossless : zstd.Lossless)
    (hnamed : GreatestName isPrintable calls named) {stored : EpochCheckpoint} (hkept : lastStored calls named = some stored)
    (targetEpoch : Option Int) (opSource : Option (Json → List SyncOp)) {result : SyncResult} :
    (m.fastSyncNode isPrintable zstd targetEpoch opSource).1 = .ok (some result) ↔
      ((stored.signed.checkpoint.stateSummary = .obj [] → m.manager.enableCompression = true) ∧
        (∀ op ∈ m.syncedOps zstd opSource, isAfter named op = true) ∧ InOrder (m.syncedOps zstd opSource)) ∧
      result = ⟨.int named, stored.signed.checkpoint.opCount, (m.syncedOps zstd opSource).length,
        m.manager.reloadedState zstd stored.signed.checkpoint.stateSummary⟩ := by
  obtain ⟨last, hlast, hlatest⟩ := h.latest_named lossless hnamed
  obtain rfl : last = stored := Option.some.inj (hlast.symm.trans hkept)
  have hepoch : last.signed.checkpoint.epoch = .int named := by rw [last.numbered, h.numbered named last hkept]
  have hwell := @wellFormed_reloaded zstd m.manager _ last.storable
  have hverify := @verifyContinuity_iff
    (last.signed.setState (m.manager.reloadedState zstd last.signed.checkpoint.stateSummary)) named
    (m.syncedOps zstd opSource) hepoch
  rw [CachingManager.fastSyncNode_eq hlatest hwell, SignedCheckpoint.setState_stateSummary,
    ← @truthy_reloadedState zstd m.manager _ last.storable, ← hverify]
  by_cases htruthy : Python.truthy (m.manager.reloadedState zstd last.signed.checkpoint.stateSummary) = true
  · rw [if_pos htruthy, Transactional.except_bind_ok]
    constructor
    · rintro ⟨continues, hcontinues, hresult⟩
      cases continues with
      | false => simp at hresult
      | true =>
        rw [if_pos rfl] at hresult
        cases hresult
        refine ⟨⟨htruthy, hcontinues⟩, ?_⟩
        rw [← hepoch]
        rfl
    · rintro ⟨⟨-, hcontinues⟩, rfl⟩
      refine ⟨true, hcontinues, ?_⟩
      rw [if_pos rfl, ← hepoch]
      rfl
  · rw [if_neg htruthy]
    exact ⟨fun hresult => (Option.some_ne_none _ (Except.ok.inj hresult).symm).elim, fun hresult => absurd hresult.1.1 htruthy⟩

end Synced

theorem exists_greatestName (isPrintable : Char → Bool) {calls : List Call} (h : (storedEpochs calls).Nonempty) :
    ∃ named, GreatestName isPrintable calls named := by
  have hholds := @holds_afterCalls isPrintable CheckpointManager.sampleZstd false 3 calls
  obtain ⟨epoch, hepoch⟩ := h
  obtain ⟨last, hlast⟩ := Option.ne_none_iff_exists'.mp hepoch
  rcases hholds.getLatest CheckpointManager.sampleZstd_lossless with ⟨hempty, -⟩ | ⟨named, stored, hkept, hnames, -⟩
  · have hglob := hholds.mem_glob.mpr ⟨epoch, last, hlast, rfl⟩
    rw [hempty] at hglob
    exact absurd hglob List.not_mem_nil
  · refine ⟨named, Option.ne_none_iff_exists'.mpr ⟨stored, hkept⟩, fun other hother => ?_⟩
    obtain ⟨s, hs⟩ := Option.ne_none_iff_exists'.mp hother
    rw [getCheckpointPath_int, getCheckpointPath_int]
    exact hnames _ (hholds.mem_glob.mpr ⟨other, s, hs, rfl⟩)

/-- With the epoch of the greatest file name: a sync is sound exactly if that is the highest
epoch, with a state that is not empty, when the operations have no gap, and when they have one
the sync stops at their epochs, at their order or at an empty state. -/
theorem syncs_soundly_iff (isPrintable : Char → Bool) (lossless : zstd.Lossless) (enableCompression : Bool)
    (compressionLevel : Int) (calls : List Call) (checkpoints : Table Json SignedCheckpoint) {highest : Nat}
    (hhighest : IsGreatest (storedEpochs calls) highest) (targetEpoch : Option Int)
    (opSource : Option (Json → List SyncOp)) :
    ∃ named, GreatestName isPrintable calls named ∧
      let m := ⟨afterCalls isPrintable zstd enableCompression compressionLevel calls, checkpoints⟩
      let ops := syncOpsAfterEpoch (.int named) opSource
      (SyncsSoundly isPrintable zstd m calls highest targetEpoch opSource ↔
        ((Consecutive ops ∧ ∀ op ∈ ops, isAbove highest op = true) →
          IsGreatest (storedEpochs calls) named ∧ ¬StoredEmpty calls named) ∧
        (Consecutive ops ∨ (∃ op ∈ ops, isAfter named op = false) ∨ ¬InOrder ops ∨
          (enableCompression = false ∧ StoredEmpty calls named))) := by
  obtain ⟨named, hnamed⟩ := exists_greatestName isPrintable ⟨highest, hhighest.1⟩
  refine ⟨named, hnamed, ?_⟩
  intro m ops
  have h : Holds zstd m.manager (lastStored calls) := holds_afterCalls enableCompression compressionLevel calls
  have hconfig : m.manager.enableCompression = enableCompression :=
    afterCalls_enableCompression enableCompression compressionLevel calls
  have hops : m.syncedOps zstd opSource = ops := h.syncedOps_named lossless hnamed opSource
  obtain ⟨stored, hkept, -⟩ := h.latest_named lossless hnamed
  have hrun := @Holds.fastSyncNode_iff _ _ m calls named h lossless hnamed stored hkept targetEpoch opSource
  have hempty : StoredEmpty calls named ↔ stored.signed.checkpoint.stateSummary = .obj [] := by
    constructor
    · rintro ⟨last, hlast, hnil⟩
      obtain rfl : last = stored := Option.some.inj (hlast.symm.trans hkept)
      exact hnil
    · exact fun hnil => ⟨stored, hkept, hnil⟩
  rw [hops, hconfig] at hrun
  unfold SyncsSoundly
  simp only [hops]
  refine and_congr ⟨fun hstarts hready => ?_, fun hcond hready => ?_⟩ ⟨fun hgives => ?_, fun hcond result hresult => ?_⟩
  · -- the result tells which checkpoint was taken
    obtain ⟨result, hresult, hrestores⟩ := hstarts (.inr hready)
    obtain ⟨-, rfl⟩ := hrun.mp hresult
    obtain rfl : named = highest := Int.natCast_inj.mp (Json.int.inj hrestores.started)
    refine ⟨hhighest, fun hnil => ?_⟩
    obtain ⟨last, hlast, hstate⟩ := hrestores.state
    obtain rfl : last = stored := Option.some.inj (hlast.symm.trans hkept)
    obtain ⟨⟨hon, -⟩, -⟩ := hrun.mp hresult
    refine (CheckpointManager.reloadedState_sorted last.storable).mp hstate ⟨?_, hempty.mp hnil⟩
    rw [hconfig]
    exact hon (hempty.mp hnil)
  · have hready : Consecutive ops ∧ ∀ op ∈ ops, isAbove highest op = true := by
      rcases hready with hnil | hready
      · rw [hnil]
        exact ⟨.nil, nofun⟩
      · exact hready
    obtain ⟨hgreatest, hnonempty⟩ := hcond hready
    obtain rfl : named = highest := hgreatest.unique hhighest
    have hstate : stored.signed.checkpoint.stateSummary ≠ .obj [] := fun hnil => hnonempty (hempty.mpr hnil)
    refine ⟨_, hrun.mpr ⟨⟨fun hnil => absurd hnil hstate, fun op hop => isAfter_of_isAbove (hready.2 op hop),
      hready.1.inOrder⟩, rfl⟩, rfl, ⟨stored, hkept, ?_⟩, rfl⟩
    exact (CheckpointManager.reloadedState_sorted stored.storable).mpr fun hnil => hstate hnil.2
  · by_cases hafter : ∀ op ∈ ops, isAfter named op = true
    · by_cases horder : InOrder ops
      · by_cases hon : stored.signed.checkpoint.stateSummary = .obj [] → enableCompression = true
        · exact .inl (hgives _ (hrun.mpr ⟨⟨hon, hafter, horder⟩, rfl⟩)).2
        · obtain ⟨hnil, hoff⟩ := Classical.not_imp.mp hon
          exact .inr (.inr (.inr ⟨Bool.eq_false_iff.mpr hoff, hempty.mpr hnil⟩))
      · exact .inr (.inr (.inl horder))
    · obtain ⟨op, hop, hnot⟩ := not_forall₂.mp hafter
      exact .inr (.inl ⟨op, hop, Bool.eq_false_iff.mpr hnot⟩)
  · obtain ⟨⟨hon, hafter, horder⟩, rfl⟩ := hrun.mp hresult
    refine ⟨rfl, ?_⟩
    rcases hcond with hconsecutive | ⟨op, hop, hnot⟩ | hunordered | ⟨hoff, hnil⟩
    · exact hconsecutive
    · rw [hafter op hop] at hnot
      cases hnot
    · exact absurd horder hunordered
    · rw [hon (hempty.mp hnil)] at hoff
      cases hoff

def taskCheckpoint : EpochCheckpoint where
  signed := ⟨⟨.int 1, .str "00", .obj [("tasks", .int 1)], .int 5, .int 0, .obj []⟩, .arr []⟩
  epoch := 1
  storable := ⟨by decide, ⟨_, rfl⟩, rfl⟩
  numbered := rfl

/-- A source that has lost the operation of lamport 101. -/
def gapSource (_ : Json) : List SyncOp :=
  [[("epoch", .int 2), ("lamport", .int 100)], [("epoch", .int 2), ("lamport", .int 102)]]

def taskManager : CachingManager :=
  ⟨afterCalls (fun _ => true) CheckpointManager.sampleZstd false 3 [.store taskCheckpoint], .empty⟩

theorem storedEpochs_taskCheckpoint : storedEpochs [.store taskCheckpoint] = {1} := by
  ext epoch
  by_cases h : 1 = epoch
  · exact iff_of_true (Option.ne_none_iff_exists'.mpr ⟨taskCheckpoint, if_pos h⟩) h.symm
  · exact iff_of_false (fun hne => hne (if_neg h)) (Ne.symm h)

/-- The sync counts the two operations around the gap. -/
theorem gap_is_admitted : IsGreatest (storedEpochs [.store taskCheckpoint]) 1 ∧
    (taskManager.fastSyncNode (fun _ => true) CheckpointManager.sampleZstd none (some gapSource)).1 =
      .ok (some ⟨.int 1, .int 0, 2, .obj [("tasks", .int 1)]⟩) ∧
    ¬Consecutive (gapSource (.int 1)) ∧
    ¬SyncsSoundly (fun _ => true) CheckpointManager.sampleZstd taskManager [.store taskCheckpoint] 1 none (some gapSource) := by
  have h : Holds CheckpointManager.sampleZstd taskManager.manager (lastStored [.store taskCheckpoint]) :=
    holds_afterCalls false 3 [.store taskCheckpoint]
  have hnamed : GreatestName (fun _ => true) [.store taskCheckpoint] 1 := by
    unfold GreatestName
    rw [storedEpochs_taskCheckpoint]
    refine ⟨rfl, fun other hother => ?_⟩
    rw [Set.mem_singleton_iff.mp hother]
  have hops := h.syncedOps_named CheckpointManager.sampleZstd_lossless hnamed (some gapSource)
  have hgap : ¬Consecutive (gapSource (.int 1)) := by
    intro hconsecutive
    obtain ⟨n, hfirst, hsecond⟩ := (List.isChain_cons_cons.mp hconsecutive).1
    have hn : (n : ℚ) = 100 := by simpa [opLamport, List.lookup_cons, Python.Number.ofJson?] using hfirst.symm
    have hnext : (n : ℚ) + 1 = 102 := by simpa [opLamport, List.lookup_cons, Python.Number.ofJson?] using hsecond.symm
    norm_num [hn] at hnext
  have hresult : (taskManager.fastSyncNode (fun _ => true) CheckpointManager.sampleZstd none (some gapSource)).1 =
      .ok (some ⟨.int 1, .int 0, 2, .obj [("tasks", .int 1)]⟩) := by
    refine (h.fastSyncNode_iff CheckpointManager.sampleZstd_lossless hnamed rfl none _).mpr ⟨⟨?_, ?_, ?_⟩, ?_⟩
    · exact fun hnil => absurd hnil (by decide)
    · rw [hops]
      decide
    · rw [hops]
      unfold InOrder Python.Ascending
      decide
    · rw [hops]
      rfl
  refine ⟨storedEpochs_taskCheckpoint ▸ isGreatest_singleton, hresult, hgap, fun hsound => hgap ?_⟩
  have hconsecutive := (hsound.2 _ hresult).2
  rw [hops] at hconsecutive
  exact hconsecutive

theorem syncs_soundly_iff_task : ∃ named, GreatestName (fun _ => true) [.store taskCheckpoint] named ∧
    let ops := syncOpsAfterEpoch (.int named) (some gapSource)
    (SyncsSoundly (fun _ => true) CheckpointManager.sampleZstd taskManager [.store taskCheckpoint] 1 none (some gapSource) ↔
      ((Consecutive ops ∧ ∀ op ∈ ops, isAbove 1 op = true) →
        IsGreatest (storedEpochs [.store taskCheckpoint]) named ∧ ¬StoredEmpty [.store taskCheckpoint] named) ∧
      (Consecutive ops ∨ (∃ op ∈ ops, isAfter named op = false) ∨ ¬InOrder ops ∨
        (false = false ∧ StoredEmpty [.store taskCheckpoint] named))) :=
  syncs_soundly_iff (fun _ => true) CheckpointManager.sampleZstd_lossless false 3 [.store taskCheckpoint] .empty
    (storedEpochs_taskCheckpoint ▸ isGreatest_singleton) none (some gapSource)

end AgentNetwork.Checkpoints
