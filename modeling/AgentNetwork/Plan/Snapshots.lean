import AgentNetwork.Library.Program
import AgentNetwork.Library.PythonValues
import AgentNetwork.Plan.Versioning

namespace AgentNetwork.Plan

open Relational StableSort VersionTracker

/-- What `record_version` is given, and the identifier and the time it draws. -/
structure RecordCall where
  planState : Table String Json
  lamport : Int
  versionId : Option String
  metadata : Option Json
  uuid4 : String
  timeNs : Int
  wellFormed : ∀ e ∈ planState.entries, e.2.wellFormed = true

/-- A tracker and the plan states of the versions it has recorded, in order. -/
structure Recordings where
  tracker : VersionTracker
  planStates : List (String × Table String Json)

namespace Recordings

def init : Recordings := ⟨.init, []⟩

/-- A call; one that raises records nothing. -/
def record (sha256Hex : String → String) (r : Recordings) (c : RecordCall) : Recordings :=
  match r.tracker.recordVersion sha256Hex c.planState c.lamport c.versionId c.metadata c.uuid4 c.timeNs with
  | (.ok version, tracker) => ⟨tracker, r.planStates ++ [(version.versionId, c.planState)]⟩
  | (.error _, tracker) => { r with tracker := tracker }

def statesOf (r : Recordings) (versionId : String) : List (Table String Json) :=
  (r.planStates.filter fun s => s.1 = versionId).map Prod.snd

end Recordings

/-- The dictionary that `get_snapshot_data` builds. -/
def snapshotDict (data : List (String × Json)) : Table String Json := data.foldl (fun t e => t.upsert e.1 e.2) .empty

/-- The snapshot of a version is the plan state recorded last under its id, and has its root. -/
def ReadsBack (sha256Hex : String → String) (r : Recordings) (versionId : String) (version : PlanVersion) : Prop :=
  ∃ planState data, (r.statesOf versionId).getLast? = some planState ∧ r.tracker.getSnapshotData versionId = .ok data ∧
    data.Perm planState.entries ∧ computeMerkleRoot sha256Hex (snapshotDict data) = version.merkleRoot

/-- Every task ever recorded under the id is in the plan state recorded last. -/
def LastHasAll (r : Recordings) (versionId : String) : Prop :=
  ∀ planState ∈ (r.statesOf versionId).getLast?, ∀ earlier ∈ r.statesOf versionId, ∀ taskId ∈ earlier.keys, taskId ∈ planState.keys

def latest (states : List (Table String Json)) (taskId : String) : Option Json :=
  states.foldl (fun kept planState => (planState.get? taskId).or kept) none

section Latest

variable {states : List (Table String Json)} {planState : Table String Json} {taskId : String} {taskData : Json}

theorem latest_append (states : List (Table String Json)) (planState : Table String Json) (taskId : String) :
    latest (states ++ [planState]) taskId = (planState.get? taskId).or (latest states taskId) := by
  rw [latest, List.foldl_append]
  rfl

theorem latest_recorded (h : latest states taskId = some taskData) : ∃ s ∈ states, s.get? taskId = some taskData := by
  induction states using List.reverseRecOn with
  | nil => cases h
  | append_singleton states s ih =>
    rw [latest_append] at h
    cases hs : s.get? taskId with
    | some value =>
      rw [hs] at h
      exact ⟨s, List.mem_append_right _ (List.mem_singleton_self s), hs.trans h⟩
    | none =>
      rw [hs] at h
      obtain ⟨s', hs', hget⟩ := ih h
      exact ⟨s', List.mem_append_left _ hs', hget⟩

theorem latest_ne_none (h : planState ∈ states) (hkey : taskId ∈ planState.keys) : latest states taskId ≠ none := by
  induction states using List.reverseRecOn with
  | nil => cases h
  | append_singleton states s ih =>
    rw [latest_append]
    intro hnone
    obtain ⟨hs, hrest⟩ := Option.or_eq_none_iff.mp hnone
    rcases List.mem_append.mp h with h | h
    · exact ih h hrest
    · rw [List.mem_singleton.mp h] at hkey
      exact Table.get?_eq_none_iff.mp hs hkey

/-- What was recorded last is the last plan state when that one has every task. -/
theorem latest_eq_iff (hlast : states.getLast? = some planState) :
    (∀ taskId, latest states taskId = planState.get? taskId) ↔
      ∀ earlier ∈ states, ∀ taskId ∈ earlier.keys, taskId ∈ planState.keys := by
  obtain ⟨before, rfl⟩ := List.getLast?_eq_some_iff.mp hlast
  constructor
  · intro heq earlier hearlier taskId hkey
    by_contra hmissing
    have hnone := latest_ne_none hearlier hkey
    rw [heq, Table.get?_eq_none_iff.mpr hmissing] at hnone
    exact hnone rfl
  · intro hall taskId
    rw [latest_append]
    cases hget : planState.get? taskId with
    | some value => rfl
    | none =>
      rw [Option.none_or]
      cases hbefore : latest before taskId with
      | none => rfl
      | some value =>
        obtain ⟨s, hs, hsome⟩ := latest_recorded hbefore
        have hkey : taskId ∈ s.keys := by
          by_contra hmissing
          rw [Table.get?_eq_none_iff.mpr hmissing] at hsome
          cases hsome
        exact absurd (hall s (List.mem_append_left _ hs) taskId hkey) (Table.get?_eq_none_iff.mp hget)

end Latest

namespace VersionTracker

variable {tracker tracker' : VersionTracker} {versionId taskId : String} {taskData : Json}

def dataAt (tracker : VersionTracker) (key : String × String) : Option String :=
  (tracker.snapshots.get? key).map SnapshotRow.taskDataJson

theorem insertSnapshot_ok (h : insertSnapshot versionId taskId taskData tracker = .ok tracker') :
    tracker'.versions = tracker.versions ∧ ∀ key, tracker'.dataAt key =
      if key = (versionId, taskId) then some (taskData.write Json.defaultStyle) else tracker.dataAt key := by
  unfold insertSnapshot at h
  split at h
  next fields =>
    split at h
    next => cases h
    next => cases h
    next taskState _ =>
      cases h
      refine ⟨rfl, fun key => ?_⟩
      dsimp only [dataAt]
      rw [Table.get?_upsert]
      split <;> rfl
  next => cases h

/-- The tasks of the plan state are written, the other rows stay. -/
theorem insertSnapshots_ok {entries : List (String × Json)} (hn : (entries.map Prod.fst).Nodup)
    (h : insertSnapshots versionId entries tracker = .ok tracker') :
    tracker'.versions = tracker.versions ∧ ∀ key, tracker'.dataAt key =
      (if key.1 = versionId then (entries.lookup key.2).map (Json.write Json.defaultStyle) else none).or (tracker.dataAt key) := by
  induction entries generalizing tracker with
  | nil =>
    cases h
    refine ⟨rfl, fun key => ?_⟩
    split <;> rfl
  | cons e rest ih =>
    obtain ⟨taskId, taskData⟩ := e
    obtain ⟨hfresh, hrest⟩ := List.nodup_cons.mp hn
    rw [insertSnapshots] at h
    cases hfirst : insertSnapshot versionId taskId taskData tracker with
    | error e =>
      rw [hfirst] at h
      cases h
    | ok middle =>
      rw [hfirst] at h
      obtain ⟨hversions, hdata⟩ := insertSnapshot_ok hfirst
      obtain ⟨hversions', hdata'⟩ := ih hrest h
      refine ⟨hversions'.trans hversions, fun key => ?_⟩
      obtain ⟨id, task⟩ := key
      rw [hdata', hdata]
      by_cases hid : id = versionId
      · by_cases htask : task = taskId
        · -- the task does not come again
          have hnone : rest.lookup taskId = none := by
            refine List.lookup_eq_none_iff.mpr fun entry hentry => ?_
            rw [bne_iff_ne]
            exact fun heq => hfresh (List.mem_map.mpr ⟨entry, hentry, heq.symm⟩)
          rw [if_pos hid, if_pos hid, hid, htask, hnone, if_pos rfl, List.lookup_cons_self]
          rfl
        · have hbeq : (task == taskId) = false := beq_eq_false_iff_ne.mpr htask
          have hkey : (id, task) ≠ (versionId, taskId) := fun heq => htask (congrArg Prod.snd heq)
          rw [if_pos hid, if_pos hid, if_neg hkey, List.lookup_cons, hbeq]
      · have hkey : (id, task) ≠ (versionId, taskId) := fun heq => hid (congrArg Prod.fst heq)
        rw [if_neg hid, if_neg hid, if_neg hkey]

theorem recordVersion_cases (sha256Hex : String → String) (tracker : VersionTracker) (c : RecordCall) :
    (∃ e, tracker.recordVersion sha256Hex c.planState c.lamport c.versionId c.metadata c.uuid4 c.timeNs = (.error e, tracker)) ∨
    ∃ version row tracker',
      tracker.recordVersion sha256Hex c.planState c.lamport c.versionId c.metadata c.uuid4 c.timeNs = (.ok version, tracker') ∧
      row.versionId = version.versionId ∧ row.merkleRoot = computeMerkleRoot sha256Hex c.planState ∧
      insertSnapshots version.versionId c.planState.entries (replaceVersion row tracker) = .ok tracker' := by
  unfold recordVersion
  dsimp only
  split
  · exact .inl ⟨_, rfl⟩
  · split
    next => exact .inl ⟨_, rfl⟩
    next h => exact .inr ⟨_, _, _, rfl, rfl, rfl, h⟩

end VersionTracker

section Runs

variable {sha256Hex : String → String} {r : Recordings} {c : RecordCall} {versionId : String}

/-- What the tables hold after any calls. -/
structure Kept (sha256Hex : String → String) (r : Recordings) : Prop where
  versions : ∀ row ∈ r.tracker.versions, ∃ planState, (r.statesOf row.versionId).getLast? = some planState ∧
    row.merkleRoot = computeMerkleRoot sha256Hex planState
  snapshots : ∀ versionId taskId, r.tracker.dataAt (versionId, taskId) =
    (latest (r.statesOf versionId) taskId).map (Json.write Json.defaultStyle)
  wellFormed : ∀ s ∈ r.planStates, ∀ e ∈ s.2.entries, e.2.wellFormed = true

theorem kept_init (sha256Hex : String → String) : Kept sha256Hex .init :=
  ⟨List.forall_mem_nil _, fun _ _ => rfl, List.forall_mem_nil _⟩

theorem Kept.record (h : Kept sha256Hex r) (c : RecordCall) : Kept sha256Hex (r.record sha256Hex c) := by
  unfold Recordings.record
  rcases recordVersion_cases sha256Hex r.tracker c with ⟨e, hraise⟩ | ⟨version, row, tracker', hok, hid, hroot, hinsert⟩
  · rw [hraise]
    exact h
  · rw [hok]
    obtain ⟨hversions, hdata⟩ := insertSnapshots_ok c.planState.keysNodup hinsert
    have hsame : (⟨tracker', r.planStates ++ [(version.versionId, c.planState)]⟩ : Recordings).statesOf version.versionId =
        r.statesOf version.versionId ++ [c.planState] := by simp [Recordings.statesOf]
    have hother : ∀ id, id ≠ version.versionId →
        (⟨tracker', r.planStates ++ [(version.versionId, c.planState)]⟩ : Recordings).statesOf id = r.statesOf id := by
      intro id hne
      simp [Recordings.statesOf, hne.symm]
    refine ⟨?_, ?_, ?_⟩
    · intro row' hrow'
      rw [hversions] at hrow'
      rcases List.mem_append.mp hrow' with hrow' | hrow'
      · obtain ⟨hmem, hkeep⟩ := List.mem_filter.mp hrow'
        have hne : row'.versionId ≠ version.versionId := by
          rw [← hid]
          exact (of_decide_eq_true hkeep).1
        rw [hother _ hne]
        exact h.versions row' hmem
      · rw [List.mem_singleton.mp hrow', hid, hsame]
        exact ⟨c.planState, List.getLast?_concat, hroot⟩
    · intro id taskId
      have hkept : (replaceVersion row r.tracker).dataAt (id, taskId) = r.tracker.dataAt (id, taskId) := rfl
      rw [hdata, hkept, h.snapshots]
      by_cases hid' : id = version.versionId
      · rw [if_pos hid', hid', hsame, latest_append, Option.map_or]
        rfl
      · rw [if_neg hid', hother id hid', Option.none_or]
    · exact List.forall_mem_append.mpr ⟨h.wellFormed, List.forall_mem_singleton.mpr c.wellFormed⟩

def recordAll (sha256Hex : String → String) (calls : List RecordCall) : Recordings := calls.foldl (Recordings.record sha256Hex) .init

theorem kept_recordAll (sha256Hex : String → String) (calls : List RecordCall) : Kept sha256Hex (recordAll sha256Hex calls) := by
  unfold recordAll
  induction calls using List.reverseRecOn with
  | nil => exact kept_init sha256Hex
  | append_singleton calls c ih =>
    rw [List.foldl_append]
    exact ih.record c

theorem Kept.latest_wellFormed (h : Kept sha256Hex r) {taskId : String} {taskData : Json}
    (hlatest : latest (r.statesOf versionId) taskId = some taskData) : taskData.wellFormed = true := by
  obtain ⟨planState, hmem, hget⟩ := latest_recorded hlatest
  obtain ⟨s, hs, rfl⟩ := List.mem_map.mp hmem
  exact h.wellFormed s (List.mem_filter.mp hs).1 _ (Table.get?_eq_some_iff.mp hget)

/-- The snapshot has what was recorded last for every task. -/
theorem Kept.getSnapshotData (h : Kept sha256Hex r) (versionId : String) : ∃ data,
    r.tracker.getSnapshotData versionId = .ok data ∧ (data.map Prod.fst).Nodup ∧
    ∀ taskId taskData, (taskId, taskData) ∈ data ↔ latest (r.statesOf versionId) taskId = some taskData := by
  let rows := r.tracker.snapshots.entries.filter fun e => e.1.1 = versionId
  let valueOf : (String × String) × SnapshotRow → String × Json := fun e =>
    (e.1.2, (latest (r.statesOf versionId) e.1.2).getD .null)
  have hrow : ∀ e ∈ rows, e.1.1 = versionId ∧ r.tracker.dataAt e.1 = some e.2.taskDataJson := by
    intro e he
    obtain ⟨hmem, hid⟩ := List.mem_filter.mp he
    have hget : r.tracker.snapshots.get? e.1 = some e.2 := Table.get?_eq_some_iff.mpr hmem
    exact ⟨of_decide_eq_true hid, by rw [dataAt, hget]; rfl⟩
  have hlatest : ∀ e ∈ rows, ∃ taskData, latest (r.statesOf versionId) e.1.2 = some taskData ∧
      e.2.taskDataJson = taskData.write Json.defaultStyle := by
    intro e he
    obtain ⟨hid, hdata⟩ := hrow e he
    have hkey : e.1 = (versionId, e.1.2) := Prod.ext hid rfl
    rw [hkey, h.snapshots] at hdata
    obtain ⟨taskData, hsome, htext⟩ := Option.map_eq_some_iff.mp hdata
    exact ⟨taskData, hsome, htext.symm⟩
  have hread : ∀ e ∈ rows, (do
      let taskData ← readJson e.2.taskDataJson
      .ok (e.1.2, taskData) : Except VersionError (String × Json)) = .ok (valueOf e) := by
    intro e he
    obtain ⟨taskData, hsome, htext⟩ := hlatest e he
    have hloads := Json.loads_write rfl Json.defaultStyle_readable taskData (h.latest_wellFormed hsome)
    simp only [valueOf, hsome, htext, readJson, hloads, Option.getD_some]
    rfl
  refine ⟨rows.map valueOf, Python.mapM_ok hread, ?_, fun taskId taskData => ⟨fun hm => ?_, fun hsome => ?_⟩⟩
  · have hkeys : (rows.map valueOf).map Prod.fst = (rows.map Prod.fst).map Prod.snd := by
      rw [List.map_map, List.map_map]
      rfl
    have hnodup : (rows.map Prod.fst).Nodup := r.tracker.snapshots.keysNodup.sublist (List.filter_sublist.map Prod.fst)
    rw [hkeys]
    refine hnodup.map_on fun k hk k' hk' heq => ?_
    obtain ⟨e, he, rfl⟩ := List.mem_map.mp hk
    obtain ⟨e', he', rfl⟩ := List.mem_map.mp hk'
    exact Prod.ext ((hrow e he).1.trans (hrow e' he').1.symm) heq
  · obtain ⟨e, he, heq⟩ := List.mem_map.mp hm
    obtain ⟨value, hsome, -⟩ := hlatest e he
    obtain ⟨rfl, hvalue⟩ := Prod.mk.inj heq
    rw [hsome, Option.getD_some] at hvalue
    rw [hsome, hvalue]
  · have hdata := h.snapshots versionId taskId
    rw [hsome] at hdata
    obtain ⟨row, hget, -⟩ := Option.map_eq_some_iff.mp hdata
    have he : ((versionId, taskId), row) ∈ rows :=
      List.mem_filter.mpr ⟨Table.get?_eq_some_iff.mp hget, decide_eq_true rfl⟩
    refine List.mem_map.mpr ⟨_, he, ?_⟩
    simp [valueOf, hsome]

theorem entries_snapshotDict {data : List (String × Json)} (hn : (data.map Prod.fst).Nodup) : (snapshotDict data).entries = data :=
  Table.entries_foldl_upsert data hn

/-- A version that is still there reads back just when its last plan state has every
task that was ever recorded under its id. -/
theorem Kept.readsBack_iff (h : Kept sha256Hex r) {version : PlanVersion}
    (found : r.tracker.getVersionById versionId = .ok (some version)) :
    ReadsBack sha256Hex r versionId version ↔ LastHasAll r versionId := by
  obtain ⟨row, hrow, hid, hmerkle⟩ : ∃ row ∈ r.tracker.versions, row.versionId = versionId ∧
      version.merkleRoot = row.merkleRoot := by
    unfold getVersionById at found
    split at found
    next => cases found
    next row hfind =>
      refine ⟨row, List.mem_of_find?_eq_some hfind, by simpa using List.find?_some hfind, ?_⟩
      dsimp only at found
      split at found
      · cases found
        rfl
      · obtain ⟨metadata, -, hversion⟩ := Transactional.except_bind_ok.mp found
        cases hversion
        rfl
  obtain ⟨planState, hlast, hroot⟩ := h.versions row hrow
  rw [hid] at hlast
  obtain ⟨data, hdata, hn, hmem⟩ := h.getSnapshotData versionId
  have hperm : data.Perm planState.entries ↔ ∀ taskId, latest (r.statesOf versionId) taskId = planState.get? taskId := by
    rw [List.perm_ext_iff_of_nodup (List.Nodup.of_map _ hn) (List.Nodup.of_map _ planState.keysNodup)]
    constructor
    · intro hext taskId
      refine Option.ext fun taskData => ?_
      rw [← hmem, hext, Table.get?_eq_some_iff]
    · rintro heq ⟨taskId, taskData⟩
      rw [hmem, heq, Table.get?_eq_some_iff]
  have hcover : LastHasAll r versionId ↔ data.Perm planState.entries := by
    rw [hperm, latest_eq_iff hlast, LastHasAll]
    constructor
    · exact fun hall => hall planState hlast
    · intro hall planState' hlast'
      cases Option.some.inj (hlast.symm.trans hlast')
      exact hall
  rw [hcover]
  constructor
  · rintro ⟨planState', data', hlast', hdata', hsame, -⟩
    cases Option.some.inj (hlast.symm.trans hlast')
    cases Except.ok.inj (hdata.symm.trans hdata')
    exact hsame
  · intro hsame
    refine ⟨planState, data, hlast, hdata, hsame, ?_⟩
    rw [hmerkle, hroot, computeMerkleRoot, computeMerkleRoot, entries_snapshotDict hn, sortOn_eq_of_perm Prod.fst hsame hn]

/-- Every version that is returned reads back just when the last plan state recorded
under its id has all tasks ever recorded under it. -/
theorem reads_back_iff (sha256Hex : String → String) (calls : List RecordCall) {version : PlanVersion}
    (found : (recordAll sha256Hex calls).tracker.getVersionById versionId = .ok (some version)) :
    ReadsBack sha256Hex (recordAll sha256Hex calls) versionId version ↔ LastHasAll (recordAll sha256Hex calls) versionId :=
  (kept_recordAll sha256Hex calls).readsBack_iff found

end Runs

section Sample

def taskTable : List String → Table String Json
  | [] => .empty
  | taskId :: rest => (taskTable rest).upsert taskId (.obj [])

theorem taskTable_wellFormed (tasks : List String) : ∀ e ∈ (taskTable tasks).entries, e.2.wellFormed = true := by
  have hget : ∀ taskId value, (taskTable tasks).get? taskId = some value → value = .obj [] := by
    induction tasks with
    | nil => exact fun _ _ => nofun
    | cons first rest ih =>
      intro taskId value h
      rw [taskTable, Table.get?_upsert] at h
      split at h
      · exact (Option.some.inj h).symm
      · exact ih taskId value h
  intro e he
  rw [hget e.1 e.2 (Table.get?_eq_some_iff.mpr he)]
  rfl

def recordTasks (tasks : List String) (lamport : Int) : RecordCall :=
  ⟨taskTable tasks, lamport, some "v1", none, "uuid", lamport, taskTable_wellFormed tasks⟩

theorem recorded_again {tasks : List String} {lamport : Int} {calls : List RecordCall}
    (hrun : (recordAll (fun _ => "root") (calls ++ [recordTasks tasks lamport])).tracker.versions =
      [⟨"v1", lamport, "root", lamport, (Json.obj []).write Json.defaultStyle⟩]) :
    (recordAll (fun _ => "root") (calls ++ [recordTasks tasks lamport])).tracker.getVersionById "v1" =
      .ok (some ⟨"v1", lamport, "root", lamport, .obj []⟩) := by
  have hread : Json.loads ((Json.obj []).write Json.defaultStyle) = some (.obj []) :=
    Json.loads_write rfl Json.defaultStyle_readable _ rfl
  have hne : (Json.obj []).write Json.defaultStyle ≠ "" := by decide
  simp [getVersionById, hrun, hne, readJson, hread]
  rfl

theorem reads_back_iff_once :
    (recordAll (fun _ => "root") [recordTasks ["a"] 1]).tracker.getVersionById "v1" = .ok (some ⟨"v1", 1, "root", 1, .obj []⟩) ∧
      (ReadsBack (fun _ => "root") (recordAll (fun _ => "root") [recordTasks ["a"] 1]) "v1" ⟨"v1", 1, "root", 1, .obj []⟩ ↔
        LastHasAll (recordAll (fun _ => "root") [recordTasks ["a"] 1]) "v1") :=
  have found := @recorded_again ["a"] 1 [] rfl
  ⟨found, reads_back_iff (fun _ => "root") [recordTasks ["a"] 1] found⟩

/-- The task of the first recording is still in the snapshot after the second one. -/
theorem dropped_task_stays : ¬∀ version,
    (recordAll (fun _ => "root") [recordTasks ["a", "b"] 1, recordTasks ["a"] 2]).tracker.getVersionById "v1" = .ok (some version) →
      ReadsBack (fun _ => "root") (recordAll (fun _ => "root") [recordTasks ["a", "b"] 1, recordTasks ["a"] 2]) "v1" version := by
  intro hreads
  have found := @recorded_again ["a"] 2 [recordTasks ["a", "b"] 1] rfl
  have hall := ((kept_recordAll _ _).readsBack_iff found).mp (hreads _ found)
  have hstates : (recordAll (fun _ => "root") ([recordTasks ["a", "b"] 1] ++ [recordTasks ["a"] 2])).statesOf "v1" =
      [taskTable ["a", "b"], taskTable ["a"]] := rfl
  rw [LastHasAll, hstates] at hall
  have hb := hall _ rfl _ List.mem_cons_self "b" (by decide)
  exact absurd hb (by decide)

end Sample

end AgentNetwork.Plan
