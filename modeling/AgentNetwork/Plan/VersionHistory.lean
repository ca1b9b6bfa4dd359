import AgentNetwork.Library.PythonEquality
import AgentNetwork.Library.TableDiff
import AgentNetwork.Library.Traces
import AgentNetwork.Plan.Migration
import AgentNetwork.Plan.Snapshots

/-! The versions as a timeline, and what changed between two of them. -/

namespace AgentNetwork.Plan

open Relational StableSort VersionTracker Transition

/-- The columns of a row as a `PlanVersion`. -/
def VersionRow.read (row : VersionRow) : Except VersionError PlanVersion := do
  let metadata ← if row.metadataJson = "" then .ok (.obj []) else readJson row.metadataJson
  .ok ⟨row.versionId, row.lamport, row.merkleRoot, row.timestampNs, metadata⟩

namespace VersionTracker

def tooLarge : VersionError := .sqlError (.overflowError "Python int too large to convert to SQLite INTEGER")

/-- `get_version_at_lamport`: the lamports of the table are distinct. -/
def getVersionAtLamport (lamport : Int) (tracker : VersionTracker) : Except VersionError (Option PlanVersion) :=
  if ¬PlanStore.fits lamport then .error tooLarge
  else match firstGreatest VersionRow.lamport (tracker.versions.filter fun row => row.lamport ≤ lamport) with
    | none => .ok none
    | some row => do
      let version ← row.read
      .ok (some version)

/-- `get_all_versions`: a negative limit is no limit. -/
def getAllVersions (limit : Int) (tracker : VersionTracker) : Except VersionError (List PlanVersion) :=
  if ¬PlanStore.fits limit then .error tooLarge
  else
    let rows := sortOn (fun row => OrderDual.toDual row.lamport) tracker.versions
    (if limit < 0 then rows else rows.take limit.toNat).mapM VersionRow.read

/-- `compute_diff`; the sets of task ids are visited in some order. -/
def computeDiff (order : MigrationTool.SetOrder) (versionA versionB : String) (tracker : VersionTracker) :
    Except VersionError (TableDiff String Json) := do
  let snapshotA ← tracker.getSnapshotData versionA
  let snapshotB ← tracker.getSnapshotData versionB
  .ok (TableDiff.between order.visit (fun old new => !Python.equal old new) (snapshotDict snapshotA) (snapshotDict snapshotB))

end VersionTracker

/-- The versions that the calls returned, in order. -/
def recordedVersions (sha256Hex : String → String) (calls : List RecordCall) : List PlanVersion :=
  (stepsOf (Recordings.record sha256Hex) .init calls).filterMap fun (r, c, _) =>
    (r.tracker.recordVersion sha256Hex c.planState c.lamport c.versionId c.metadata c.uuid4 c.timeNs).1.toOption

/-- The version was recorded, and none of a later call has its id or its lamport. -/
def Standing (versions : List PlanVersion) (version : PlanVersion) : Prop :=
  ∃ before after, versions = before ++ version :: after ∧
    ∀ later ∈ after, later.versionId ≠ version.versionId ∧ later.lamport ≠ version.lamport

section Timeline

variable {sha256Hex : String → String} {versions : List PlanVersion} {version last : PlanVersion} {c : RecordCall}

theorem not_standing_nil : ¬Standing [] version := by
  rintro ⟨before, after, h, -⟩
  exact absurd h (by simp)

theorem standing_append_singleton : Standing (versions ++ [last]) version ↔
    version = last ∨ (Standing versions version ∧ version.versionId ≠ last.versionId ∧ version.lamport ≠ last.lamport) := by
  constructor
  · rintro ⟨before, after, h, hlater⟩
    rcases List.eq_nil_or_concat after with rfl | ⟨middle, final, rfl⟩
    · exact .inl ((List.append_inj' h rfl).2 |> List.singleton_inj.mp).symm
    · rw [List.concat_eq_append] at h hlater
      rw [← List.cons_append, ← List.append_assoc] at h
      obtain ⟨hbefore, hfinal⟩ := List.append_inj' h rfl
      rw [List.singleton_inj.mp hfinal]
      obtain ⟨hid, hlamport⟩ := hlater final (by simp)
      exact .inr ⟨⟨before, middle, hbefore, fun later h => hlater later (List.mem_append_left _ h)⟩, hid.symm, hlamport.symm⟩
  · rintro (rfl | ⟨⟨before, after, rfl, hlater⟩, hid, hlamport⟩)
    · exact ⟨versions, [], rfl, List.forall_mem_nil _⟩
    · refine ⟨before, after ++ [last], by simp, fun later h => ?_⟩
      rcases List.mem_append.mp h with h | h
      · exact hlater later h
      · rw [List.mem_singleton.mp h]
        exact ⟨hid.symm, hlamport.symm⟩

theorem recordedVersions_append (sha256Hex : String → String) (calls : List RecordCall) (c : RecordCall) :
    recordedVersions sha256Hex (calls ++ [c]) = recordedVersions sha256Hex calls ++
      ((recordAll sha256Hex calls).tracker.recordVersion sha256Hex c.planState c.lamport c.versionId c.metadata c.uuid4
        c.timeNs).1.toOption.toList := by
  unfold recordedVersions
  rw [stepsOf_append, List.filterMap_append]
  simp only [stepsOf, List.filterMap_cons, List.filterMap_nil, recordAll]
  split <;> simp_all

/-- What a call that returns a version does to the table of the versions. -/
theorem recordVersion_ok {tracker tracker' : VersionTracker} (hmeta : ∀ m ∈ c.metadata, m.wellFormed = true)
    (h : tracker.recordVersion sha256Hex c.planState c.lamport c.versionId c.metadata c.uuid4 c.timeNs = (.ok version, tracker')) :
    ∃ row, row.read = .ok version ∧ tracker'.versions = (replaceVersion row tracker).versions := by
  unfold recordVersion at h
  dsimp only at h
  split at h
  next => cases h
  next =>
    split at h
    next => cases h
    next middle hinsert =>
      obtain ⟨hversion, hmiddle⟩ := Prod.mk.inj h
      cases hversion
      subst hmiddle
      refine ⟨_, ?_, (insertSnapshots_ok c.planState.keysNodup hinsert).1⟩
      have hwf : (c.metadata.getD (.obj [])).wellFormed = true := by
        cases hm : c.metadata with
        | none => rfl
        | some m => exact hmeta m hm
      have hloads := Json.loads_write rfl Json.defaultStyle_readable _ hwf
      have hne : (c.metadata.getD (.obj [])).write Json.defaultStyle ≠ "" := by
        intro hempty
        rw [hempty] at hloads
        cases hloads
      simp only [VersionRow.read, if_neg hne, readJson, hloads]
      rfl

/-- The rows are those of the standing versions. -/
structure OnTimeline (tracker : VersionTracker) (versions : List PlanVersion) : Prop where
  ids : (tracker.versions.map VersionRow.versionId).Nodup
  lamports : (tracker.versions.map VersionRow.lamport).Nodup
  readable : ∀ row ∈ tracker.versions, ∃ version, row.read = .ok version
  standing : ∀ version, Standing versions version ↔ ∃ row ∈ tracker.versions, row.read = .ok version

theorem read_fields {row : VersionRow} (h : row.read = .ok version) :
    version.versionId = row.versionId ∧ version.lamport = row.lamport := by
  unfold VersionRow.read at h
  dsimp only at h
  split at h
  · cases h
    exact ⟨rfl, rfl⟩
  · obtain ⟨metadata, -, hversion⟩ := Transactional.except_bind_ok.mp h
    cases hversion
    exact ⟨rfl, rfl⟩

theorem OnTimeline.record {tracker tracker' : VersionTracker} {row : VersionRow} (h : OnTimeline tracker versions)
    (hread : row.read = .ok last) (hrows : tracker'.versions = (replaceVersion row tracker).versions) :
    OnTimeline tracker' (versions ++ [last]) := by
  obtain ⟨hlastId, hlastLamport⟩ := read_fields hread
  let others := tracker.versions.filter fun other => other.versionId ≠ row.versionId ∧ other.lamport ≠ row.lamport
  have hrows : tracker'.versions = others ++ [row] := hrows
  have hother : ∀ {other}, other ∈ others ↔ other ∈ tracker.versions ∧ other.versionId ≠ row.versionId ∧ other.lamport ≠ row.lamport := by
    intro other
    simp only [others, List.mem_filter, decide_eq_true_eq]
  refine ⟨?_, ?_, ?_, fun version => ?_⟩
  · rw [hrows, List.map_append, List.map_singleton]
    refine List.Nodup.append (h.ids.sublist (List.filter_sublist.map _)) (List.nodup_singleton _) ?_
    intro id hid hrow
    obtain ⟨other, hmem, rfl⟩ := List.mem_map.mp hid
    exact (hother.mp hmem).2.1 (List.mem_singleton.mp hrow)
  · rw [hrows, List.map_append, List.map_singleton]
    refine List.Nodup.append (h.lamports.sublist (List.filter_sublist.map _)) (List.nodup_singleton _) ?_
    intro lamport hlamport hrow
    obtain ⟨other, hmem, rfl⟩ := List.mem_map.mp hlamport
    exact (hother.mp hmem).2.2 (List.mem_singleton.mp hrow)
  · rw [hrows]
    intro other hmem
    rcases List.mem_append.mp hmem with hmem | hmem
    · exact h.readable other (hother.mp hmem).1
    · rw [List.mem_singleton.mp hmem]
      exact ⟨last, hread⟩
  · rw [hrows, standing_append_singleton, h.standing]
    constructor
    · rintro (rfl | ⟨⟨other, hmem, hversion⟩, hid, hlamport⟩)
      · exact ⟨row, List.mem_append_right _ (List.mem_singleton_self row), hread⟩
      · obtain ⟨hid', hlamport'⟩ := read_fields hversion
        rw [hid', hlastId] at hid
        rw [hlamport', hlastLamport] at hlamport
        exact ⟨other, List.mem_append_left _ (hother.mpr ⟨hmem, hid, hlamport⟩), hversion⟩
    · rintro ⟨other, hmem, hversion⟩
      rcases List.mem_append.mp hmem with hmem | hmem
      · obtain ⟨hmem, hid, hlamport⟩ := hother.mp hmem
        obtain ⟨hid', hlamport'⟩ := read_fields hversion
        rw [← hid', ← hlastId] at hid
        rw [← hlamport', ← hlastLamport] at hlamport
        exact .inr ⟨⟨other, hmem, hversion⟩, hid, hlamport⟩
      · rw [List.mem_singleton.mp hmem, hread] at hversion
        exact .inl (Except.ok.inj hversion).symm

theorem onTimeline_of_run {calls : List RecordCall} (hmeta : ∀ c ∈ calls, ∀ m ∈ c.metadata, m.wellFormed = true) :
    OnTimeline (recordAll sha256Hex calls).tracker (recordedVersions sha256Hex calls) := by
  induction calls using List.reverseRecOn with
  | nil =>
    refine ⟨List.nodup_nil, List.nodup_nil, List.forall_mem_nil _, fun version => ?_⟩
    constructor
    · exact fun h => absurd h not_standing_nil
    · rintro ⟨row, hrow, -⟩
      cases hrow
  | append_singleton calls c ih =>
    obtain ⟨hearlier, hlast⟩ := List.forall_mem_append.mp hmeta
    have h := ih hearlier
    rw [recordedVersions_append, recordAll, List.foldl_append]
    change OnTimeline (Recordings.record sha256Hex (recordAll sha256Hex calls) c).tracker _
    unfold Recordings.record
    split
    next version tracker' hok =>
      obtain ⟨row, hread, hrows⟩ := recordVersion_ok (hlast c (List.mem_singleton_self c)) hok
      rw [hok]
      exact h.record hread hrows
    next e tracker' herror =>
      -- a call that raises is rolled back
      have hkept : tracker' = (recordAll sha256Hex calls).tracker := by
        rcases recordVersion_cases sha256Hex (recordAll sha256Hex calls).tracker c with ⟨e', hraise⟩ | ⟨_, _, _, hok, -⟩
        · exact (Prod.mk.inj (herror.symm.trans hraise)).2
        · rw [hok] at herror
          cases herror
      rw [herror, hkept, Except.toOption, Option.toList_none, List.append_nil]
      exact h

variable {tracker : VersionTracker}

theorem OnTimeline.getVersionById (h : OnTimeline tracker versions) (versionId : String) :
    tracker.getVersionById versionId = .ok (some version) ↔ Standing versions version ∧ version.versionId = versionId := by
  have hlookup : tracker.getVersionById versionId = match tracker.versions.find? fun row => row.versionId = versionId with
      | none => .ok none
      | some row => row.read.map some := by
    unfold VersionTracker.getVersionById VersionRow.read
    cases tracker.versions.find? fun row => row.versionId = versionId with
    | none => rfl
    | some row =>
      dsimp only
      split
      · rfl
      · cases readJson row.metadataJson <;> rfl
  rw [hlookup, h.standing]
  constructor
  · intro hfound
    split at hfound
    next => cases hfound
    next row hfind =>
      have hmem := List.mem_of_find?_eq_some hfind
      have hid : row.versionId = versionId := by simpa using List.find?_some hfind
      obtain ⟨read, hread⟩ := h.readable row hmem
      rw [hread] at hfound
      cases hfound
      exact ⟨⟨row, hmem, hread⟩, (read_fields hread).1.trans hid⟩
  · rintro ⟨⟨row, hmem, hread⟩, hid⟩
    have hrow : row.versionId = versionId := (read_fields hread).1.symm.trans hid
    cases hfind : tracker.versions.find? fun row => row.versionId = versionId with
    | none => exact absurd (List.find?_eq_none.mp hfind row hmem) (by simpa using hrow)
    | some other =>
      have hother : other.versionId = versionId := by simpa using List.find?_some hfind
      have heq : other = row :=
        List.inj_on_of_nodup_map h.ids (List.mem_of_find?_eq_some hfind) hmem (hother.trans hrow.symm)
      change other.read.map some = .ok (some version)
      rw [heq, hread]
      rfl

/-- Of the versions up to the lamport the latest is found. -/
theorem OnTimeline.getVersionAtLamport (h : OnTimeline tracker versions) {lamport : Int} (hfits : PlanStore.fits lamport = true) :
    ∃ found, tracker.getVersionAtLamport lamport = .ok found ∧ ∀ version, found = some version ↔
      Standing versions version ∧ version.lamport ≤ lamport ∧
        ∀ other, Standing versions other → other.lamport ≤ lamport → other.lamport ≤ version.lamport := by
  let upTo := tracker.versions.filter fun row => row.lamport ≤ lamport
  have hupTo : ∀ {row}, row ∈ upTo ↔ row ∈ tracker.versions ∧ row.lamport ≤ lamport := by
    intro row
    simp only [upTo, List.mem_filter, decide_eq_true_eq]
  rw [VersionTracker.getVersionAtLamport, if_neg (by simp [hfits])]
  cases hgreatest : firstGreatest VersionRow.lamport upTo with
  | none =>
    have hnil : upTo = [] := List.argmax_eq_none.mp hgreatest
    refine ⟨none, rfl, fun version => ⟨nofun, fun ⟨hstanding, hle, _⟩ => ?_⟩⟩
    obtain ⟨row, hrow, hread⟩ := (h.standing version).mp hstanding
    have hmem : row ∈ upTo := hupTo.mpr ⟨hrow, (read_fields hread).2 ▸ hle⟩
    rw [hnil] at hmem
    cases hmem
  | some row =>
    have hmem : row ∈ upTo := List.argmax_mem hgreatest
    obtain ⟨hrow, hle⟩ := hupTo.mp hmem
    obtain ⟨read, hread⟩ := h.readable row hrow
    obtain ⟨-, hlamport⟩ := read_fields hread
    have hlatest : ∀ other, Standing versions other → other.lamport ≤ lamport → other.lamport ≤ read.lamport := by
      intro other hother hotherLe
      obtain ⟨row', hrow', hread'⟩ := (h.standing other).mp hother
      obtain ⟨-, hlamport'⟩ := read_fields hread'
      rw [hlamport, hlamport']
      exact List.le_of_mem_argmax (hupTo.mpr ⟨hrow', hlamport' ▸ hotherLe⟩) hgreatest
    refine ⟨some read, by simp only [hread]; rfl, fun version => ⟨?_, ?_⟩⟩
    · intro heq
      cases heq
      exact ⟨(h.standing read).mpr ⟨row, hrow, hread⟩, hlamport ▸ hle, hlatest⟩
    · rintro ⟨hstanding, hversionLe, hgreatest'⟩
      have hsame : version.lamport = read.lamport :=
        le_antisymm (hlatest version hstanding hversionLe)
          (hgreatest' read ((h.standing read).mpr ⟨row, hrow, hread⟩) (hlamport ▸ hle))
      obtain ⟨row', hrow', hread'⟩ := (h.standing version).mp hstanding
      have heq : row' = row := by
        refine List.inj_on_of_nodup_map h.lamports hrow' hrow ?_
        rw [← (read_fields hread').2, ← hlamport, hsame]
      rw [heq, hread] at hread'
      rw [Except.ok.inj hread']

/-- The list of the versions is the standing ones, the newest first. -/
theorem OnTimeline.getAllVersions (h : OnTimeline tracker versions) : ∃ all : List PlanVersion,
    (∀ version, version ∈ all ↔ Standing versions version) ∧ all.Pairwise (fun newer older => older.lamport < newer.lamport) ∧
    ∀ limit, PlanStore.fits limit = true →
      tracker.getAllVersions limit = .ok (if limit < 0 then all else all.take limit.toNat) := by
  let rows := sortOn (fun row => OrderDual.toDual row.lamport) tracker.versions
  have hmem : ∀ {row}, row ∈ rows ↔ row ∈ tracker.versions := mem_sortOn _
  let versionOf : VersionRow → PlanVersion := fun row => row.read.toOption.getD ⟨row.versionId, row.lamport, "", 0, .null⟩
  have hread : ∀ row ∈ rows, row.read = .ok (versionOf row) := by
    intro row hrow
    obtain ⟨version, hversion⟩ := h.readable row (hmem.mp hrow)
    simp only [versionOf, hversion]
    rfl
  refine ⟨rows.map versionOf, fun version => ?_, ?_, fun limit hfits => ?_⟩
  · rw [List.mem_map, h.standing]
    constructor
    · rintro ⟨row, hrow, rfl⟩
      exact ⟨row, hmem.mp hrow, hread row hrow⟩
    · rintro ⟨row, hrow, hversion⟩
      exact ⟨row, hmem.mpr hrow, Except.ok.inj ((hread row (hmem.mpr hrow)).symm.trans hversion)⟩
  · rw [List.pairwise_map]
    have hnodup : (rows.map VersionRow.lamport).Nodup := ((perm_sortOn _ _).map _).nodup_iff.mpr h.lamports
    refine ((pairwise_sortOn _ _).and (List.pairwise_map.mp hnodup)).imp_of_mem ?_
    intro newer older hnewer holder ⟨hle, hne⟩
    rw [(read_fields (hread newer hnewer)).2, (read_fields (hread older holder)).2]
    exact lt_of_le_of_ne hle hne.symm
  · rw [VersionTracker.getAllVersions, if_neg (by simp [hfits])]
    dsimp only
    split
    · exact Python.mapM_ok hread
    · rw [← List.map_take]
      exact Python.mapM_ok fun row hrow => hread row (List.mem_of_mem_take hrow)

end Timeline

/-- Over any calls the versions are a timeline: those that no later call replaced, by
their id, the latest one at a lamport, and all of them from the newest on. -/
theorem version_timeline (sha256Hex : String → String) {calls : List RecordCall}
    (hmeta : ∀ c ∈ calls, ∀ m ∈ c.metadata, m.wellFormed = true) :
    let tracker := (recordAll sha256Hex calls).tracker
    let versions := recordedVersions sha256Hex calls
    (∀ versionId version, tracker.getVersionById versionId = .ok (some version) ↔
      Standing versions version ∧ version.versionId = versionId) ∧
    (∀ lamport, PlanStore.fits lamport = true → ∃ found, tracker.getVersionAtLamport lamport = .ok found ∧
      ∀ version, found = some version ↔ Standing versions version ∧ version.lamport ≤ lamport ∧
        ∀ other, Standing versions other → other.lamport ≤ lamport → other.lamport ≤ version.lamport) ∧
    ∃ all : List PlanVersion, (∀ version, version ∈ all ↔ Standing versions version) ∧
      all.Pairwise (fun newer older => older.lamport < newer.lamport) ∧
      ∀ limit, PlanStore.fits limit = true →
        tracker.getAllVersions limit = .ok (if limit < 0 then all else all.take limit.toNat) := by
  intro tracker versions
  have h : OnTimeline tracker versions := onTimeline_of_run hmeta
  exact ⟨fun versionId version => h.getVersionById versionId, fun lamport hfits => h.getVersionAtLamport hfits,
    h.getAllVersions⟩

theorem version_timeline_replaced :
    recordedVersions (fun _ => "root") [recordTasks ["a"] 1, recordTasks ["b"] 2] =
        [⟨"v1", 1, "root", 1, .obj []⟩, ⟨"v1", 2, "root", 2, .obj []⟩] ∧
      ∃ found, (recordAll (fun _ => "root") [recordTasks ["a"] 1, recordTasks ["b"] 2]).tracker.getVersionAtLamport 1 = .ok found ∧
        ∀ version, found = some version ↔
          Standing (recordedVersions (fun _ => "root") [recordTasks ["a"] 1, recordTasks ["b"] 2]) version ∧ version.lamport ≤ 1 ∧
          ∀ other, Standing (recordedVersions (fun _ => "root") [recordTasks ["a"] 1, recordTasks ["b"] 2]) other →
            other.lamport ≤ 1 → other.lamport ≤ version.lamport := by
  refine ⟨rfl, (version_timeline (fun _ => "root") ?_).2.1 1 rfl⟩
  simp [recordTasks]

section Diff

variable {sha256Hex : String → String} {r : Recordings}

theorem Kept.snapshotDict (h : Kept sha256Hex r) (versionId : String) : ∃ data,
    r.tracker.getSnapshotData versionId = .ok data ∧
    ∀ taskId, (snapshotDict data).get? taskId = latest (r.statesOf versionId) taskId := by
  obtain ⟨data, hdata, hn, hmem⟩ := h.getSnapshotData versionId
  refine ⟨data, hdata, fun taskId => Option.ext fun taskData => ?_⟩
  rw [Table.get?_eq_some_iff, entries_snapshotDict hn, hmem]

end Diff

end AgentNetwork.Plan
