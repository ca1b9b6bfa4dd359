import AgentNetwork.Plan.Replay

namespace AgentNetwork.Plan

open Relational StableSort PlanOp AutomergePlanStore

/-- The document as `_rebuild_state_from_ops` clears it. -/
theorem shows_nil (doc : CRDTDocument) :
    Shows [] { doc with tasks := .empty, edges := .empty, annotations := .empty } where
  tasks _ := rfl
  annotations _ _ := rfl
  annotated t := by simp [Table.contains]
  edges p c := by simp [CRDTDocument.HasEdge]

theorem Shows.replay {l rest : List PlanOp} {doc : CRDTDocument} (hs : Shows l doc)
    (hw : ∀ op ∈ rest, op.WellFormed) :
    ∃ doc', replayOps (rest.map toDict) doc = (.ok (), doc') ∧ Shows (l ++ rest) doc' ∧
      doc'.ops = doc.ops ∧ doc'.version = doc.version := by
  induction rest generalizing l doc with
  | nil => exact ⟨doc, rfl, by simpa using hs, rfl, rfl⟩
  | cons op rest ih =>
    obtain ⟨doc₁, happly, hs₁, hops₁, hversion₁⟩ := hs.apply (hw op List.mem_cons_self)
    obtain ⟨doc', hreplay, hs', hops', hversion'⟩ := ih hs₁ fun x hx => hw x (List.mem_cons_of_mem op hx)
    refine ⟨doc', ?_, by simpa using hs', hops'.trans hops₁, hversion'.trans hversion₁⟩
    have hbind : op.toDict.toOp.bind (applyToState doc) = .ok doc₁ := by
      rw [toOp_toDict]
      exact happly
    rw [List.map_cons, replayOps, hbind]
    exact hreplay

/-- The log of the store is the list of well-formed operations, and the store
knows their ids. -/
structure Holds (log : List PlanOp) (store : AutomergePlanStore) : Prop where
  ops : store.doc.ops = log.map toDict
  opIds : ∀ i, i ∈ store.opIds ↔ ∃ op ∈ log, op.opId = i
  wellFormed : ∀ op ∈ log, op.WellFormed

theorem holds_init : Holds [] init := ⟨rfl, by simp [init], by simp⟩

/-- The operations of the peer whose ids this log lacks. -/
def unseen (log peerLog : List PlanOp) : List PlanOp :=
  peerLog.filter fun op => ¬ op.opId ∈ log.map PlanOp.opId

/-- The log after a merge, before it is sorted. -/
def union (log peerLog : List PlanOp) : List PlanOp := log ++ unseen log peerLog

theorem mem_union {log peerLog : List PlanOp} {op : PlanOp} :
    op ∈ union log peerLog ↔ op ∈ log ∨ (op ∈ peerLog ∧ ∀ x ∈ log, x.opId ≠ op.opId) := by
  simp [union, unseen]

theorem newOps_toDict {log : List PlanOp} {store : AutomergePlanStore} (h : Holds log store) (peerLog : List PlanOp) :
    newOps store.opIds (peerLog.map toDict) = (unseen log peerLog).map toDict := by
  rw [newOps, unseen, List.filter_map]
  congr 1
  apply List.filter_congr
  intro op _
  have hid : op.toDict.opId.getD "" = op.opId := rfl
  simp only [Function.comp_apply, hid, h.opIds, List.mem_map]

theorem mapM_field_opId (ops : List PlanOp) :
    ((ops.map toDict).mapM fun d => field "op_id" d.opId) = .ok (ops.map PlanOp.opId) := by
  induction ops with
  | nil => rfl
  | cons op ops ih =>
    rw [List.map_cons, List.mapM_cons, ih]
    rfl

theorem mapM_field_lamport (ops : List PlanOp) :
    ((ops.map toDict).mapM fun d => field "lamport" d.lamport) = .ok (ops.map PlanOp.lamport) := by
  induction ops with
  | nil => rfl
  | cons op ops ih =>
    rw [List.map_cons, List.mapM_cons, ih]
    rfl

theorem sortByLamport_toDict (ops : List PlanOp) :
    sortByLamport (ops.map toDict) = .ok ((sortOn PlanOp.lamport ops).map toDict) := by
  have hmap : (sortOn PlanOp.lamport ops).map toDict = sortOn (fun d => d.lamport.getD 0) (ops.map toDict) :=
    List.map_insertionSort _ _ toDict ops fun _ _ _ _ => Iff.rfl
  rw [sortByLamport, mapM_field_lamport, hmap]
  rfl

/-- Rebuilding from a sorted log shows its operations in lamport order. -/
theorem rebuild_sorted {log : List PlanOp} (hw : ∀ op ∈ log, op.WellFormed) (doc : CRDTDocument) :
    ∃ doc', rebuildStateFromOps { doc with ops := (sortOn PlanOp.lamport log).map toDict } = (.ok (), doc') ∧
      Shows (sortOn PlanOp.lamport log) doc' ∧ doc'.ops = (sortOn PlanOp.lamport log).map toDict ∧
      doc'.version = doc.version := by
  have hwell : ∀ op ∈ sortOn PlanOp.lamport log, op.WellFormed := fun op hm => hw op ((mem_sortOn _).mp hm)
  exact (shows_nil { doc with ops := (sortOn PlanOp.lamport log).map toDict }).replay hwell

/-- Merging a peer of well-formed operations succeeds and shows the union of the
logs in lamport order. -/
theorem Holds.merge {log peerLog : List PlanOp} {store : AutomergePlanStore} {peer : CRDTDocument} (h : Holds log store)
    (hpeer : peer.ops = peerLog.map toDict) (hw : ∀ op ∈ peerLog, op.WellFormed) :
    ∃ store', mergeWithPeer peer store = (.ok (), store') ∧
      Holds (sortOn PlanOp.lamport (union log peerLog)) store' ∧
      Shows (sortOn PlanOp.lamport (union log peerLog)) store'.doc := by
  have hunseen : ∀ op ∈ unseen log peerLog, op ∈ peerLog := fun op hm => (List.mem_filter.mp hm).1
  have hwell : ∀ op ∈ union log peerLog, op.WellFormed := by
    intro op hm
    rcases List.mem_append.mp hm with hm | hm
    · exact h.wellFormed op hm
    · exact hw op (hunseen op hm)
  obtain ⟨doc', hrebuild, hshows, hops, _⟩ :=
    rebuild_sorted hwell { store.doc with ops := store.doc.ops ++ newOps store.opIds peer.ops }
  have hnew := newOps_toDict h peerLog
  rw [← hpeer] at hnew
  have hlog : store.doc.ops ++ newOps store.opIds peer.ops = (union log peerLog).map toDict := by
    rw [h.ops, hnew, union, List.map_append]
  refine ⟨⟨{ doc' with version := doc'.version + 1 },
    store.opIds ++ (newOps store.opIds peer.ops).map fun d => d.opId.getD ""⟩, ?_, ⟨hops, ?_, ?_⟩, ?_⟩
  · have hids : (peer.ops.mapM fun d => field "op_id" d.opId) = .ok (peerLog.map PlanOp.opId) := by
      rw [hpeer, mapM_field_opId]
    have hsort : sortByLamport (store.doc.ops ++ newOps store.opIds peer.ops) =
        .ok ((sortOn PlanOp.lamport (union log peerLog)).map toDict) := by
      rw [hlog, sortByLamport_toDict]
    rw [mergeWithPeer, hids]
    simp only [hsort]
    rw [hrebuild]
  · intro i
    rw [List.mem_append, h.opIds, hnew, List.map_map, List.mem_map]
    constructor
    · rintro (⟨op, hm, rfl⟩ | ⟨op, hm, rfl⟩)
      · exact ⟨op, (mem_sortOn _).mpr (List.mem_append_left _ hm), rfl⟩
      · exact ⟨op, (mem_sortOn _).mpr (List.mem_append_right _ hm), rfl⟩
    · rintro ⟨op, hm, rfl⟩
      rcases List.mem_append.mp ((mem_sortOn _).mp hm) with hm | hm
      · exact Or.inl ⟨op, hm, rfl⟩
      · exact Or.inr ⟨op, hm, rfl⟩
  · exact fun op hm => hwell op ((mem_sortOn _).mp hm)
  · exact ⟨hshows.tasks, hshows.annotations, hshows.annotated, hshows.edges⟩

/-- Appending a well-formed operation succeeds; one whose id is known changes nothing. -/
theorem Holds.append {log : List PlanOp} {store : AutomergePlanStore} {op : PlanOp} (h : Holds log store)
    (hs : Shows log store.doc) (hw : op.WellFormed) :
    ∃ store', appendOp op store = (.ok (), store') ∧ Holds (union log [op]) store' ∧ Shows (union log [op]) store'.doc := by
  unfold appendOp
  split
  next hid =>
    obtain ⟨x, hx, hxid⟩ := (h.opIds _).mp hid
    have hunion : union log [op] = log := by
      have hknown : ∃ x ∈ log, x.opId = op.opId := ⟨x, hx, hxid⟩
      simpa [union, unseen] using hknown
    rw [hunion]
    exact ⟨store, rfl, h, hs⟩
  next hid =>
    have hfresh : op.opId ∉ log.map PlanOp.opId := by
      intro hm
      obtain ⟨x, hx, hxid⟩ := List.mem_map.mp hm
      exact hid ((h.opIds _).mpr ⟨x, hx, hxid⟩)
    have hunion : union log [op] = log ++ [op] := by simp only [union, unseen, List.filter_cons, hfresh]; rfl
    rw [hunion]
    have hs₁ : Shows log { store.doc with ops := store.doc.ops ++ [op.toDict], version := store.doc.version + 1 } :=
      ⟨hs.tasks, hs.annotations, hs.annotated, hs.edges⟩
    obtain ⟨doc', happly, hs', hops, _⟩ := hs₁.apply hw
    refine ⟨⟨doc', store.opIds ++ [op.opId]⟩, by simp only [happly], ⟨?_, ?_, ?_⟩, hs'⟩
    · rw [hops, h.ops, List.map_append]
      rfl
    · intro i
      rw [List.mem_append, h.opIds, List.mem_singleton]
      constructor
      · rintro (⟨x, hm, rfl⟩ | rfl)
        · exact ⟨x, List.mem_append_left _ hm, rfl⟩
        · exact ⟨op, by simp, rfl⟩
      · rintro ⟨x, hm, rfl⟩
        rcases List.mem_append.mp hm with hm | hm
        · exact Or.inl ⟨x, hm, rfl⟩
        · exact Or.inr (by rw [List.mem_singleton.mp hm])
    · intro x hm
      rcases List.mem_append.mp hm with hm | hm
      · exact h.wellFormed x hm
      · rwa [List.mem_singleton.mp hm]

end AgentNetwork.Plan
