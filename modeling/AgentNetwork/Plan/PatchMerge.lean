import AgentNetwork.Plan.PatchCycles

namespace AgentNetwork.Plan

open Relational StableSort DepthFirst

theorem value_injective {s t : OpType} (h : s.value = t.value) : s = t := by
  revert h
  cases s <;> cases t <;> decide

theorem eq_value_of_ofValue {value : String} {t : OpType} (h : OpType.ofValue value = .ok t) : value = t.value := by
  unfold OpType.ofValue at h
  cases hfind : [OpType.addTask, .requires, .produces, .state, .link, .annotate].find? (·.value = value) with
  | none => simp [hfind] at h
  | some found =>
    rw [hfind] at h
    cases h
    have hvalue := List.find?_some hfind
    exact (of_decide_eq_true hvalue).symm

/-- The edge that the payload of a LINK names. -/
def payloadEdge (payload : Table String Json) : Option (Json × Json) := do
  let parent ← payload.get? "parent"
  let child ← payload.get? "child"
  some (parent, child)

/-- The edge of a LINK. -/
def OpData.linkEdge (op : OpData) : Option (Json × Json) :=
  if op.opType = some OpType.link.value then payloadEdge op.getPayload else none

/-- An operation that validation lets through. -/
structure OpData.WellFormed (op : OpData) (type : OpType) (taskId : String) : Prop where
  opType : op.opType = some type.value
  taskId : op.taskId = some taskId
  link : type = .link → ∃ payload parent child, op.payload = some payload ∧
    payload.get? "parent" = some parent ∧ payload.get? "child" = some child

theorem eq_some_of_getD {value : Option String} (h : value.getD "" ≠ "") : value = some (value.getD "") := by
  cases value with
  | none => exact absurd rfl h
  | some s => rfl

theorem validateOp_none {idx : Nat} {op : OpData} (h : validateOp idx op = none) :
    ∃ type taskId, op.WellFormed type taskId := by
  unfold validateOp at h
  dsimp only at h
  split at h
  next => cases h
  next htype =>
    split at h
    next => cases h
    next htask =>
      cases hof : OpType.ofValue (op.opType.getD "") with
      | error e => simp [hof] at h
      | ok type =>
        rw [hof] at h
        have hvalue := eq_some_of_getD htype
        rw [eq_value_of_ofValue hof] at hvalue
        refine ⟨type, _, hvalue, eq_some_of_getD htask, ?_⟩
        rintro rfl
        have hkeys : op.getPayload.contains "parent" ∧ op.getPayload.contains "child" := by
          by_contra hnot
          simp [hnot] at h
        obtain ⟨parent, hparent⟩ := Table.contains_eq_true_iff.mp hkeys.1
        obtain ⟨child, hchild⟩ := Table.contains_eq_true_iff.mp hkeys.2
        cases hpayload : op.payload with
        | none => simp [OpData.getPayload, hpayload] at hparent
        | some payload =>
          rw [OpData.getPayload, hpayload] at hparent hchild
          exact ⟨payload, parent, child, rfl, hparent, hchild⟩

theorem validatePatch_ops {patch : PlanPatch} (h : (validatePatch patch).1 = true) :
    ∀ op ∈ patch.ops, ∃ idx, validateOp idx op = none := by
  intro op hop
  unfold validatePatch at h
  split at h
  next => cases h
  next =>
    split at h
    next => cases h
    next =>
      split at h
      next => cases h
      next =>
        split at h
        next => cases h
        next =>
          split at h
          next => cases h
          next hfind =>
            obtain ⟨idx, hidx⟩ := List.getElem_of_mem hop
            have hmem : (op, idx) ∈ patch.ops.zipIdx := by
              obtain ⟨hlt, hget⟩ := hidx
              exact List.mk_mem_zipIdx_iff_getElem?.mpr (List.getElem?_eq_some_iff.mpr ⟨hlt, hget⟩)
            exact ⟨idx, List.findSome?_eq_none_iff.mp hfind (op, idx) hmem⟩

theorem validatePatch_wellFormed {patch : PlanPatch} (h : (validatePatch patch).1 = true) :
    ∀ op ∈ patch.ops, ∃ type taskId, op.WellFormed type taskId := by
  intro op hop
  obtain ⟨idx, hnone⟩ := validatePatch_ops h op hop
  exact validateOp_none hnone

namespace PatchValidator

/-- An operation of the sequence with its type, task and edge read off. -/
structure Item where
  type : OpType
  taskId : String
  edge : Json × Json
  entry : Entry

/-- The operation read as an item; a type, task or edge that validation would
not let through gets a stand-in. -/
def item (source : PlanPatch × OpData) : Item :=
  let op := source.2
  ⟨(OpType.ofValue (op.opType.getD "")).toOption.getD .annotate, op.taskId.getD "",
    op.linkEdge.getD (.null, .null), ⟨op, source.1.baseLamport, source.1.actorId⟩⟩

def Item.key (i : Item) : String × String := (i.taskId, i.type.value)

def links (items : List Item) : List (Json × Json) := (items.filter (·.type = .link)).map Item.edge

open Classical in
/-- The items without the links that would close a cycle with those before them. -/
noncomputable def accept (accepted : List Item) (i : Item) : List Item :=
  if i.type = .link ∧ Cyclic (successors (links accepted ++ [i.edge])) then accepted else accepted ++ [i]

noncomputable def accepted (items : List Item) : List Item := items.foldl accept []

/-- What an accepted item does to the dictionaries. -/
def write (m : Merged) (i : Item) : Merged :=
  match i.type with
  | .addTask => { m with addTaskOps := keepHigher m.addTaskOps i.taskId i.entry }
  | .state => { m with mergedOps := keepHigher m.mergedOps i.key i.entry }
  | .link => { m with mergedOps := m.mergedOps.upsert i.key i.entry, linkEdges := m.linkEdges ++ [i.edge] }
  | .annotate | .requires | .produces => { m with mergedOps := m.mergedOps.upsert i.key i.entry }

def start : Merged := ⟨.empty, .empty, []⟩

def written (items : List Item) : Merged := items.foldl write start

theorem links_concat (items : List Item) (i : Item) :
    links (items ++ [i]) = links items ++ if i.type = .link then [i.edge] else [] := by
  by_cases h : i.type = .link <;> simp [links, h]

theorem written_concat (items : List Item) (i : Item) : written (items ++ [i]) = write (written items) i := by
  simp [written]

theorem linkEdges_written (items : List Item) : (written items).linkEdges = links items := by
  induction items using List.reverseRecOn with
  | nil => rfl
  | append_singleton items i ih =>
    rw [written_concat, links_concat, ← ih]
    cases h : i.type <;> simp [write, h]

theorem accepted_concat (items : List Item) (i : Item) : accepted (items ++ [i]) = accept (accepted items) i := by
  simp [accepted]

open Classical in
theorem written_accept (items : List Item) (i : Item) :
    written (accept items i) =
      if i.type = .link ∧ Cyclic (successors ((written items).linkEdges ++ [i.edge])) then written items
      else write (written items) i := by
  rw [linkEdges_written, accept]
  split
  next => rfl
  next => exact written_concat items i

theorem accepted_subset (items : List Item) : ∀ i ∈ accepted items, i ∈ items := by
  induction items using List.reverseRecOn with
  | nil => exact List.forall_mem_nil _
  | append_singleton items i ih =>
    intro j hj
    rw [accepted_concat, accept] at hj
    split at hj
    next => exact List.mem_append_left _ (ih j hj)
    next =>
      rcases List.mem_append.mp hj with hj | hj
      · exact List.mem_append_left _ (ih j hj)
      · exact List.mem_append_right _ hj

theorem successors_nil_acyclic : ¬Cyclic (successors ([] : List (Json × Json))) := by
  rintro ⟨v, hv⟩
  obtain ⟨w, hw, _⟩ := Relation.TransGen.head'_iff.mp hv
  exact List.not_mem_nil (edge_successors.mp hw)

/-- The accepted links are acyclic. -/
theorem accepted_acyclic (items : List Item) : ¬Cyclic (successors (links (accepted items))) := by
  induction items using List.reverseRecOn with
  | nil => exact successors_nil_acyclic
  | append_singleton items i ih =>
    rw [accepted_concat, accept]
    split
    next => exact ih
    next h =>
      rw [links_concat]
      split
      next hlink => exact fun hc => h ⟨hlink, hc⟩
      next => simpa using ih

/-- A well-formed operation is read as it is. -/
theorem item_of_wellFormed {patch : PlanPatch} {op : OpData} {type : OpType} {taskId : String}
    (h : op.WellFormed type taskId) :
    (item (patch, op)).type = type ∧ (item (patch, op)).taskId = taskId ∧
      (item (patch, op)).entry = ⟨op, patch.baseLamport, patch.actorId⟩ := by
  refine ⟨?_, ?_, rfl⟩
  · simp [item, h.opType, ofValue_value, Except.toOption]
  · simp [item, h.taskId]

theorem linkEdge_of_link {op : OpData} {taskId : String} (h : op.WellFormed .link taskId) :
    ∃ payload parent child, op.payload = some payload ∧ payload.get? "parent" = some parent ∧
      payload.get? "child" = some child ∧ op.linkEdge = some (parent, child) := by
  obtain ⟨payload, parent, child, hpayload, hparent, hchild⟩ := h.link rfl
  refine ⟨payload, parent, child, hpayload, hparent, hchild, ?_⟩
  simp [OpData.linkEdge, h.opType, payloadEdge, OpData.getPayload, hpayload, hparent, hchild]

open Classical in
/-- One round of the merge writes the item, unless it is a link that closes a cycle. -/
theorem mergeOp_eq {m : Merged} {patch : PlanPatch} {op : OpData} {type : OpType} {taskId : String}
    (h : op.WellFormed type taskId) (hlinks : ∀ edge ∈ m.linkEdges, HashableEdge edge)
    (hedge : ∀ edge, op.linkEdge = some edge → HashableEdge edge) :
    mergeOp m (patch, op) = .ok (if (item (patch, op)).type = .link ∧
      Cyclic (successors (m.linkEdges ++ [(item (patch, op)).edge])) then m else write m (item (patch, op))) := by
  obtain ⟨htype, htask, hentry⟩ := @item_of_wellFormed patch _ _ _ h
  have hread : patchField "op_type" op.opType = .ok type.value := by rw [h.opType]; rfl
  have hread' : patchField "task_id" op.taskId = .ok taskId := by rw [h.taskId]; rfl
  simp only [mergeOp, hread, hread', bind, Except.bind]
  cases type with
  | link =>
    obtain ⟨payload, parent, child, hpayload, hparent, hchild, hlink⟩ := linkEdge_of_link h
    obtain ⟨found, hfound, hiff⟩ := detectCycle_eq hlinks (hedge _ hlink)
    have hitem : (item (patch, op)).edge = (parent, child) := by simp [item, hlink]
    simp only [OpType.value, mergeLink, patchField, field, hpayload, hparent, hchild, hfound, Except.mapError, bind,
      Except.bind, hitem, htype, ← hiff, write, Item.key, htask, hentry]
    cases found <;> simp
  | addTask => simp [OpType.value, htype, write, htask, hentry]
  | state => simp [OpType.value, htype, write, Item.key, htask, hentry]
  | annotate => simp [OpType.value, htype, write, Item.key, htask, hentry]
  | requires => simp [OpType.value, htype, write, Item.key, htask, hentry]
  | produces => simp [OpType.value, htype, write, Item.key, htask, hentry]

theorem hashable_links_accepted {items : List Item} (h : ∀ i ∈ items, i.type = .link → HashableEdge i.edge) :
    ∀ edge ∈ links (accepted items), HashableEdge edge := by
  intro edge hedge
  obtain ⟨i, hi, rfl⟩ := List.mem_map.mp hedge
  obtain ⟨hmem, htype⟩ := List.mem_filter.mp hi
  exact h i (accepted_subset items i hmem) (of_decide_eq_true htype)

theorem linkEdge_eq_some_iff {patch : PlanPatch} {op : OpData} {type : OpType} {taskId : String}
    (h : op.WellFormed type taskId) {edge : Json × Json} :
    op.linkEdge = some edge ↔ (item (patch, op)).type = .link ∧ (item (patch, op)).edge = edge := by
  obtain ⟨htype, _, _⟩ := @item_of_wellFormed patch _ _ _ h
  rw [htype]
  by_cases hlink : type = .link
  · subst hlink
    obtain ⟨_, parent, child, _, _, _, hedge⟩ := linkEdge_of_link h
    simp [item, hedge]
  · have hne : op.opType ≠ some OpType.link.value := by
      rw [h.opType]
      exact fun he => hlink (value_injective (Option.some.inj he))
    simp [OpData.linkEdge, hne, hlink]

/-- Whether all operations are well formed. -/
def AllWellFormed (sources : List (PlanPatch × OpData)) : Prop :=
  ∀ source ∈ sources, ∃ type taskId, source.2.WellFormed type taskId

/-- Whether the ends of all links can be keys. -/
def AllHashable (sources : List (PlanPatch × OpData)) : Prop :=
  ∀ source ∈ sources, ∀ edge, source.2.linkEdge = some edge → HashableEdge edge

theorem hashable_items {sources : List (PlanPatch × OpData)} (hwf : AllWellFormed sources) (h : AllHashable sources) :
    ∀ i ∈ sources.map item, i.type = .link → HashableEdge i.edge := by
  intro i hi hlink
  obtain ⟨source, hsource, rfl⟩ := List.mem_map.mp hi
  obtain ⟨type, taskId, hop⟩ := hwf source hsource
  exact h source hsource _ ((linkEdge_eq_some_iff hop).mpr ⟨hlink, rfl⟩)

/-- The loop of the merge writes the accepted items. -/
theorem foldlM_mergeOp {sources : List (PlanPatch × OpData)} (hwf : AllWellFormed sources) (h : AllHashable sources) :
    sources.foldlM mergeOp start = .ok (written (accepted (sources.map item))) := by
  induction sources using List.reverseRecOn with
  | nil => rfl
  | append_singleton sources source ih =>
    have hwf' : AllWellFormed sources := fun s hs => hwf s (List.mem_append_left _ hs)
    have h' : AllHashable sources := fun s hs => h s (List.mem_append_left _ hs)
    have hmem : source ∈ sources ++ [source] := List.mem_append_right _ List.mem_cons_self
    obtain ⟨type, taskId, hop⟩ := hwf source hmem
    have hlinks := hashable_links_accepted (hashable_items hwf' h')
    rw [← linkEdges_written] at hlinks
    have hstep := @mergeOp_eq _ source.1 _ _ _ hop hlinks (h source hmem)
    rw [List.foldlM_append, ih hwf' h', List.map_append, List.map_singleton, accepted_concat, written_accept]
    simp only [List.foldlM_cons, List.foldlM_nil, bind, Except.bind, hstep]
    rfl

/-- An end that cannot be a key stops the merge. -/
theorem foldlM_mergeOp_error {sources : List (PlanPatch × OpData)} (hwf : AllWellFormed sources)
    (h : ¬AllHashable sources) : ∃ e, sources.foldlM mergeOp start = .error e := by
  induction sources using List.reverseRecOn with
  | nil => exact absurd (List.forall_mem_nil _) h
  | append_singleton sources source ih =>
    have hwf' : AllWellFormed sources := fun s hs => hwf s (List.mem_append_left _ hs)
    rw [List.foldlM_append]
    by_cases h' : AllHashable sources
    · have hmem : source ∈ sources ++ [source] := List.mem_append_right _ List.mem_cons_self
      obtain ⟨type, taskId, hop⟩ := hwf source hmem
      have hbad : ∃ edge, source.2.linkEdge = some edge ∧ ¬HashableEdge edge := by
        by_contra hgood
        push Not at hgood
        refine h fun s hs => ?_
        rcases List.mem_append.mp hs with hs | hs
        · exact h' s hs
        · exact List.mem_singleton.mp hs ▸ hgood
      obtain ⟨edge, hedge, hnot⟩ := hbad
      have htype : type = .link := by
        have hlink := ((@linkEdge_eq_some_iff source.1 _ _ _ hop _).mp hedge).1
        rwa [(item_of_wellFormed hop).1] at hlink
      subst htype
      obtain ⟨payload, parent, child, hpayload, hparent, hchild, hlink⟩ := linkEdge_of_link hop
      obtain rfl : edge = (parent, child) := Option.some.inj (hedge.symm.trans hlink)
      have hlinks := hashable_links_accepted (hashable_items hwf' h')
      rw [← linkEdges_written] at hlinks
      obtain ⟨value, hvalue⟩ := detectCycle_unhashable hlinks hnot
      refine ⟨.unhashable value, ?_⟩
      rw [foldlM_mergeOp hwf' h']
      simp [mergeOp, mergeLink, patchField, field, hop.opType, hop.taskId, OpType.value, hpayload, hparent, hchild,
        hvalue, Except.mapError, bind, Except.bind]
    · obtain ⟨e, he⟩ := ih hwf' h'
      exact ⟨e, by simp [he, bind, Except.bind]⟩

/-- The items of one type for one task. -/
def ofKey (items : List Item) (taskId : String) (type : OpType) : List Item :=
  items.filter fun i => i.taskId = taskId ∧ i.type = type

theorem ofKey_concat (items : List Item) (i : Item) (taskId : String) (type : OpType) :
    ofKey (items ++ [i]) taskId type =
      ofKey items taskId type ++ if i.taskId = taskId ∧ i.type = type then [i] else [] := by
  by_cases h : i.taskId = taskId ∧ i.type = type <;> simp [ofKey, h]

theorem key_eq_iff {i : Item} {taskId : String} {type : OpType} :
    (taskId, type.value) = i.key ↔ i.taskId = taskId ∧ i.type = type := by
  simp only [Item.key, Prod.mk.injEq]
  constructor
  · rintro ⟨rfl, hvalue⟩
    exact ⟨rfl, (value_injective hvalue).symm⟩
  · rintro ⟨rfl, rfl⟩
    exact ⟨rfl, rfl⟩

theorem get?_keepHigher {κ : Type} [DecidableEq κ] (ops : Table κ Entry) (key j : κ) (entry : Entry) :
    (keepHigher ops key entry).get? j =
      if j = key then
        match ops.get? key with
        | none => some entry
        | some old => if old.patchLamport < entry.patchLamport then some entry else some old
      else ops.get? j := by
  unfold keepHigher
  cases hold : ops.get? key with
  | none => simp
  | some old =>
    by_cases hlt : old.patchLamport < entry.patchLamport
    · simp [hlt]
    · by_cases hj : j = key
      · simp [hlt, hj, hold]
      · simp [hlt, hj]

/-- Links, annotations, requirements and products: the last one stays. -/
theorem get?_written_last (items : List Item) (taskId : String) {type : OpType} (hadd : type ≠ .addTask)
    (hstate : type ≠ .state) :
    (written items).mergedOps.get? (taskId, type.value) = (ofKey items taskId type).getLast?.map Item.entry := by
  induction items using List.reverseRecOn with
  | nil => rfl
  | append_singleton items i ih =>
    rw [written_concat, ofKey_concat]
    by_cases hkey : i.taskId = taskId ∧ i.type = type
    · obtain ⟨rfl, rfl⟩ := hkey
      cases htype : i.type <;> simp_all [write, Item.key]
    · have hne : (taskId, type.value) ≠ i.key := fun he => hkey (key_eq_iff.mp he)
      rw [if_neg hkey, List.append_nil, ← ih]
      cases htype : i.type <;> simp [write, htype, hne, get?_keepHigher]

/-- States: the first of the highest lamport stays. -/
theorem get?_written_state (items : List Item) (taskId : String) :
    (written items).mergedOps.get? (taskId, OpType.state.value) =
      (firstGreatest (fun i => i.entry.patchLamport) (ofKey items taskId .state)).map Item.entry := by
  induction items using List.reverseRecOn with
  | nil => rfl
  | append_singleton items i ih =>
    rw [written_concat, ofKey_concat]
    by_cases hkey : i.taskId = taskId ∧ i.type = .state
    · rw [if_pos hkey, firstGreatest_concat]
      obtain ⟨rfl, htype⟩ := hkey
      have hkey' : i.key = (i.taskId, OpType.state.value) := by simp [Item.key, htype]
      simp only [write, htype, hkey', get?_keepHigher, if_true, ih]
      cases firstGreatest (fun i => i.entry.patchLamport) (ofKey items i.taskId .state) with
      | none => rfl
      | some old => by_cases hlt : old.entry.patchLamport < i.entry.patchLamport <;> simp [hlt]
    · have hne : (taskId, OpType.state.value) ≠ i.key := fun he => hkey (key_eq_iff.mp he)
      rw [if_neg hkey, List.append_nil, ← ih]
      cases htype : i.type <;> simp [write, htype, hne, get?_keepHigher]

theorem get?_written_addTask (items : List Item) (taskId : String) :
    (written items).addTaskOps.get? taskId =
      (firstGreatest (fun i => i.entry.patchLamport) (ofKey items taskId .addTask)).map Item.entry := by
  induction items using List.reverseRecOn with
  | nil => rfl
  | append_singleton items i ih =>
    rw [written_concat, ofKey_concat]
    by_cases hkey : i.taskId = taskId ∧ i.type = .addTask
    · rw [if_pos hkey, firstGreatest_concat]
      obtain ⟨rfl, htype⟩ := hkey
      simp only [write, htype, get?_keepHigher, if_true, ih]
      cases firstGreatest (fun i => i.entry.patchLamport) (ofKey items i.taskId .addTask) with
      | none => rfl
      | some old => by_cases hlt : old.entry.patchLamport < i.entry.patchLamport <;> simp [hlt]
    · rw [if_neg hkey, List.append_nil, ← ih]
      cases htype : i.type with
      | addTask =>
        have hne : taskId ≠ i.taskId := fun he => hkey ⟨he.symm, htype⟩
        simp [write, htype, hne, get?_keepHigher]
      | state | link | annotate | requires | produces => simp [write, htype]

/-- Every kept entry is that of an item. -/
theorem mergedOps_source {items : List Item} {key : String × String} {entry : Entry}
    (h : (written items).mergedOps.get? key = some entry) :
    ∃ i ∈ items, i.key = key ∧ i.entry = entry ∧ i.type ≠ .addTask := by
  induction items using List.reverseRecOn with
  | nil => cases h
  | append_singleton items i ih =>
    have hold : (written items).mergedOps.get? key = some entry →
        ∃ j ∈ items ++ [i], j.key = key ∧ j.entry = entry ∧ j.type ≠ .addTask := by
      intro hget
      obtain ⟨j, hj, hrest⟩ := ih hget
      exact ⟨j, List.mem_append_left _ hj, hrest⟩
    have hmem : i ∈ items ++ [i] := List.mem_append_right _ List.mem_cons_self
    rw [written_concat] at h
    cases htype : i.type with
    | addTask =>
      simp only [write, htype] at h
      exact hold h
    | state =>
      simp only [write, htype, get?_keepHigher] at h
      by_cases hk : key = i.key
      · subst key
        have hnew : ∃ j ∈ items ++ [i], j.key = i.key ∧ j.entry = i.entry ∧ j.type ≠ .addTask :=
          ⟨i, hmem, rfl, rfl, by simp [htype]⟩
        cases hget : (written items).mergedOps.get? i.key with
        | none =>
          simp only [if_true, hget, Option.some.injEq] at h
          exact h ▸ hnew
        | some old =>
          simp only [if_true, hget] at h
          split at h
          next => exact Option.some.inj h ▸ hnew
          next => exact hold (hget.trans h)
      · rw [if_neg hk] at h
        exact hold h
    | link | annotate | requires | produces =>
      simp only [write, htype, Table.get?_upsert] at h
      by_cases hk : key = i.key
      · rw [if_pos hk] at h
        exact ⟨i, hmem, hk.symm, Option.some.inj h, by simp [htype]⟩
      · rw [if_neg hk] at h
        exact hold h

theorem addTaskOps_source {items : List Item} {taskId : String} {entry : Entry}
    (h : (written items).addTaskOps.get? taskId = some entry) :
    ∃ i ∈ items, i.taskId = taskId ∧ i.entry = entry ∧ i.type = .addTask := by
  rw [get?_written_addTask] at h
  obtain ⟨i, hi, hentry⟩ := Option.map_eq_some_iff.mp h
  obtain ⟨hmem, hkey, _⟩ := firstGreatest_filter_some hi
  obtain ⟨htask, htype⟩ := of_decide_eq_true hkey
  exact ⟨i, hmem, htask, hentry, htype⟩

/-- What an operation of the result shows, its id, thread and lamport aside. -/
def shown (op : PlanOp) : String × String × String × Table String Json :=
  (op.taskId, op.opType.value, op.actorId, op.payload)

/-- What an entry of the dictionaries shows. -/
def shownEntry (e : String × String × Entry) : String × String × String × Table String Json :=
  (e.1, e.2.1, e.2.2.actor, e.2.2.op.getPayload)

theorem toOps_ok (uuid4 : Nat → String) {count : Nat} {lamport : Int} {es : List (String × String × Entry)}
    (h : ∀ e ∈ es, ∃ type : OpType, e.2.1 = type.value) :
    ∃ ops, toOps uuid4 count lamport es = .ok ops ∧ ops.map shown = es.map shownEntry := by
  induction es generalizing count lamport with
  | nil => exact ⟨[], rfl, rfl⟩
  | cons e rest ih =>
    obtain ⟨⟨type, htype⟩, hrest⟩ := List.forall_mem_cons.mp h
    obtain ⟨ops, hops, hshown⟩ := @ih (count + 1) (lamport + 1) hrest
    obtain ⟨taskId, opType, entry⟩ := e
    obtain rfl : opType = type.value := htype
    let op : PlanOp := ⟨uuid4 count, "merged", lamport, entry.actor, type, taskId, entry.op.getPayload, 0⟩
    refine ⟨op :: ops, ?_, ?_⟩
    · simp [toOps, ofValue_value, hops, Except.mapError, bind, Except.bind, op]
    · rw [List.map_cons, List.map_cons, hshown]
      rfl

/-- The items of well-formed operations carry their types. -/
theorem opType_of_mem {sources : List (PlanPatch × OpData)} (hwf : AllWellFormed sources) {i : Item}
    (hi : i ∈ sources.map item) : i.entry.op.opType = some i.type.value := by
  obtain ⟨source, hsource, rfl⟩ := List.mem_map.mp hi
  obtain ⟨type, taskId, hop⟩ := hwf source hsource
  obtain ⟨htype, _, hentry⟩ := @item_of_wellFormed source.1 _ _ _ hop
  rw [htype]
  exact hop.opType

theorem mem_entries {m : Merged} {e : String × String × Entry} : e ∈ entries m ↔
    (m.addTaskOps.get? e.1 = some e.2.2 ∧ e.2.1 = e.2.2.op.opType.getD "") ∨
      (m.mergedOps.get? (e.1, e.2.1) = some e.2.2 ∧ e.2.1 ≠ OpType.addTask.value) := by
  obtain ⟨taskId, opType, entry⟩ := e
  rw [entries, List.mem_append, Table.get?_eq_some_iff, Table.get?_eq_some_iff]
  constructor
  · rintro (h | h)
    · obtain ⟨⟨t, e⟩, he, heq⟩ := List.mem_map.mp h
      cases heq
      exact Or.inl ⟨he, rfl⟩
    · obtain ⟨⟨⟨t, o⟩, e⟩, he, heq⟩ := List.mem_map.mp h
      cases heq
      obtain ⟨hmem, hne⟩ := List.mem_filter.mp he
      exact Or.inr ⟨hmem, of_decide_eq_true hne⟩
  · rintro (⟨he, ho⟩ | ⟨he, hne⟩)
    · have htype : opType = entry.op.opType.getD "" := ho
      exact Or.inl (List.mem_map.mpr ⟨(taskId, entry), he, by rw [htype]⟩)
    · refine Or.inr (List.mem_map.mpr ⟨((taskId, opType), entry), List.mem_filter.mpr ⟨he, ?_⟩, rfl⟩)
      exact decide_eq_true hne

end PatchValidator

end AgentNetwork.Plan
