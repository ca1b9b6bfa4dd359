import AgentNetwork.Plan.Merge

namespace AgentNetwork.Plan

open Relational StableSort PlanOp AutomergePlanStore

/-- The first operation of lowest lamport that makes the task exist. -/
def creatorOf (t : String) (ops : List PlanOp) : Option PlanOp := firstLeast PlanOp.lamport (ops.filter (creates t))

/-- The first STATE of highest lamport on the task. -/
def lastStateOf (t : String) (ops : List PlanOp) : Option PlanOp := firstGreatest PlanOp.lamport (ops.filter (setsState t))

/-- The first ANNOTATE of highest lamport that carries the key. -/
def annotatorOf (t k : String) (ops : List PlanOp) : Option PlanOp :=
  firstGreatest PlanOp.lamport (ops.filter (carries t k))

/-- A log in lamport order shows each task as its earliest creator and its latest
state make it. -/
theorem Shows.sorted_task {ops : List PlanOp} {doc : CRDTDocument} (h : Shows (sortOn PlanOp.lamport ops) doc)
    (t : String) : doc.tasks.get? t = settle (creatorOf t ops) (lastStateOf t ops) := by
  rw [h.tasks, foldl_taskStep, filter_sortOn, filter_sortOn, head?_sortOn, firstGreatest_sortOn]
  rfl

theorem Shows.sorted_annotationOf {ops : List PlanOp} {doc : CRDTDocument} (h : Shows (sortOn PlanOp.lamport ops) doc)
    (t k : String) : doc.annotationOf t k = (annotatorOf t k ops).map (annotationFrom k) := by
  rw [h.annotations, foldl_annotationStep, filter_sortOn, firstGreatest_sortOn]
  rfl

theorem Shows.sorted_edge {ops : List PlanOp} {doc : CRDTDocument} (h : Shows (sortOn PlanOp.lamport ops) doc)
    (p c : Json) : doc.HasEdge p c ↔ ∃ op ∈ ops, op.Links p c := by
  simp only [h.edges, mem_sortOn]

section Deciders

variable {ops : List PlanOp} {t k : String} {op : PlanOp}

theorem creatorOf_some (h : creatorOf t ops = some op) :
    op ∈ ops ∧ op.creates t = true ∧ ∀ x ∈ ops, x.creates t = true → op.lamport ≤ x.lamport :=
  firstLeast_filter_some h

theorem creatorOf_none : creatorOf t ops = none ↔ ∀ x ∈ ops, ¬x.creates t = true :=
  firstLeast_eq_none.trans List.filter_eq_nil_iff

theorem lastStateOf_some (h : lastStateOf t ops = some op) :
    op ∈ ops ∧ op.setsState t = true ∧ ∀ x ∈ ops, x.setsState t = true → x.lamport ≤ op.lamport :=
  firstGreatest_filter_some h

theorem lastStateOf_none : lastStateOf t ops = none ↔ ∀ x ∈ ops, ¬x.setsState t = true :=
  firstGreatest_eq_none.trans List.filter_eq_nil_iff

theorem annotatorOf_some (h : annotatorOf t k ops = some op) :
    op ∈ ops ∧ op.carries t k = true ∧ ∀ x ∈ ops, x.carries t k = true → x.lamport ≤ op.lamport :=
  firstGreatest_filter_some h

theorem annotatorOf_none : annotatorOf t k ops = none ↔ ∀ x ∈ ops, ¬x.carries t k = true :=
  firstGreatest_eq_none.trans List.filter_eq_nil_iff

end Deciders

/-- No two operations share a lamport. -/
def Distinct (ops : List PlanOp) : Prop := ∀ x ∈ ops, ∀ y ∈ ops, x.lamport = y.lamport → x = y

/-- The state, thread, annotations and edges that the set of operations calls for:
the last writer of each wins. -/
structure LastWriterWins (ops : List PlanOp) (doc : CRDTDocument) : Prop where
  exists_iff : ∀ t, doc.tasks.contains t = true ↔ ∃ x ∈ ops, x.creates t = true
  state : ∀ t task, doc.tasks.get? t = some task → ∀ w ∈ ops, w.setsState t = true →
    (∀ x ∈ ops, x.setsState t = true → x.lamport ≤ w.lamport) → w.payload.get? "state" = some task.state
  draft : ∀ t task, doc.tasks.get? t = some task → (∀ x ∈ ops, ¬x.setsState t = true) →
    task.state = .str TaskState.draft.value
  thread : ∀ t task, doc.tasks.get? t = some task → ∀ c ∈ ops, c.creates t = true →
    (∀ x ∈ ops, x.creates t = true → c.lamport ≤ x.lamport) → task.threadId = c.threadId
  annotated : ∀ t k, ∀ w ∈ ops, w.carries t k = true →
    (∀ x ∈ ops, x.carries t k = true → x.lamport ≤ w.lamport) →
      (doc.annotationOf t k).map Annotation.value = w.payload.get? k
  unannotated : ∀ t k, (∀ x ∈ ops, ¬x.carries t k = true) → doc.annotationOf t k = none
  edges : ∀ p c, doc.HasEdge p c ↔ ∃ op ∈ ops, op.Links p c

theorem stateValue_of_setsState {op : PlanOp} {t : String} (hw : op.WellFormed) (h : op.setsState t = true) :
    op.payload.get? "state" = some op.stateValue := by
  simp only [setsState, decide_eq_true_eq] at h
  obtain ⟨v, hv⟩ := hw.state h.2
  simp [stateValue, h.2, hv]

theorem stateValue_of_not_setsState {op : PlanOp} {t : String} (hc : op.creates t = true) (h : ¬op.setsState t = true) :
    op.stateValue = .str TaskState.draft.value := by
  simp only [creates, decide_eq_true_eq] at hc
  simp only [setsState, decide_eq_true_eq] at h
  have hadd : op.opType = .addTask := hc.2.resolve_right fun hs => h ⟨hc.1, hs⟩
  simp [stateValue, hadd]

/-- With distinct lamports the latest STATE decides, also where it creates the task. -/
theorem settle_state {ops : List PlanOp} {t : String} {c w : PlanOp} (hd : Distinct ops) (hc : creatorOf t ops = some c)
    (hw : lastStateOf t ops = some w) :
    ∃ task, settle (some c) (some w) = some task ∧ task.state = w.stateValue ∧ task.threadId = c.threadId := by
  obtain ⟨hcm, _, hlow⟩ := creatorOf_some hc
  obtain ⟨hwm, hws, _⟩ := lastStateOf_some hw
  have hle := hlow w hwm (creates_of_setsState hws)
  unfold settle
  simp only
  by_cases hlt : c.lamport < w.lamport
  · rw [if_pos hlt]
    exact ⟨_, rfl, rfl, rfl⟩
  · have heq : c = w := hd c hcm w hwm (by omega)
    rw [if_neg hlt]
    exact ⟨_, rfl, by rw [heq]; rfl, rfl⟩

theorem Shows.lastWriterWins {ops : List PlanOp} {doc : CRDTDocument} (h : Shows (sortOn PlanOp.lamport ops) doc)
    (hwell : ∀ op ∈ ops, op.WellFormed) (hd : Distinct ops) : LastWriterWins ops doc where
  exists_iff t := by
    rw [Table.contains, h.sorted_task]
    cases hc : creatorOf t ops with
    | none =>
      have hnone := creatorOf_none.mp hc
      simp only [settle, Option.isSome_none, Bool.false_eq_true, false_iff, not_exists, not_and]
      exact hnone
    | some c =>
      obtain ⟨hm, hcreates, _⟩ := creatorOf_some hc
      constructor
      · exact fun _ => ⟨c, hm, hcreates⟩
      · intro _
        cases lastStateOf t ops with
        | none => rfl
        | some w =>
          simp only [settle]
          split <;> rfl
  state t task hg w hm hs hmax := by
    rw [h.sorted_task] at hg
    cases hc : creatorOf t ops with
    | none => exact absurd (creates_of_setsState hs) (creatorOf_none.mp hc w hm)
    | some c =>
      cases hw : lastStateOf t ops with
      | none => exact absurd hs (lastStateOf_none.mp hw w hm)
      | some w' =>
        obtain ⟨hm', hs', hmax'⟩ := lastStateOf_some hw
        have heq : w' = w := hd w' hm' w hm (le_antisymm (hmax w' hm' hs') (hmax' w hm hs))
        obtain ⟨task', hsettle, hstate, _⟩ := settle_state hd hc hw
        rw [hc, hw, hsettle] at hg
        cases Option.some.inj hg
        rw [hstate, heq]
        exact stateValue_of_setsState (hwell w hm) hs
  draft t task hg hnone := by
    rw [h.sorted_task] at hg
    have hw : lastStateOf t ops = none := lastStateOf_none.mpr hnone
    cases hc : creatorOf t ops with
    | none => simp [hc, settle] at hg
    | some c =>
      obtain ⟨hm, hcreates, _⟩ := creatorOf_some hc
      rw [hc, hw] at hg
      cases Option.some.inj hg
      exact stateValue_of_not_setsState hcreates (hnone c hm)
  thread t task hg c hm hcreates hmin := by
    rw [h.sorted_task] at hg
    cases hc : creatorOf t ops with
    | none => exact absurd hcreates (creatorOf_none.mp hc c hm)
    | some c' =>
      obtain ⟨hm', hcreates', hmin'⟩ := creatorOf_some hc
      have heq : c' = c := hd c' hm' c hm (le_antisymm (hmin' c hm hcreates) (hmin c' hm' hcreates'))
      rw [hc] at hg
      cases hw : lastStateOf t ops with
      | none =>
        rw [hw] at hg
        cases Option.some.inj hg
        rw [heq]
        rfl
      | some w =>
        obtain ⟨task', hsettle, _, hthread⟩ := settle_state hd hc hw
        rw [hw, hsettle] at hg
        cases Option.some.inj hg
        rw [hthread, heq]
  annotated t k w hm hcarries hmax := by
    rw [h.sorted_annotationOf]
    cases ha : annotatorOf t k ops with
    | none => exact absurd hcarries (annotatorOf_none.mp ha w hm)
    | some w' =>
      obtain ⟨hm', hcarries', hmax'⟩ := annotatorOf_some ha
      have heq : w' = w := hd w' hm' w hm (le_antisymm (hmax w' hm' hcarries') (hmax' w hm hcarries))
      simp only [carries, decide_eq_true_eq] at hcarries
      obtain ⟨v, hv⟩ := Table.contains_eq_true_iff.mp hcarries.2.2
      simp [annotationFrom, heq, hv]
  unannotated t k hnone := by
    rw [h.sorted_annotationOf]
    have ha : annotatorOf t k ops = none := annotatorOf_none.mpr hnone
    rw [ha]
    rfl
  edges := h.sorted_edge

/-- After a merge the document holds the last-writer-wins state of the union of
the two logs. -/
theorem merge_lastWriterWins {log peerLog : List PlanOp} {store : AutomergePlanStore} {peer : CRDTDocument}
    (h : Holds log store) (hpeer : peer.ops = peerLog.map toDict) (hw : ∀ op ∈ peerLog, op.WellFormed)
    (hd : Distinct (union log peerLog)) :
    ∃ store', mergeWithPeer peer store = (.ok (), store') ∧ LastWriterWins (union log peerLog) store'.doc := by
  obtain ⟨store', hmerge, hholds, hshows⟩ := h.merge hpeer hw
  refine ⟨store', hmerge, hshows.lastWriterWins ?_ hd⟩
  intro op hm
  exact hholds.wellFormed op ((mem_sortOn _).mpr hm)

/-- For concrete runs: an operation on the task "task" without a payload. -/
def sampleOp (opId threadId : String) (lamport : Int) (opType : OpType) : PlanOp :=
  ⟨opId, threadId, lamport, "actor", opType, "task", .empty, 0⟩

theorem sampleOp_wellFormed (opId threadId : String) (lamport : Int) : (sampleOp opId threadId lamport .addTask).WellFormed :=
  ⟨nofun, nofun⟩

/-- A peer that adds the task on another thread, but later, leaves the thread. -/
theorem merge_lastWriterWins_two_threads :
    let here := sampleOp "a" "north" 1 .addTask
    let there := sampleOp "b" "south" 2 .addTask
    let peer := (appendOp there init).2.doc
    ∃ store', mergeWithPeer peer (appendOp here init).2 = (.ok (), store') ∧ LastWriterWins [here, there] store'.doc := by
  obtain ⟨store, happend, hholds, _⟩ := holds_init.append (shows_nil init.doc) (sampleOp_wellFormed "a" "north" 1)
  have hstore : (appendOp (sampleOp "a" "north" 1 .addTask) init).2 = store := by rw [happend]
  have hwell : ∀ op ∈ [sampleOp "b" "south" 2 .addTask], op.WellFormed := by
    intro op hm
    rw [List.mem_singleton.mp hm]
    exact sampleOp_wellFormed "b" "south" 2
  have hdistinct : Distinct (union [sampleOp "a" "north" 1 .addTask] [sampleOp "b" "south" 2 .addTask]) := by
    have heither (x : PlanOp) (hx : x ∈ union [sampleOp "a" "north" 1 .addTask] [sampleOp "b" "south" 2 .addTask]) :
        x = sampleOp "a" "north" 1 .addTask ∨ x = sampleOp "b" "south" 2 .addTask := by
      obtain hx | ⟨hx, _⟩ := mem_union.mp hx
      · exact Or.inl (List.mem_singleton.mp hx)
      · exact Or.inr (List.mem_singleton.mp hx)
    intro x hx y hy
    obtain rfl | rfl := heither x hx <;> obtain rfl | rfl := heither y hy <;> simp [sampleOp]
  simp only [hstore]
  exact merge_lastWriterWins hholds rfl hwell hdistinct

end AgentNetwork.Plan
