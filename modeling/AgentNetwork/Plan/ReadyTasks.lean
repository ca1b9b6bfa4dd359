import AgentNetwork.Library.Grounding
import AgentNetwork.Plan.StoreViews

/-! Which tasks `get_ready_tasks` gives, and what is finished when they are executed. -/

namespace AgentNetwork.Plan.StoreViews

open Relational Transition Relation TopologicalOrder Grounding AutomergePlanStore

section Indexes

theorem mem_addId {κ : Type} [DecidableEq κ] {index : Table κ (ListSet String)} {key k : κ} {taskId id : String} :
    id ∈ ((addId index key taskId).get? k).getD .empty ↔ (k = key ∧ id = taskId) ∨ id ∈ (index.get? k).getD .empty := by
  rw [addId, Table.get?_upsert]
  by_cases hk : k = key
  · subst hk
    rw [if_pos rfl, Option.getD_some, ListSet.mem_add]
    simp
  · rw [if_neg hk]
    simp [hk]

theorem mem_buildIndexes {entries : List (String × Task)} {byState : Table Json (ListSet String)}
    {byThread : Table String (ListSet String)} {indexes : Table Json (ListSet String) × Table String (ListSet String)}
    (h : buildIndexes entries byState byThread = .ok indexes) (state : Json) (id : String) :
    id ∈ (indexes.1.get? state).getD .empty ↔
      id ∈ (byState.get? state).getD .empty ∨ ∃ task, (id, task) ∈ entries ∧ task.state = state := by
  induction entries generalizing byState byThread with
  | nil =>
    cases h
    simp
  | cons entry rest ih =>
    obtain ⟨taskId, task⟩ := entry
    rw [buildIndexes] at h
    split at h
    next =>
      rw [ih h, mem_addId]
      constructor
      · rintro ((⟨rfl, rfl⟩ | hold) | ⟨other, hother, rfl⟩)
        · exact .inr ⟨task, List.mem_cons_self, rfl⟩
        · exact .inl hold
        · exact .inr ⟨other, List.mem_cons_of_mem _ hother, rfl⟩
      · rintro (hold | ⟨other, hother, rfl⟩)
        · exact .inl (.inr hold)
        · rcases List.mem_cons.mp hother with heq | hrest
          · cases heq
            exact .inl (.inl ⟨rfl, rfl⟩)
          · exact .inr ⟨other, hrest, rfl⟩
    next => cases h

theorem mem_addParents {parent u v : Json} {children : List Json} {reverseEdges index : Table Json (List Json)}
    (h : addParents parent children reverseEdges = .ok index) :
    u ∈ (index.get? v).getD [] ↔ u ∈ (reverseEdges.get? v).getD [] ∨ (u = parent ∧ v ∈ children) := by
  induction children generalizing reverseEdges with
  | nil =>
    cases h
    simp
  | cons child rest ih =>
    rw [addParents] at h
    split at h
    next =>
      rw [ih h, Table.get?_upsert, List.mem_cons]
      by_cases hv : v = child
      · subst hv
        rw [if_pos rfl, Option.getD_some, List.mem_append, List.mem_singleton]
        tauto
      · rw [if_neg hv]
        tauto
    next => cases h

theorem mem_buildReverseEdges {u v : Json} {entries : List (Json × List Json)} {reverseEdges index : Table Json (List Json)}
    (h : buildReverseEdges entries reverseEdges = .ok index) :
    u ∈ (index.get? v).getD [] ↔ u ∈ (reverseEdges.get? v).getD [] ∨ ∃ children, (u, children) ∈ entries ∧ v ∈ children := by
  induction entries generalizing reverseEdges with
  | nil =>
    cases h
    simp
  | cons entry rest ih =>
    obtain ⟨parent, children⟩ := entry
    obtain ⟨first, hfirst, hrest⟩ := Transactional.except_bind_ok.mp h
    rw [ih hrest, mem_addParents hfirst, or_assoc]
    refine or_congr_right ?_
    constructor
    · rintro (⟨rfl, hv⟩ | ⟨others, hothers, hv⟩)
      · exact ⟨children, List.mem_cons_self, hv⟩
      · exact ⟨others, List.mem_cons_of_mem _ hothers, hv⟩
    · rintro ⟨others, hothers, hv⟩
      rcases List.mem_cons.mp hothers with heq | hin
      · cases heq
        exact .inl ⟨rfl, hv⟩
      · exact .inr ⟨others, hin, hv⟩

end Indexes

/-- A known task that is not finished. -/
def Unfinished (doc : CRDTDocument) (taskId : String) : Prop :=
  ∃ task, doc.tasks.get? taskId = some task ∧ task.state ∉ [.str "VERIFIED", .str "FINAL"]

def Draft (doc : CRDTDocument) (taskId : String) : Prop := ∃ task, doc.tasks.get? taskId = some task ∧ task.state = .str "DRAFT"

/-- An unfinished task that is a parent of the first. -/
def WaitsFor (doc : CRDTDocument) (taskId parentId : String) : Prop :=
  Unfinished doc parentId ∧ ∃ children, doc.edges.get? (.str parentId) = some children ∧ .str taskId ∈ children

/-- Each task is kept under its own id. -/
def NamedTasks (doc : CRDTDocument) : Prop := ∀ id task, doc.tasks.get? id = some task → task.taskId = id

def Ready (doc : CRDTDocument) (taskId : String) : Prop := Draft doc taskId ∧ ∀ parentId, ¬WaitsFor doc taskId parentId

section Fresh

variable {doc : CRDTDocument} {fresh : Views} {order : SetOrder}

theorem Draft.unfinished {taskId : String} (h : Draft doc taskId) : Unfinished doc taskId := by
  obtain ⟨task, htask, hstate⟩ := h
  exact ⟨task, htask, by simp [hstate]⟩

theorem init_task (h : Views.init doc = .ok fresh) : fresh.task.tasks = doc.tasks := by
  obtain ⟨task, htask, h⟩ := Transactional.except_bind_ok.mp h
  obtain ⟨graph, _, h⟩ := Transactional.except_bind_ok.mp h
  obtain ⟨indexes, _, htask⟩ := Transactional.except_bind_ok.mp htask
  cases h
  cases htask
  rfl

theorem mem_byState (h : Views.init doc = .ok fresh) {state : Json} {id : String} :
    id ∈ (fresh.task.byState.get? state).getD .empty ↔ ∃ task, doc.tasks.get? id = some task ∧ task.state = state := by
  obtain ⟨task, htask, h⟩ := Transactional.except_bind_ok.mp h
  obtain ⟨graph, _, h⟩ := Transactional.except_bind_ok.mp h
  obtain ⟨indexes, hindexes, htask⟩ := Transactional.except_bind_ok.mp htask
  cases h
  cases htask
  rw [mem_buildIndexes hindexes, Table.get?_empty]
  simp only [Option.getD_none, ListSet.not_mem_empty, false_or, Table.get?_eq_some_iff]

theorem mem_parents (h : Views.init doc = .ok fresh) {u v : Json} :
    u ∈ fresh.graph.getParents v ↔ ∃ children, doc.edges.get? u = some children ∧ v ∈ children := by
  obtain ⟨task, _, h⟩ := Transactional.except_bind_ok.mp h
  obtain ⟨graph, hgraph, h⟩ := Transactional.except_bind_ok.mp h
  obtain ⟨index, hindex, hgraph⟩ := Transactional.except_bind_ok.mp hgraph
  cases h
  cases hgraph
  rw [GraphView.getParents, mem_buildReverseEdges hindex, Table.get?_empty]
  simp only [Option.getD_none, List.not_mem_nil, false_or, Table.get?_eq_some_iff]

theorem blocks_iff (h : Views.init doc = .ok fresh) {parent : Json} :
    fresh.task.blocks parent = true ↔ ∃ parentId, parent = .str parentId ∧ Unfinished doc parentId := by
  unfold TaskView.blocks
  rw [init_task h]
  cases parent with
  | str parentId =>
    simp only [Json.str.injEq, exists_eq_left', Unfinished]
    cases htask : doc.tasks.get? parentId with
    | none => simp
    | some task => simp
  | _ => simp

theorem mem_getTasksByState (h : Views.init doc = .ok fresh) (hnamed : NamedTasks doc) {state : String} {task : Task} :
    task ∈ fresh.task.getTasksByState order state ↔ doc.tasks.get? task.taskId = some task ∧ task.state = .str state := by
  rw [TaskView.getTasksByState, List.mem_filterMap, init_task h]
  constructor
  · rintro ⟨id, hid, htask⟩
    obtain ⟨other, hother, hstate⟩ := (mem_byState h).mp ((order.mem_ids _ id).mp hid)
    obtain rfl := Option.some.inj (hother.symm.trans htask)
    rw [hnamed id other htask]
    exact ⟨htask, hstate⟩
  · rintro ⟨htask, hstate⟩
    exact ⟨task.taskId, (order.mem_ids _ _).mpr ((mem_byState h).mpr ⟨task, htask, hstate⟩), htask⟩

/-- The ready tasks are the drafts that wait for none. -/
theorem mem_getReadyTasks (h : Views.init doc = .ok fresh) (hnamed : NamedTasks doc) {task : Task} :
    task ∈ fresh.task.getReadyTasks order fresh.graph ↔ doc.tasks.get? task.taskId = some task ∧ Ready doc task.taskId := by
  rw [TaskView.getReadyTasks, List.mem_filter, mem_getTasksByState h hnamed, Bool.not_eq_true', List.any_eq_false]
  have hwaits : (∀ parent ∈ fresh.graph.getParents (.str task.taskId), ¬fresh.task.blocks parent = true) ↔
      ∀ parentId, ¬WaitsFor doc task.taskId parentId := by
    constructor
    · rintro hnone parentId ⟨hunfinished, hedge⟩
      exact hnone _ ((mem_parents h).mpr hedge) ((blocks_iff h).mpr ⟨parentId, rfl, hunfinished⟩)
    · intro hnone parent hparent hblocks
      obtain ⟨parentId, rfl, hunfinished⟩ := (blocks_iff h).mp hblocks
      exact hnone parentId ⟨hunfinished, (mem_parents h).mp hparent⟩
  rw [hwaits]
  constructor
  · rintro ⟨⟨htask, hstate⟩, hnone⟩
    exact ⟨htask, ⟨task, htask, hstate⟩, hnone⟩
  · rintro ⟨htask, ⟨other, hother, hstate⟩, hnone⟩
    obtain rfl := Option.some.inj (htask.symm.trans hother)
    exact ⟨⟨htask, hstate⟩, hnone⟩

theorem nodup_getReadyTasks (h : Views.init doc = .ok fresh) (hnamed : NamedTasks doc) :
    (fresh.task.getReadyTasks order fresh.graph).Nodup := by
  refine List.Nodup.filter _ (List.Nodup.filterMap ?_ (ListSet.nodup _))
  intro id id' task htask htask'
  rw [init_task h] at htask htask'
  exact (hnamed id task htask).symm.trans (hnamed id' task htask')

end Fresh

section Named

variable {doc doc' : CRDTDocument} {w w' : ViewedStore}

theorem NamedTasks.upsert (h : NamedTasks doc) {taskId : String} {task : Task} (htask : task.taskId = taskId) :
    NamedTasks { doc with tasks := doc.tasks.upsert taskId task } := by
  intro id other hother
  rw [Table.get?_upsert] at hother
  split at hother
  next hid =>
    cases hother
    exact htask.trans hid.symm
  next => exact h id other hother

theorem NamedTasks.applyToState (h : NamedTasks doc) {op : PlanOp} (happly : applyToState doc op = .ok doc') :
    NamedTasks doc' := by
  unfold AutomergePlanStore.applyToState at happly
  split at happly
  next =>
    cases happly
    unfold addTask
    split
    next => exact h
    next => exact h.upsert rfl
  next =>
    unfold setState at happly
    split at happly
    next =>
      obtain ⟨state, _, happly⟩ := Transactional.except_bind_ok.mp happly
      cases happly
      exact h.upsert rfl
    next task htask =>
      split at happly
      next =>
        obtain ⟨state, _, happly⟩ := Transactional.except_bind_ok.mp happly
        cases happly
        exact h.upsert (h op.taskId task htask)
      next =>
        cases happly
        exact h
  next =>
    obtain ⟨parent, _, happly⟩ := Transactional.except_bind_ok.mp happly
    obtain ⟨child, _, happly⟩ := Transactional.except_bind_ok.mp happly
    dsimp only at happly
    split at happly
    next =>
      cases happly
      exact h
    next => cases happly
  next =>
    cases happly
    exact h
  all_goals
    cases happly
    exact h

theorem NamedTasks.replayOps (h : NamedTasks doc) (ops : List OpDict) : NamedTasks (replayOps ops doc).2 := by
  induction ops generalizing doc with
  | nil => exact h
  | cons d rest ih =>
    rw [AutomergePlanStore.replayOps]
    split
    next happly =>
      obtain ⟨op, _, happly⟩ := Transactional.except_bind_ok.mp happly
      exact ih (h.applyToState happly)
    next => exact h

theorem namedTasks_rebuilt (doc : CRDTDocument) : NamedTasks (rebuildStateFromOps doc).2 := by
  have hempty : NamedTasks { doc with tasks := .empty, edges := .empty, annotations := .empty } := by
    intro id task htask
    rw [Table.get?_empty] at htask
    cases htask
  exact hempty.replayOps doc.ops

/-- The document that is loaded keeps its tasks under their own ids. -/
def Call.Named : Call → Prop
  | .loadFromData data => NamedTasks data
  | _ => True

theorem call_named {c : Call} (h : NamedTasks w.store.doc) (hc : c.Named) : NamedTasks (w.call c).2.store.doc := by
  cases c with
  | appendOp op =>
    rw [ViewedStore.call]
    unfold ViewedStore.appendOp
    split
    next => exact h
    next hnew =>
      rw [AutomergePlanStore.appendOp, if_neg hnew]
      dsimp only
      cases happly : applyToState { w.store.doc with ops := w.store.doc.ops ++ [op.toDict], version := w.store.doc.version + 1 } op with
      | error e => exact h
      | ok doc =>
        rw [store_updateViews]
        have hlogged : NamedTasks { w.store.doc with ops := w.store.doc.ops ++ [op.toDict], version := w.store.doc.version + 1 } := h
        exact hlogged.applyToState happly
  | mergeWithPeer peer =>
    rw [ViewedStore.call]
    unfold ViewedStore.mergeWithPeer
    split
    next => exact h
    next =>
      dsimp only
      split
      next => exact h
      next sorted _ =>
        have hnamed := namedTasks_rebuilt { w.store.doc with ops := sorted }
        rcases hrebuild : rebuildStateFromOps { w.store.doc with ops := sorted } with ⟨outcome, doc⟩
        rw [hrebuild] at hnamed
        cases outcome with
        | error e => exact hnamed
        | ok _ =>
          have hstore := store_updateViews (w.replace ⟨doc, w.store.opIds ++
            (newOps w.store.opIds peer.ops).map fun d => d.opId.getD ""⟩)
          dsimp only
          split
          next hresult =>
            rw [hresult] at hstore
            rw [hstore]
            exact hnamed
          next hresult =>
            rw [hresult] at hstore
            dsimp only at hstore ⊢
            rw [hstore]
            exact hnamed
  | loadFromData data =>
    rw [ViewedStore.call, ViewedStore.loadFromData]
    have hdoc : (AutomergePlanStore.loadFromData data w.store).2.doc = data := by
      unfold AutomergePlanStore.loadFromData
      split <;> rfl
    exact hdoc.symm ▸ hc

end Named

section Waiting

variable {doc : CRDTDocument} {taskId : String}

theorem Unfinished.mem_keys (h : Unfinished doc taskId) : taskId ∈ doc.tasks.keys := by
  obtain ⟨task, htask, _⟩ := h
  exact Table.mem_keys_iff.mpr ⟨task, htask⟩

/-- A draft waits, at the end, for a task that is ready, for one that is under way, or in
a circle. -/
theorem Draft.waits_for (h : Draft doc taskId) : ∃ other, ReflTransGen (WaitsFor doc) taskId other ∧
    (Ready doc other ∨ (Unfinished doc other ∧ ¬Draft doc other) ∨ TransGen (WaitsFor doc) other other) := by
  classical
  by_contra hnone
  push Not at hnone
  let reached : Finset String := doc.tasks.keys.toFinset.filter fun id => Unfinished doc id ∧ ReflTransGen (WaitsFor doc) taskId id
  have hmem : ∀ id, id ∈ reached ↔ Unfinished doc id ∧ ReflTransGen (WaitsFor doc) taskId id := by
    intro id
    rw [Finset.mem_filter, List.mem_toFinset]
    exact and_iff_right_of_imp fun hid => hid.1.mem_keys
  -- each of the tasks that are reached waits for another of them
  have hback : ∀ id ∈ reached, ∃ parentId ∈ reached, WaitsFor doc id parentId ∧ ReflTransGen (WaitsFor doc) taskId id := by
    intro id hid
    obtain ⟨hunfinished, hreach⟩ := (hmem id).mp hid
    obtain ⟨hready, hunderway, _⟩ := hnone id hreach
    have hdraft : Draft doc id := hunderway hunfinished
    have hwaits : ∃ parentId, WaitsFor doc id parentId := by
      by_contra hno
      exact hready ⟨hdraft, not_exists.mp hno⟩
    obtain ⟨parentId, hparent⟩ := hwaits
    exact ⟨parentId, (hmem parentId).mpr ⟨hparent.1, hreach.tail hparent⟩, hparent, hreach⟩
  obtain ⟨id, hcycle⟩ := cycle_of_predecessors (r := fun parentId id => WaitsFor doc id parentId ∧ ReflTransGen (WaitsFor doc) taskId id)
    ((hmem taskId).mpr ⟨h.unfinished, .refl⟩) hback
  have hreach : ReflTransGen (WaitsFor doc) taskId id := by
    obtain ⟨other, _, hlast⟩ := TransGen.tail'_iff.mp hcycle
    exact hlast.2
  have hswapped : TransGen (Function.swap (WaitsFor doc)) id id := TransGen.mono (fun _ _ hedge => hedge.1) id id hcycle
  exact (hnone id hreach).2.2 (transGen_swap.mp hswapped)

end Waiting

theorem shows_named_of_run {steps : List (ViewedStore × Call × ViewedStore)} {w : ViewedStore}
    (hrun : Trace ViewedStore.Step .init steps w) (hkeeps : ∀ e ∈ steps, e.2.1.KeepsViews e.1)
    (hnamed : ∀ e ∈ steps, e.2.1.Named) : w.ShowsDocument ∧ NamedTasks w.store.doc := by
  refine @Trace.invariant _ _ _ _ _ _ (fun w c => c.KeepsViews w ∧ c.Named)
    (fun w => w.ShowsDocument ∧ NamedTasks w.store.doc) hrun ⟨init_showsDocument, ?_⟩ ?_ ?_
  · exact namedTasks_rebuilt ⟨.empty, .empty, .empty, [], 0⟩
  · rintro w c w' ⟨hshows, htasks⟩ ⟨hkeeps, hnamed⟩ rfl
    exact ⟨(call_shows hshows c).mpr hkeeps, call_named htasks hnamed⟩
  · exact fun e he => ⟨hkeeps e he, hnamed e he⟩

/-- The views of a store that show its document give its ready tasks. -/
theorem mem_ready_of_shows {w : ViewedStore} (hshows : w.ShowsDocument) (hnamed : NamedTasks w.store.doc) (order : SetOrder)
    (task : Task) : task ∈ w.views.task.getReadyTasks order w.views.graph ↔
      w.store.doc.tasks.get? task.taskId = some task ∧ Ready w.store.doc task.taskId := by
  obtain ⟨fresh, hfresh, hsame⟩ := hshows
  have hready : w.views.task.getReadyTasks order w.views.graph = fresh.task.getReadyTasks order fresh.graph :=
    Answer.tasks.inj (hsame order .readyTasks)
  rw [hready]
  exact mem_getReadyTasks hfresh hnamed

/-- In every state of the store the ready tasks are, each once, the drafts all of whose known
parents are finished, and a draft that is not among them waits, at the end, for one that is,
for a task under way, or in a circle. -/
theorem ready_tasks_exact {steps : List (ViewedStore × Call × ViewedStore)} {w : ViewedStore}
    (hrun : Trace ViewedStore.Step .init steps w) (hkeeps : ∀ e ∈ steps, e.2.1.KeepsViews e.1)
    (hnamed : ∀ e ∈ steps, e.2.1.Named) (order : SetOrder) :
    let ready := w.views.task.getReadyTasks order w.views.graph
    ready.Nodup ∧
    (∀ task, task ∈ ready ↔ w.store.doc.tasks.get? task.taskId = some task ∧ task.state = .str "DRAFT" ∧
      ∀ parentId, ¬WaitsFor w.store.doc task.taskId parentId) ∧
    ∀ taskId, Draft w.store.doc taskId → ∃ other, ReflTransGen (WaitsFor w.store.doc) taskId other ∧
      ((∃ task ∈ ready, task.taskId = other) ∨ (Unfinished w.store.doc other ∧ ¬Draft w.store.doc other) ∨
        TransGen (WaitsFor w.store.doc) other other) := by
  intro ready
  obtain ⟨hshows, htasks⟩ := shows_named_of_run hrun hkeeps hnamed
  have hmem : ∀ task, task ∈ ready ↔ w.store.doc.tasks.get? task.taskId = some task ∧ Ready w.store.doc task.taskId :=
    mem_ready_of_shows hshows htasks order
  have hnodup : ready.Nodup := by
    obtain ⟨fresh, hfresh, hsame⟩ := hshows
    have hready : ready = fresh.task.getReadyTasks order fresh.graph := Answer.tasks.inj (hsame order .readyTasks)
    rw [hready]
    exact nodup_getReadyTasks hfresh htasks
  refine ⟨hnodup, ?_, ?_⟩
  · intro task
    rw [hmem, Ready, Draft]
    constructor
    · rintro ⟨htask, ⟨other, hother, hstate⟩, hnone⟩
      obtain rfl := Option.some.inj (htask.symm.trans hother)
      exact ⟨htask, hstate, hnone⟩
    · rintro ⟨htask, hstate, hnone⟩
      exact ⟨htask, ⟨task, htask, hstate⟩, hnone⟩
  · intro taskId hdraft
    obtain ⟨other, hreach, hends⟩ := hdraft.waits_for
    refine ⟨other, hreach, hends.imp_left ?_⟩
    intro hother
    obtain ⟨task, htask, _⟩ := hother.1
    obtain rfl := htasks other task htask
    exact ⟨task, (hmem task).mpr ⟨htask, hother⟩, rfl⟩

/-- The operation verifies a task that is ready. -/
structure Executes (order : SetOrder) (w : ViewedStore) (op : PlanOp) : Prop where
  ready : ∃ task ∈ w.views.task.getReadyTasks order w.views.graph, task.taskId = op.taskId ∧ task.lastLamport < op.lamport
  fresh : op.opId ∉ w.store.opIds
  opType : op.opType = .state
  state : op.payload.get? "state" = some (.str "VERIFIED")

/-- What the tasks that were executed leave of a document. -/
structure Executed (doc doc' : CRDTDocument) (done : List String) : Prop where
  edges : doc'.edges = doc.edges
  unfinished : ∀ id, Unfinished doc' id ↔ Unfinished doc id ∧ id ∉ done
  draft : ∀ id, Draft doc' id ↔ Draft doc id ∧ id ∉ done
  grounded : ∀ id ∈ done, Grounded (Draft doc) (WaitsFor doc) id
  nodup : done.Nodup

section Executing

variable {order : SetOrder} {doc doc' doc'' : CRDTDocument} {w w' : ViewedStore} {op : PlanOp} {done : List String}

theorem executed_start (doc : CRDTDocument) : Executed doc doc [] where
  edges := rfl
  unfinished id := by simp
  draft id := by simp
  grounded := List.forall_mem_nil _
  nodup := List.nodup_nil

theorem appendOp_executes (hshows : w.ShowsDocument) (hnamed : NamedTasks w.store.doc) (hexec : Executes order w op) :
    (w.appendOp op).2.store.doc.edges = w.store.doc.edges ∧ Ready w.store.doc op.taskId ∧
      ∃ (lamport : Int) (task : Task), (w.appendOp op).2.store.doc.tasks =
        w.store.doc.tasks.upsert op.taskId { task with state := .str "VERIFIED", lastLamport := lamport } := by
  obtain ⟨task, hready, hid, hlater⟩ := hexec.ready
  obtain ⟨htask, hready⟩ := (mem_ready_of_shows hshows hnamed order task).mp hready
  rw [hid] at htask hready
  have happly : applyToState { w.store.doc with ops := w.store.doc.ops ++ [op.toDict], version := w.store.doc.version + 1 } op =
      .ok { w.store.doc with
        tasks := w.store.doc.tasks.upsert op.taskId { task with state := .str "VERIFIED", lastLamport := op.lamport },
        ops := w.store.doc.ops ++ [op.toDict],
        version := w.store.doc.version + 1 } := by
    rw [applyToState, hexec.opType]
    dsimp only
    unfold setState
    dsimp only
    rw [htask]
    dsimp only
    rw [if_pos hlater, payloadField, hexec.state]
    rfl
  unfold ViewedStore.appendOp
  rw [if_neg hexec.fresh, AutomergePlanStore.appendOp, if_neg hexec.fresh]
  dsimp only
  rw [happly]
  dsimp only
  rw [store_updateViews]
  exact ⟨rfl, hready, op.lamport, task, rfl⟩

theorem Executed.next (h : Executed doc doc' done) {taskId : String} {task : Task} {lamport : Int} (hready : Ready doc' taskId)
    (hedges : doc''.edges = doc'.edges)
    (htasks : doc''.tasks = doc'.tasks.upsert taskId { task with state := .str "VERIFIED", lastLamport := lamport }) :
    Executed doc doc'' (done ++ [taskId]) := by
  obtain ⟨hdraft, hnot⟩ := (h.draft taskId).mp hready.1
  have hget : ∀ id, doc''.tasks.get? id =
      if id = taskId then some { task with state := .str "VERIFIED", lastLamport := lamport } else doc'.tasks.get? id := by
    intro id
    rw [htasks, Table.get?_upsert]
  refine ⟨hedges.trans h.edges, ?_, ?_, ?_, List.nodup_append.mpr ⟨h.nodup, List.nodup_singleton _, ?_⟩⟩
  · intro id
    rw [List.mem_append, List.mem_singleton, not_or, ← and_assoc, ← h.unfinished id, Unfinished, hget]
    by_cases hid : id = taskId
    · simp [hid]
    · simp [hid, Unfinished]
  · intro id
    rw [List.mem_append, List.mem_singleton, not_or, ← and_assoc, ← h.draft id, Draft, hget]
    by_cases hid : id = taskId
    · simp [hid]
    · simp [hid, Draft]
  · refine List.forall_mem_append.mpr ⟨h.grounded, List.forall_mem_singleton.mpr (.intro hdraft ?_)⟩
    -- the task is ready, so what it waited for has been executed
    rintro parentId ⟨hunfinished, hedge⟩
    by_contra hgrounded
    have hleft : parentId ∉ done := fun hdone => hgrounded (h.grounded parentId hdone)
    exact hready.2 parentId ⟨(h.unfinished parentId).mpr ⟨hunfinished, hleft⟩, h.edges ▸ hedge⟩
  · rintro id hid other hother rfl
    rw [List.mem_singleton.mp hother] at hid
    exact hnot hid

theorem Executed.length_le (h : Executed doc doc' done) : done.length ≤ doc.tasks.entries.length := by
  have hsub : done ⊆ doc.tasks.keys := fun id hid => (h.grounded id hid).present.unfinished.mem_keys
  simpa [Table.keys] using (h.nodup.subperm hsub).length_le

/-- Where no task is left ready, the drafts that are left are those that no run can reach. -/
theorem Executed.complete (h : Executed doc doc' done) (hnone : ∀ id, ¬Ready doc' id) (id : String) :
    Draft doc' id ↔ Draft doc id ∧ ¬Grounded (Draft doc) (WaitsFor doc) id := by
  constructor
  · intro hdraft
    refine ⟨((h.draft id).mp hdraft).1, ?_⟩
    intro hgrounded
    induction hgrounded with
    | @intro id _ hnext ih =>
      refine hnone id ⟨hdraft, ?_⟩
      rintro parentId ⟨hunfinished, hedge⟩
      obtain ⟨hbefore, hleft⟩ := (h.unfinished parentId).mp hunfinished
      have hwaits : WaitsFor doc id parentId := ⟨hbefore, h.edges ▸ hedge⟩
      exact ih parentId hwaits ((h.draft parentId).mpr ⟨(hnext parentId hwaits).present, hleft⟩)
  · rintro ⟨hdraft, hgrounded⟩
    exact (h.draft id).mpr ⟨hdraft, fun hdone => hgrounded (h.grounded id hdone)⟩

end Executing

/-- Executing ready tasks comes to an end, and what it leaves are the drafts that depend on
a circle or on a task under way: in whatever order it goes, the same ones. -/
theorem executing_finishes_grounded {order : SetOrder} {before steps : List (ViewedStore × Call × ViewedStore)}
    {w w' : ViewedStore} (hbefore : Trace ViewedStore.Step .init before w) (hkeeps : ∀ e ∈ before, e.2.1.KeepsViews e.1)
    (hnamed : ∀ e ∈ before, e.2.1.Named) (hrun : Trace ViewedStore.Step w steps w')
    (hexec : ∀ e ∈ steps, ∃ op, e.2.1 = .appendOp op ∧ Executes order e.1 op) :
    steps.length ≤ w.store.doc.tasks.entries.length ∧
    (w'.views.task.getReadyTasks order w'.views.graph = [] → ∀ taskId, Draft w'.store.doc taskId ↔
      Draft w.store.doc taskId ∧ ¬Grounded (Draft w.store.doc) (WaitsFor w.store.doc) taskId) := by
  obtain ⟨hshows, htasks⟩ := shows_named_of_run hbefore hkeeps hnamed
  have hdone : w'.ShowsDocument ∧ NamedTasks w'.store.doc ∧
      ∃ done, done.length = steps.length ∧ Executed w.store.doc w'.store.doc done := by
    induction hrun with
    | start => exact ⟨hshows, htasks, [], rfl, executed_start _⟩
    | @next steps w₁ w₂ c hrun hstep ih =>
      obtain ⟨hearlier, hlast⟩ := List.forall_mem_append.mp hexec
      obtain ⟨op, rfl, hop⟩ := hlast _ (List.mem_singleton_self _)
      obtain ⟨hshows₁, htasks₁, done, hlength, hexecuted⟩ := ih hearlier
      obtain ⟨hedges, hready, lamport, task, hupsert⟩ := appendOp_executes hshows₁ htasks₁ hop
      obtain rfl := hstep
      refine ⟨(appendOp_shows hshows₁ op).mpr ?_, call_named (c := .appendOp op) htasks₁ trivial, done ++ [op.taskId], ?_,
        hexecuted.next hready hedges hupsert⟩
      · intro _
        refine ⟨?_, ?_⟩
        · intro _ _ state hstate
          rw [hop.state, Option.some.injEq] at hstate
          exact hstate ▸ rfl
        · rw [hop.opType]
          nofun
      · rw [List.length_append, List.length_append, hlength]
        rfl
  obtain ⟨hshows', htasks', done, hlength, hexecuted⟩ := hdone
  refine ⟨hlength ▸ hexecuted.length_le, ?_⟩
  intro hnone
  refine hexecuted.complete ?_
  intro id hready
  obtain ⟨task, htask, _⟩ := hready.1
  obtain rfl := htasks' id task htask
  have hmem := (mem_ready_of_shows hshows' htasks' order task).mpr ⟨htask, hready⟩
  rw [hnone] at hmem
  exact List.not_mem_nil hmem

section Sample

def asBuilt : SetOrder := ⟨id, id, fun _ _ => Iff.rfl, fun _ _ => Iff.rfl⟩

def linkedTasks : List Call := [.appendOp draftOp, .appendOp { draftOp with opId := "op-2", taskId := "b" },
  .appendOp { draftOp with opId := "op-3", opType := .link, payload := Table.empty.upsert "parent" (.str "a") |>.upsert "child" (.str "b") }]

def verify (opId taskId : String) : PlanOp :=
  { draftOp with opId, taskId, opType := .state, lamport := 2, payload := Table.empty.upsert "state" (.str "VERIFIED") }

def linkedRun : List (ViewedStore × Call × ViewedStore) := stepsOf (fun w c => (w.call c).2) .init linkedTasks

def linkedStore : ViewedStore := linkedTasks.foldl (fun w c => (w.call c).2) .init

theorem linkedRun_trace : Trace ViewedStore.Step .init linkedRun linkedStore := Trace.ofCalls stepsOf_call

theorem linkedRun_keeps : ∀ e ∈ linkedRun, e.2.1.KeepsViews e.1 := by
  refine List.forall_mem_cons.mpr ⟨fun _ => ⟨nofun, nofun⟩, List.forall_mem_cons.mpr ⟨fun _ => ⟨nofun, nofun⟩,
    List.forall_mem_singleton.mpr fun _ => ⟨nofun, ?_⟩⟩⟩
  intro _ parent child _ _ hchild
  cases hchild
  rfl

theorem linkedRun_named : ∀ e ∈ linkedRun, e.2.1.Named :=
  List.forall_mem_cons.mpr ⟨trivial, List.forall_mem_cons.mpr ⟨trivial, List.forall_mem_singleton.mpr trivial⟩⟩

theorem ready_tasks_exact_linked :
    linkedStore.views.task.getReadyTasks asBuilt linkedStore.views.graph = [⟨"a", "north", .null, .str "DRAFT", 1⟩] ∧
    ∀ task, task ∈ linkedStore.views.task.getReadyTasks asBuilt linkedStore.views.graph ↔
      linkedStore.store.doc.tasks.get? task.taskId = some task ∧ task.state = .str "DRAFT" ∧
        ∀ parentId, ¬WaitsFor linkedStore.store.doc task.taskId parentId :=
  ⟨by decide, (ready_tasks_exact linkedRun_trace linkedRun_keeps linkedRun_named asBuilt).2.1⟩

def verifications : List Call := [.appendOp (verify "op-4" "a"), .appendOp (verify "op-5" "b")]

def verifyingRun : List (ViewedStore × Call × ViewedStore) := stepsOf (fun w c => (w.call c).2) linkedStore verifications

def verifiedStore : ViewedStore := verifications.foldl (fun w c => (w.call c).2) linkedStore

theorem verifyingRun_trace : Trace ViewedStore.Step linkedStore verifyingRun verifiedStore := Trace.ofCalls stepsOf_call

theorem verifyingRun_executes : ∀ e ∈ verifyingRun, ∃ op, e.2.1 = .appendOp op ∧ Executes asBuilt e.1 op := by
  refine List.forall_mem_cons.mpr ⟨⟨_, rfl, ⟨⟨"a", "north", .null, .str "DRAFT", 1⟩, ?_, rfl, by decide⟩, by decide, rfl, rfl⟩,
    List.forall_mem_singleton.mpr ⟨_, rfl, ⟨⟨"b", "north", .null, .str "DRAFT", 1⟩, ?_, rfl, by decide⟩, by decide, rfl, rfl⟩⟩
  · decide
  · decide

/-- The second task is ready once the first is verified, and then nothing is left. -/
theorem executing_finishes_grounded_linked : 2 ≤ linkedStore.store.doc.tasks.entries.length ∧
    ∀ taskId, Draft verifiedStore.store.doc taskId ↔
      Draft linkedStore.store.doc taskId ∧ ¬Grounded (Draft linkedStore.store.doc) (WaitsFor linkedStore.store.doc) taskId := by
  obtain ⟨hlength, hleft⟩ := executing_finishes_grounded linkedRun_trace linkedRun_keeps linkedRun_named verifyingRun_trace
    verifyingRun_executes
  exact ⟨hlength, hleft (by decide)⟩

end Sample

end AgentNetwork.Plan.StoreViews
