import AgentNetwork.Library.PythonValues
import AgentNetwork.Library.TopologicalOrder
import AgentNetwork.Library.Reachability
import AgentNetwork.Plan.Failures

/-! The views that the plan store keeps of its document, and which calls leave
them behind it. -/

namespace AgentNetwork.Plan.StoreViews

open Relational DepthFirst TopologicalOrder Transition StableSort AutomergePlanStore

/-- The order in which the sets of a process are iterated. -/
structure SetOrder where
  ids : ListSet String → ListSet String
  nodes : ListSet Json → ListSet Json
  mem_ids : ∀ s a, a ∈ ids s ↔ a ∈ s
  mem_nodes : ∀ s a, a ∈ nodes s ↔ a ∈ s

/-- `TaskView`: the tasks and the indexes that were built over them. -/
structure TaskView where
  tasks : Table String Task
  byState : Table Json (ListSet String)
  byThread : Table String (ListSet String)

/-- `GraphView`: the edges and the index from each child to its parents. -/
structure GraphView where
  edges : Table Json (List Json)
  reverseEdges : Table Json (List Json)

structure Views where
  task : TaskView
  graph : GraphView

/-- `index[key].add(task_id)`. -/
def addId {κ : Type} [DecidableEq κ] (index : Table κ (ListSet String)) (key : κ) (taskId : String) : Table κ (ListSet String) :=
  index.upsert key (((index.get? key).getD .empty).add taskId)

/-- The loop of `_build_indexes`. -/
def buildIndexes : List (String × Task) → Table Json (ListSet String) → Table String (ListSet String) →
    Except PlanError (Table Json (ListSet String) × Table String (ListSet String))
  | [], byState, byThread => .ok (byState, byThread)
  | (taskId, task) :: rest, byState, byThread =>
    if task.state.hashable then
      buildIndexes rest (addId byState task.state taskId) (addId byThread task.threadId taskId)
    else .error (.typeError "unhashable type")

/-- `self.reverse_edges[child].append(parent)` for the children of a parent. -/
def addParents (parent : Json) : List Json → Table Json (List Json) → Except PlanError (Table Json (List Json))
  | [], reverseEdges => .ok reverseEdges
  | child :: rest, reverseEdges =>
    if child.hashable then addParents parent rest (reverseEdges.upsert child ((reverseEdges.get? child).getD [] ++ [parent]))
    else .error (.typeError "unhashable type")

/-- The loop of `_build_reverse_edges`. -/
def buildReverseEdges : List (Json × List Json) → Table Json (List Json) → Except PlanError (Table Json (List Json))
  | [], reverseEdges => .ok reverseEdges
  | (parent, children) :: rest, reverseEdges => do
    let reverseEdges ← addParents parent children reverseEdges
    buildReverseEdges rest reverseEdges

def TaskView.init (tasks : Table String Task) : Except PlanError TaskView := do
  let (byState, byThread) ← buildIndexes tasks.entries .empty .empty
  .ok ⟨tasks, byState, byThread⟩

def GraphView.init (edges : Table Json (List Json)) : Except PlanError GraphView := do
  let reverseEdges ← buildReverseEdges edges.entries .empty
  .ok ⟨edges, reverseEdges⟩

/-- The views built afresh over a document. -/
def Views.init (doc : CRDTDocument) : Except PlanError Views := do
  let task ← TaskView.init doc.tasks
  let graph ← GraphView.init doc.edges
  .ok ⟨task, graph⟩

namespace GraphView

variable (view : GraphView)

inductive QueryError
  | cyclic
  | notInList (child : Json)
  | outOfFuel
  deriving DecidableEq

def getChildren (taskId : Json) : List Json := (view.edges.get? taskId).getD []

def getParents (taskId : Json) : List Json := (view.reverseEdges.get? taskId).getD []

def allNodes : ListSet Json := ListSet.empty.addAll (view.edges.keys ++ view.reverseEdges.keys)

/-- More rounds than there are nodes. -/
def rounds : Nat := view.allNodes.elems.length + 1

def getAncestors (taskId : Json) : Option (ListSet Json) := Reachability.foundFrom view.getParents view.rounds taskId

def getDescendants (taskId : Json) : Option (ListSet Json) := Reachability.foundFrom view.getChildren view.rounds taskId

def isReachable (fromTask toTask : Json) : Option Bool := (view.getDescendants fromTask).map fun found => decide (toTask ∈ found)

def topologicalSort (order : SetOrder) (taskIds : Option (ListSet Json)) : Except QueryError (List Json) :=
  let taskIds := order.nodes (taskIds.getD view.allNodes)
  match kahn view.getChildren taskIds with
  | none => .error .outOfFuel
  | some result => if result.length ≠ taskIds.elems.length then .error .cyclic else .ok result

/-- The searches of `detect_cycles`: one that finds a cycle leaves its path on the stack. -/
def searchRoots : List Json → List (List Json) → List Json → List Json → Except QueryError (List (List Json))
  | [], cycles, _, _ => .ok cycles
  | taskId :: rest, cycles, visited, left =>
    if taskId ∈ visited then searchRoots rest cycles visited left
    else
      match explore view.getChildren left view.rounds [] visited taskId with
      | none => .error .outOfFuel
      | some (.clear, visited) => searchRoots rest cycles visited left
      | some (.back stack child, visited) =>
        match stack.reverse.idxOf? child with
        | some cycleStart => searchRoots rest (cycles ++ [stack.reverse.drop cycleStart ++ [child]]) visited (stack ++ left)
        | none => .error (.notInList child)

def detectCycles (order : SetOrder) : Except QueryError (List (List Json)) :=
  view.searchRoots (order.nodes view.allNodes).elems [] [] []

def getLeafTasks (order : SetOrder) : List Json := (order.nodes view.allNodes).elems.filter fun taskId => view.getChildren taskId = []

def getRootTasks (order : SetOrder) : List Json := (order.nodes view.allNodes).elems.filter fun taskId => view.getParents taskId = []

end GraphView

namespace TaskView

variable (view : TaskView)

def getTasksByState (order : SetOrder) (state : String) : List Task :=
  (order.ids ((view.byState.get? (.str state)).getD .empty)).elems.filterMap view.tasks.get?

def getTasksByThread (order : SetOrder) (threadId : String) : List Task :=
  (order.ids ((view.byThread.get? threadId).getD .empty)).elems.filterMap view.tasks.get?

/-- Whether a parent keeps a task from being ready. -/
def blocks : Json → Bool
  | .str parentId =>
    match view.tasks.get? parentId with
    | some parent => decide (parent.state ∉ [.str "VERIFIED", .str "FINAL"])
    | none => false
  | _ => false

def getReadyTasks (order : SetOrder) (graph : GraphView) : List Task :=
  (view.getTasksByState order "DRAFT").filter fun task => !(graph.getParents (.str task.taskId)).any view.blocks

def getAllTasks : List Task := view.tasks.entries.map Prod.snd

def getTask (taskId : String) : Option Task := view.tasks.get? taskId

def countByState : List (Json × Nat) := view.byState.entries.map fun entry => (entry.1, entry.2.elems.length)

end TaskView

/-- The queries of the two views. -/
inductive Query
  | tasksByState (state : String)
  | tasksByThread (threadId : String)
  | readyTasks
  | allTasks
  | task (taskId : String)
  | countByState
  | children (taskId : Json)
  | parents (taskId : Json)
  | ancestors (taskId : Json)
  | descendants (taskId : Json)
  | topologicalSort (taskIds : Option (ListSet Json))
  | detectCycles
  | isReachable (fromTask toTask : Json)
  | leafTasks
  | rootTasks

inductive Answer
  | tasks (tasks : List Task)
  | task (task : Option Task)
  | counts (counts : List (Json × Nat))
  | nodes (nodes : List Json)
  | found (found : Option (ListSet Json))
  | sorted (sorted : Except GraphView.QueryError (List Json))
  | cycles (cycles : Except GraphView.QueryError (List (List Json)))
  | reachable (reachable : Option Bool)

def Views.answer (views : Views) (order : SetOrder) : Query → Answer
  | .tasksByState state => .tasks (views.task.getTasksByState order state)
  | .tasksByThread threadId => .tasks (views.task.getTasksByThread order threadId)
  | .readyTasks => .tasks (views.task.getReadyTasks order views.graph)
  | .allTasks => .tasks views.task.getAllTasks
  | .task taskId => .task (views.task.getTask taskId)
  | .countByState => .counts views.task.countByState
  | .children taskId => .nodes (views.graph.getChildren taskId)
  | .parents taskId => .nodes (views.graph.getParents taskId)
  | .ancestors taskId => .found (views.graph.getAncestors taskId)
  | .descendants taskId => .found (views.graph.getDescendants taskId)
  | .topologicalSort taskIds => .sorted (views.graph.topologicalSort order taskIds)
  | .detectCycles => .cycles (views.graph.detectCycles order)
  | .isReachable fromTask toTask => .reachable (views.graph.isReachable fromTask toTask)
  | .leafTasks => .nodes (views.graph.getLeafTasks order)
  | .rootTasks => .nodes (views.graph.getRootTasks order)

/-- Every query has one answer in both. -/
def Views.SameAnswers (views views' : Views) : Prop := ∀ order query, views.answer order query = views'.answer order query

/-- What a view refers to: a dictionary of the document as it is now, or one that the
document had and has replaced since. -/
inductive Held (α : Type)
  | current
  | former (value : α)

def Held.get {α : Type} (own : α) : Held α → α
  | .current => own
  | .former value => value

/-- A store with its `task_view` and `graph_view`. -/
structure ViewedStore where
  store : AutomergePlanStore
  tasks : Held (Table String Task)
  byState : Table Json (ListSet String)
  byThread : Table String (ListSet String)
  edges : Held (Table Json (List Json))
  reverseEdges : Table Json (List Json)

/-- A call of the store; a document stands for the bytes that are read. -/
inductive Call
  | appendOp (op : PlanOp)
  | mergeWithPeer (peer : CRDTDocument)
  | loadFromData (data : CRDTDocument)

namespace ViewedStore

def init : ViewedStore := ⟨AutomergePlanStore.init, .current, .empty, .empty, .current, .empty⟩

variable (w : ViewedStore)

def views : Views :=
  ⟨⟨w.tasks.get w.store.doc.tasks, w.byState, w.byThread⟩, ⟨w.edges.get w.store.doc.edges, w.reverseEdges⟩⟩

/-- `_update_views`: each view is replaced when the new one is built. -/
def updateViews : Except PlanError Unit × ViewedStore :=
  match TaskView.init w.store.doc.tasks with
  | .error e => (.error e, w)
  | .ok task =>
    let w := { w with tasks := .current, byState := task.byState, byThread := task.byThread }
    match GraphView.init w.store.doc.edges with
    | .error e => (.error e, w)
    | .ok graph => (.ok (), { w with edges := .current, reverseEdges := graph.reverseEdges })

/-- The document gets other dictionaries: the views keep those that they have. -/
def replace (store : AutomergePlanStore) : ViewedStore :=
  { w with store := store, tasks := .former (w.tasks.get w.store.doc.tasks), edges := .former (w.edges.get w.store.doc.edges) }

/-- `append_op`. -/
def appendOp (op : PlanOp) : Except PlanError Unit × ViewedStore :=
  if op.opId ∈ w.store.opIds then (.ok (), w)
  else
    match AutomergePlanStore.appendOp op w.store with
    | (.error e, store) => (.error e, { w with store := store })
    | (.ok _, store) => updateViews { w with store := store }

/-- `merge_with_peer`. -/
def mergeWithPeer (peer : CRDTDocument) : Except PlanError Unit × ViewedStore :=
  match peer.ops.mapM fun d => field "op_id" d.opId with
  | .error e => (.error e, w)
  | .ok _ =>
    let new := newOps w.store.opIds peer.ops
    let opIds := w.store.opIds ++ new.map fun d => d.opId.getD ""
    let doc := { w.store.doc with ops := w.store.doc.ops ++ new }
    match sortByLamport doc.ops with
    | .error e => (.error e, { w with store := ⟨doc, opIds⟩ })
    | .ok sorted =>
      match rebuildStateFromOps { doc with ops := sorted } with
      | (.error e, doc) => (.error e, w.replace ⟨doc, opIds⟩)
      | (.ok _, doc) =>
        match updateViews (w.replace ⟨doc, opIds⟩) with
        | (.error e, w) => (.error e, w)
        | (.ok _, w) => (.ok (), { w with store := ⟨{ w.store.doc with version := w.store.doc.version + 1 }, opIds⟩ })

/-- `load_from_data`, which leaves the views as they are. -/
def loadFromData (data : CRDTDocument) : Except PlanError Unit × ViewedStore :=
  let (outcome, store) := AutomergePlanStore.loadFromData data w.store
  (outcome, w.replace store)

def call : Call → Except PlanError Unit × ViewedStore
  | .appendOp op => w.appendOp op
  | .mergeWithPeer peer => w.mergeWithPeer peer
  | .loadFromData data => w.loadFromData data

def Step (w : ViewedStore) (c : Call) (w' : ViewedStore) : Prop := w' = (w.call c).2

/-- Every query is answered as by views that are built afresh. -/
def ShowsDocument : Prop := ∃ fresh, Views.init w.store.doc = .ok fresh ∧ w.views.SameAnswers fresh

end ViewedStore

/-- How `json.dumps` writes a key that is no text. -/
def keyText : Json → String
  | .str s => s
  | .int n => toString n
  | .float literal => literal
  | .bool true => "true"
  | .bool false => "false"
  | _ => "null"

/-- `get_save_data`, as `json.loads` reads it: the keys are texts, the last of equal ones counts. -/
def savedData (store : AutomergePlanStore) : CRDTDocument :=
  { store.doc with edges := store.doc.edges.entries.foldl (fun edges entry => edges.upsert (.str (keyText entry.1)) entry.2) .empty }

/-- Loading what the one store saves makes the other like it. -/
def ViewedStore.LoadsAs (w other : ViewedStore) : Prop :=
  ∃ loaded, other.loadFromData (savedData w.store) = (.ok (), loaded) ∧ loaded.store.doc = w.store.doc ∧
    (∀ opId, opId ∈ loaded.store.opIds ↔ opId ∈ w.store.opIds) ∧ loaded.views.SameAnswers w.views

/-- The states of the tasks and the children of the edges can be keys of an index. -/
structure Indexable (doc : CRDTDocument) : Prop where
  states : ∀ entry ∈ doc.tasks.entries, entry.2.state.hashable = true
  children : ∀ entry ∈ doc.edges.entries, ∀ child ∈ entry.2, child.hashable = true

/-- The views built over two documents answer alike. -/
def SameViews (doc doc' : CRDTDocument) : Prop :=
  ∀ views views', Views.init doc = .ok views → Views.init doc' = .ok views' → views.SameAnswers views'

/-- Where the operation takes effect, the state or the child that it brings can be a key. -/
structure KeepsKeys (op : PlanOp) (doc : CRDTDocument) : Prop where
  state : op.opType = .state → (∀ task, doc.tasks.get? op.taskId = some task → task.lastLamport < op.lamport) →
    ∀ state, op.payload.get? "state" = some state → state.hashable = true
  child : op.opType = .link → ∀ parent child, op.payload.get? "parent" = some parent → parent.hashable = true →
    op.payload.get? "child" = some child → child.hashable = true

/-- The log that a merge replays. -/
def mergedOps (peer : CRDTDocument) (store : AutomergePlanStore) : Except PlanError (List OpDict) := do
  let _ ← peer.ops.mapM fun d => field "op_id" d.opId
  sortByLamport (store.doc.ops ++ newOps store.opIds peer.ops)

/-- What a call must meet for the views to show the document after it. -/
def Call.KeepsViews (w : ViewedStore) : Call → Prop
  | .appendOp op => op.opId ∉ w.store.opIds → KeepsKeys op w.store.doc
  | .mergeWithPeer peer => ∀ sorted, mergedOps peer w.store = .ok sorted →
    Indexable (rebuildStateFromOps { w.store.doc with ops := sorted }).2 ∧
      ∀ e, (rebuildStateFromOps { w.store.doc with ops := sorted }).1 = .error e →
        SameViews (rebuildStateFromOps { w.store.doc with ops := sorted }).2 w.store.doc
  | .loadFromData data => Indexable data ∧ SameViews data w.store.doc

section Building

variable {doc doc' : CRDTDocument} {op : PlanOp} {w : ViewedStore}

theorem buildIndexes_ok_iff {entries : List (String × Task)} {byState : Table Json (ListSet String)}
    {byThread : Table String (ListSet String)} :
    (∃ indexes, buildIndexes entries byState byThread = .ok indexes) ↔ ∀ entry ∈ entries, entry.2.state.hashable = true := by
  induction entries generalizing byState byThread with
  | nil => simp [buildIndexes]
  | cons entry rest ih =>
    obtain ⟨taskId, task⟩ := entry
    rw [buildIndexes, List.forall_mem_cons]
    by_cases hstate : task.state.hashable = true
    · rw [if_pos hstate, ih]
      exact (and_iff_right hstate).symm
    · rw [if_neg hstate]
      refine iff_of_false ?_ fun h => hstate h.1
      rintro ⟨indexes, h⟩
      cases h

theorem addParents_ok_iff {parent : Json} {children : List Json} {reverseEdges : Table Json (List Json)} :
    (∃ index, addParents parent children reverseEdges = .ok index) ↔ ∀ child ∈ children, child.hashable = true := by
  induction children generalizing reverseEdges with
  | nil => simp [addParents]
  | cons child rest ih =>
    rw [addParents, List.forall_mem_cons]
    by_cases hchild : child.hashable = true
    · rw [if_pos hchild, ih]
      exact (and_iff_right hchild).symm
    · rw [if_neg hchild]
      refine iff_of_false ?_ fun h => hchild h.1
      rintro ⟨index, h⟩
      cases h

theorem buildReverseEdges_ok_iff {entries : List (Json × List Json)} {reverseEdges : Table Json (List Json)} :
    (∃ index, buildReverseEdges entries reverseEdges = .ok index) ↔
      ∀ entry ∈ entries, ∀ child ∈ entry.2, child.hashable = true := by
  induction entries generalizing reverseEdges with
  | nil => simp [buildReverseEdges]
  | cons entry rest ih =>
    obtain ⟨parent, children⟩ := entry
    rw [buildReverseEdges, List.forall_mem_cons]
    constructor
    · rintro ⟨index, h⟩
      obtain ⟨first, hfirst, hrest⟩ := Transactional.except_bind_ok.mp h
      exact ⟨addParents_ok_iff.mp ⟨first, hfirst⟩, ih.mp ⟨index, hrest⟩⟩
    · rintro ⟨hchildren, hrest⟩
      obtain ⟨first, hfirst⟩ := addParents_ok_iff.mpr hchildren
      obtain ⟨index, hindex⟩ := ih.mpr hrest
      exact ⟨index, Transactional.except_bind_ok.mpr ⟨first, hfirst, hindex⟩⟩

/-- Views can be built over a document exactly if it can be indexed. -/
theorem init_ok_iff : (∃ fresh, Views.init doc = .ok fresh) ↔ Indexable doc := by
  constructor
  · rintro ⟨fresh, h⟩
    obtain ⟨task, htask, h⟩ := Transactional.except_bind_ok.mp h
    obtain ⟨graph, hgraph, _⟩ := Transactional.except_bind_ok.mp h
    obtain ⟨indexes, hindexes, _⟩ := Transactional.except_bind_ok.mp htask
    obtain ⟨index, hindex, _⟩ := Transactional.except_bind_ok.mp hgraph
    exact ⟨buildIndexes_ok_iff.mp ⟨indexes, hindexes⟩, buildReverseEdges_ok_iff.mp ⟨index, hindex⟩⟩
  · intro h
    obtain ⟨indexes, hindexes⟩ := buildIndexes_ok_iff.mpr h.states
    obtain ⟨index, hindex⟩ := buildReverseEdges_ok_iff.mpr h.children
    have htask : TaskView.init doc.tasks = .ok ⟨doc.tasks, indexes.1, indexes.2⟩ :=
      Transactional.except_bind_ok.mpr ⟨indexes, hindexes, rfl⟩
    have hgraph : GraphView.init doc.edges = .ok ⟨doc.edges, index⟩ := Transactional.except_bind_ok.mpr ⟨index, hindex, rfl⟩
    exact ⟨_, Transactional.except_bind_ok.mpr ⟨_, htask, Transactional.except_bind_ok.mpr ⟨_, hgraph, rfl⟩⟩⟩

theorem init_congr (htasks : doc.tasks = doc'.tasks) (hedges : doc.edges = doc'.edges) : Views.init doc = Views.init doc' := by
  rw [Views.init, Views.init, htasks, hedges]

theorem Views.SameAnswers.refl (views : Views) : views.SameAnswers views := fun _ _ => rfl

theorem Views.SameAnswers.symm {views views' : Views} (h : views.SameAnswers views') : views'.SameAnswers views :=
  fun order query => (h order query).symm

theorem Views.SameAnswers.trans {views views' views'' : Views} (h : views.SameAnswers views') (h' : views'.SameAnswers views'') :
    views.SameAnswers views'' := fun order query => (h order query).trans (h' order query)

theorem store_updateViews (w : ViewedStore) : (w.updateViews).2.store = w.store := by
  unfold ViewedStore.updateViews
  split
  next => rfl
  next => dsimp only; split <;> rfl

/-- The update shows every document over which views can be built. -/
theorem showsDocument_updateViews (w : ViewedStore) : (w.updateViews).2.ShowsDocument ↔ Indexable w.store.doc := by
  have hstore := store_updateViews w
  constructor
  · rintro ⟨fresh, hfresh, _⟩
    rw [hstore] at hfresh
    exact init_ok_iff.mp ⟨fresh, hfresh⟩
  · intro h
    obtain ⟨fresh, hfresh⟩ := init_ok_iff.mpr h
    refine ⟨fresh, by rwa [hstore], ?_⟩
    obtain ⟨task, htask, hrest⟩ := Transactional.except_bind_ok.mp hfresh
    obtain ⟨graph, hgraph, hfresh⟩ := Transactional.except_bind_ok.mp hrest
    obtain ⟨indexes, _, htasks⟩ := Transactional.except_bind_ok.mp htask
    obtain ⟨index, _, hedges⟩ := Transactional.except_bind_ok.mp hgraph
    have hviews : (w.updateViews).2.views = fresh := by
      cases hfresh
      unfold ViewedStore.updateViews
      rw [htask]
      dsimp only
      rw [hgraph]
      cases htasks
      cases hedges
      rfl
    rw [hviews]
    exact .refl fresh

theorem ViewedStore.ShowsDocument.congr {w w' : ViewedStore} (htasks : w.store.doc.tasks = w'.store.doc.tasks)
    (hedges : w.store.doc.edges = w'.store.doc.edges) (hviews : w.views = w'.views) : w.ShowsDocument ↔ w'.ShowsDocument := by
  rw [ViewedStore.ShowsDocument, ViewedStore.ShowsDocument, init_congr htasks hedges, hviews]

@[simp] theorem views_replace (w : ViewedStore) (store : AutomergePlanStore) : (w.replace store).views = w.views := rfl

/-- Views that are kept show a document over which fresh ones answer as those of the old. -/
theorem showsDocument_replace (h : w.ShowsDocument) (store : AutomergePlanStore) :
    (w.replace store).ShowsDocument ↔ Indexable store.doc ∧ SameViews store.doc w.store.doc := by
  obtain ⟨old, hold, hsame⟩ := h
  constructor
  · rintro ⟨fresh, hfresh, hshow⟩
    refine ⟨init_ok_iff.mp ⟨fresh, hfresh⟩, ?_⟩
    intro views views' hviews hviews'
    obtain rfl := Except.ok.inj (hfresh.symm.trans hviews)
    obtain rfl := Except.ok.inj (hold.symm.trans hviews')
    exact hshow.symm.trans hsame
  · rintro ⟨hindex, hviews⟩
    obtain ⟨fresh, hfresh⟩ := init_ok_iff.mpr hindex
    exact ⟨fresh, hfresh, hsame.trans (hviews fresh old hfresh hold).symm⟩

end Building

section Calls

variable {doc doc' : CRDTDocument} {op : PlanOp} {w w' : ViewedStore} {c : Call}

theorem entry_upsert {κ ρ : Type} [DecidableEq κ] {t : Table κ ρ} {k : κ} {r : ρ} {P : ρ → Prop}
    (hold : ∀ entry ∈ t.entries, entry.1 ≠ k → P entry.2) : (∀ entry ∈ (t.upsert k r).entries, P entry.2) ↔ P r := by
  constructor
  · intro h
    exact h (k, r) (Table.get?_eq_some_iff.mp (by rw [Table.get?_upsert, if_pos rfl]))
  · rintro hr ⟨k', r'⟩ hentry
    have hget := Table.get?_eq_some_iff.mpr hentry
    rw [Table.get?_upsert] at hget
    split at hget
    next => exact Option.some.inj hget ▸ hr
    next hne => exact hold (k', r') (Table.get?_eq_some_iff.mp hget) hne

theorem field_ok {α : Type} {key : String} {value : Option α} {a : α} (h : field key value = .ok a) : value = some a := by
  cases value with
  | none => cases h
  | some b =>
    cases h
    rfl

theorem addTask_indexable (h : Indexable doc) (op : PlanOp) : Indexable (addTask doc op) := by
  unfold addTask
  split
  next => exact h
  next =>
    refine ⟨?_, h.children⟩
    have hstates : ∀ entry ∈ doc.tasks.entries, entry.1 ≠ op.taskId → entry.2.state.hashable = true :=
      fun entry hentry _ => h.states entry hentry
    exact (entry_upsert (P := fun task : Task => task.state.hashable = true) hstates).mpr rfl

theorem upsert_task_indexable (h : Indexable doc) (taskId : String) (task : Task) :
    Indexable { doc with tasks := doc.tasks.upsert taskId task } ↔ task.state.hashable = true := by
  have hstates : ∀ entry ∈ doc.tasks.entries, entry.1 ≠ taskId → entry.2.state.hashable = true :=
    fun entry hentry _ => h.states entry hentry
  have hupsert := @entry_upsert _ _ _ _ _ task (fun task => task.state.hashable = true) hstates
  exact ⟨fun hnew => hupsert.mp hnew.states, fun hnew => ⟨hupsert.mpr hnew, h.children⟩⟩

theorem setState_indexable (h : Indexable doc) (happly : setState doc op = .ok doc') :
    Indexable doc' ↔ ((∀ task, doc.tasks.get? op.taskId = some task → task.lastLamport < op.lamport) →
      ∀ state, op.payload.get? "state" = some state → state.hashable = true) := by
  unfold setState at happly
  split at happly
  next hnone =>
    obtain ⟨state, hstate, happly⟩ := Transactional.except_bind_ok.mp happly
    have hpayload := field_ok hstate
    cases happly
    rw [upsert_task_indexable h]
    constructor
    · intro hhashable _ state' hstate'
      rw [hpayload, Option.some.injEq] at hstate'
      exact hstate' ▸ hhashable
    · intro hall
      refine hall ?_ state hpayload
      intro task htask
      rw [hnone] at htask
      cases htask
  next task htask =>
    by_cases hlater : op.lamport > task.lastLamport
    · rw [if_pos hlater] at happly
      obtain ⟨state, hstate, happly⟩ := Transactional.except_bind_ok.mp happly
      have hpayload := field_ok hstate
      cases happly
      rw [upsert_task_indexable h]
      constructor
      · intro hhashable _ state' hstate'
        rw [hpayload, Option.some.injEq] at hstate'
        exact hstate' ▸ hhashable
      · intro hall
        refine hall ?_ state hpayload
        intro task' htask'
        rw [htask, Option.some.injEq] at htask'
        exact htask' ▸ hlater
    · rw [if_neg hlater] at happly
      cases happly
      exact iff_of_true h fun hnewer => absurd (hnewer task htask) hlater

theorem addLink_indexable (h : Indexable doc) (happly : addLink doc op = .ok doc') :
    Indexable doc' ↔ ∀ parent child, op.payload.get? "parent" = some parent → parent.hashable = true →
      op.payload.get? "child" = some child → child.hashable = true := by
  obtain ⟨parent, hparent, happly⟩ := Transactional.except_bind_ok.mp happly
  obtain ⟨child, hchild, happly⟩ := Transactional.except_bind_ok.mp happly
  have hparent := field_ok hparent
  have hchild := field_ok hchild
  dsimp only at happly
  split at happly
  next hhashable =>
    cases happly
    let children := (doc.edges.get? parent).getD []
    have hold : ∀ c ∈ children, c.hashable = true := by
      intro c hc
      cases hget : doc.edges.get? parent with
      | none => simp [children, hget] at hc
      | some cs =>
        simp only [children, hget, Option.getD_some] at hc
        exact h.children _ (Table.get?_eq_some_iff.mp hget) c hc
    have hothers : ∀ entry ∈ doc.edges.entries, entry.1 ≠ parent → ∀ c ∈ entry.2, c.hashable = true :=
      fun entry hentry _ => h.children entry hentry
    have hupsert := @entry_upsert _ _ _ _ _ (if child ∈ children then children else children ++ [child])
      (fun cs => ∀ c ∈ cs, c.hashable = true) hothers
    have hall : (∀ c ∈ (if child ∈ children then children else children ++ [child]), c.hashable = true) ↔
        child.hashable = true := by
      by_cases hmem : child ∈ children
      · rw [if_pos hmem]
        exact iff_of_true hold (hold child hmem)
      · rw [if_neg hmem, List.forall_mem_append, List.forall_mem_singleton]
        exact and_iff_right hold
    constructor
    · intro hnew parent' child' hparent' _ hchild'
      rw [hchild, Option.some.injEq] at hchild'
      exact hchild' ▸ hall.mp (hupsert.mp hnew.children)
    · intro hkeys
      exact ⟨h.states, hupsert.mpr (hall.mpr (hkeys parent child hparent hhashable hchild))⟩
  next => cases happly

/-- An operation keeps the document indexable exactly if what it brings can be a key. -/
theorem applyToState_indexable (h : Indexable doc) (happly : applyToState doc op = .ok doc') :
    Indexable doc' ↔ KeepsKeys op doc := by
  unfold applyToState at happly
  cases htype : op.opType with
  | addTask =>
    rw [htype] at happly
    cases happly
    exact iff_of_true (addTask_indexable h op) ⟨by rw [htype]; nofun, by rw [htype]; nofun⟩
  | state =>
    rw [htype] at happly
    rw [setState_indexable h happly]
    exact ⟨fun hkeys => ⟨fun _ => hkeys, by rw [htype]; nofun⟩, fun hkeys => hkeys.state htype⟩
  | link =>
    rw [htype] at happly
    rw [addLink_indexable h happly]
    exact ⟨fun hkeys => ⟨by rw [htype]; nofun, fun _ => hkeys⟩, fun hkeys => hkeys.child htype⟩
  | annotate =>
    rw [htype] at happly
    cases happly
    exact iff_of_true ⟨h.states, h.children⟩ ⟨by rw [htype]; nofun, by rw [htype]; nofun⟩
  | requires | produces =>
    rw [htype] at happly
    cases happly
    exact iff_of_true h ⟨by rw [htype]; nofun, by rw [htype]; nofun⟩

/-- An operation that raises has nothing to bring. -/
theorem keepsKeys_of_error {e : PlanError} (happly : applyToState doc op = .error e) : KeepsKeys op doc := by
  have hnot : ¬Finds doc op := by
    intro hfinds
    obtain ⟨doc', hok⟩ := applyToState_ok_iff.mpr hfinds
    rw [happly] at hok
    cases hok
  constructor
  · intro htype _ state hstate
    refine absurd ⟨fun _ => Or.inl (Table.contains_eq_true_iff.mpr ⟨state, hstate⟩), ?_⟩ hnot
    rw [htype]
    nofun
  · intro htype parent child hparent hhashable hchild
    refine absurd ⟨?_, fun _ => ⟨parent, hparent, hhashable, Table.contains_eq_true_iff.mpr ⟨child, hchild⟩⟩⟩ hnot
    rw [htype]
    nofun

theorem ViewedStore.ShowsDocument.indexable (h : w.ShowsDocument) : Indexable w.store.doc := by
  obtain ⟨fresh, hfresh, _⟩ := h
  exact init_ok_iff.mp ⟨fresh, hfresh⟩

theorem appendOp_shows (h : w.ShowsDocument) (op : PlanOp) :
    (w.appendOp op).2.ShowsDocument ↔ (Call.appendOp op).KeepsViews w := by
  unfold ViewedStore.appendOp
  by_cases hknown : op.opId ∈ w.store.opIds
  · rw [if_pos hknown]
    exact iff_of_true h fun hnew => absurd hknown hnew
  · rw [if_neg hknown, Call.KeepsViews, AutomergePlanStore.appendOp, if_neg hknown]
    have hlogged : Indexable { w.store.doc with ops := w.store.doc.ops ++ [op.toDict], version := w.store.doc.version + 1 } :=
      ⟨h.indexable.states, h.indexable.children⟩
    dsimp only
    cases happly : applyToState { w.store.doc with ops := w.store.doc.ops ++ [op.toDict], version := w.store.doc.version + 1 } op with
    | error e =>
      have hkeys := keepsKeys_of_error happly
      exact iff_of_true ((ViewedStore.ShowsDocument.congr rfl rfl rfl).mp h) fun _ => ⟨hkeys.state, hkeys.child⟩
    | ok doc =>
      dsimp only
      rw [showsDocument_updateViews, applyToState_indexable hlogged happly]
      exact ⟨fun hkeys _ => ⟨hkeys.state, hkeys.child⟩, fun hkeys => ⟨(hkeys hknown).state, (hkeys hknown).child⟩⟩

theorem mergeWithPeer_shows (h : w.ShowsDocument) (peer : CRDTDocument) :
    (w.mergeWithPeer peer).2.ShowsDocument ↔ (Call.mergeWithPeer peer).KeepsViews w := by
  unfold ViewedStore.mergeWithPeer Call.KeepsViews
  dsimp only
  cases hids : peer.ops.mapM fun d => field "op_id" d.opId with
  | error e =>
    have hmerged : mergedOps peer w.store = .error e := by
      rw [mergedOps, hids]
      rfl
    rw [hmerged]
    exact iff_of_true h nofun
  | ok ids =>
    have hmerged : mergedOps peer w.store = sortByLamport (w.store.doc.ops ++ newOps w.store.opIds peer.ops) := by
      rw [mergedOps, hids]
      rfl
    rw [hmerged]
    dsimp only
    cases hsort : sortByLamport (w.store.doc.ops ++ newOps w.store.opIds peer.ops) with
    | error e => exact iff_of_true ((ViewedStore.ShowsDocument.congr rfl rfl rfl).mp h) nofun
    | ok sorted =>
      simp only [Except.ok.injEq, forall_eq']
      rcases hrebuild : rebuildStateFromOps { w.store.doc with ops := sorted } with ⟨outcome, doc⟩
      cases outcome with
      | error e =>
        dsimp only
        rw [showsDocument_replace h]
        simp only [Except.error.injEq, forall_eq']
      | ok _ =>
        have hupdate := showsDocument_updateViews (w.replace ⟨doc, w.store.opIds ++
          (newOps w.store.opIds peer.ops).map fun d => d.opId.getD ""⟩)
        simp only [reduceCtorEq, false_implies, implies_true, and_true]
        refine Iff.trans ?_ hupdate
        split
        next hresult => rw [hresult]
        next hresult =>
          rw [hresult]
          exact ViewedStore.ShowsDocument.congr rfl rfl rfl

theorem loadFromData_shows (h : w.ShowsDocument) (data : CRDTDocument) :
    (w.loadFromData data).2.ShowsDocument ↔ (Call.loadFromData data).KeepsViews w := by
  have hdoc : (AutomergePlanStore.loadFromData data w.store).2.doc = data := by
    unfold AutomergePlanStore.loadFromData
    split <;> rfl
  have hreplace := showsDocument_replace h (AutomergePlanStore.loadFromData data w.store).2
  rw [hdoc] at hreplace
  exact hreplace

theorem call_shows (h : w.ShowsDocument) (c : Call) : (w.call c).2.ShowsDocument ↔ c.KeepsViews w := by
  cases c with
  | appendOp op => exact appendOp_shows h op
  | mergeWithPeer peer => exact mergeWithPeer_shows h peer
  | loadFromData data => exact loadFromData_shows h data

end Calls

/-- Every operation of the document has an id, and the store knows these ids. -/
structure ViewedStore.Identified (w : ViewedStore) : Prop where
  ids : ∀ d ∈ w.store.doc.ops, d.opId ≠ none
  known : ∀ opId, opId ∈ w.store.opIds ↔ ∃ d ∈ w.store.doc.ops, d.opId = some opId

/-- The operations of a document that is loaded have ids. -/
def Call.Identified : Call → Prop
  | .loadFromData data => ∀ d ∈ data.ops, d.opId ≠ none
  | _ => True

/-- The parents of the edges are texts. -/
def TextKeys (doc : CRDTDocument) : Prop := ∀ parent ∈ doc.edges.keys, ∃ s, parent = .str s

section Loading

variable {w other : ViewedStore} {c : Call}

theorem ViewedStore.Identified.append (h : w.Identified) (store : AutomergePlanStore) {new : List OpDict}
    (hperm : store.doc.ops.Perm (w.store.doc.ops ++ new)) (hnew : ∀ d ∈ new, d.opId ≠ none)
    (hids : store.opIds = w.store.opIds ++ new.map fun d => d.opId.getD "") :
    (∀ d ∈ store.doc.ops, d.opId ≠ none) ∧ ∀ opId, opId ∈ store.opIds ↔ ∃ d ∈ store.doc.ops, d.opId = some opId := by
  constructor
  · intro d hd
    rcases List.mem_append.mp (hperm.mem_iff.mp hd) with hd | hd
    · exact h.ids d hd
    · exact hnew d hd
  · intro opId
    have hgetD : opId ∈ new.map (fun d => d.opId.getD "") ↔ ∃ d ∈ new, d.opId = some opId := by
      rw [List.mem_map]
      refine exists_congr fun d => and_congr_right fun hd => ?_
      cases hid : d.opId with
      | none => exact absurd hid (hnew d hd)
      | some id => simp
    rw [hids, List.mem_append, h.known, hgetD]
    simp only [hperm.mem_iff, List.mem_append, or_and_right, exists_or]

theorem appendOp_identified (h : w.Identified) (op : PlanOp) : (w.appendOp op).2.Identified := by
  unfold ViewedStore.appendOp
  by_cases hknown : op.opId ∈ w.store.opIds
  · rw [if_pos hknown]
    exact h
  · rw [if_neg hknown, AutomergePlanStore.appendOp, if_neg hknown]
    have hnew : ∀ d ∈ [op.toDict], d.opId ≠ none := by simp [PlanOp.toDict]
    dsimp only
    cases happly : applyToState { w.store.doc with ops := w.store.doc.ops ++ [op.toDict], version := w.store.doc.version + 1 } op with
    | error e =>
      obtain ⟨hids, hmem⟩ := h.append ⟨{ w.store.doc with ops := w.store.doc.ops ++ [op.toDict] }, w.store.opIds ++ [op.opId]⟩
        (List.Perm.refl _) hnew rfl
      exact ⟨hids, hmem⟩
    | ok doc =>
      have hlog : doc.ops = w.store.doc.ops ++ [op.toDict] := (applyToState_log happly).1
      obtain ⟨hids, hmem⟩ := h.append ⟨doc, w.store.opIds ++ [op.opId]⟩ (List.Perm.of_eq hlog) hnew rfl
      dsimp only
      constructor
      · rw [store_updateViews]
        exact hids
      · rw [store_updateViews]
        exact hmem

theorem mergeWithPeer_identified (h : w.Identified) (peer : CRDTDocument) : (w.mergeWithPeer peer).2.Identified := by
  unfold ViewedStore.mergeWithPeer
  cases hids : peer.ops.mapM fun d => field "op_id" d.opId with
  | error e => exact h
  | ok ids =>
    have hpeer := mapM_field_ok_iff.mp ⟨ids, hids⟩
    have hnew : ∀ d ∈ newOps w.store.opIds peer.ops, d.opId ≠ none := fun d hd => hpeer d (List.mem_filter.mp hd).1
    dsimp only
    cases hsort : sortByLamport (w.store.doc.ops ++ newOps w.store.opIds peer.ops) with
    | error e =>
      obtain ⟨hall, hmem⟩ := h.append ⟨{ w.store.doc with ops := w.store.doc.ops ++ newOps w.store.opIds peer.ops },
        w.store.opIds ++ (newOps w.store.opIds peer.ops).map fun d => d.opId.getD ""⟩ (List.Perm.refl _) hnew rfl
      exact ⟨hall, hmem⟩
    | ok sorted =>
      have hperm : sorted.Perm (w.store.doc.ops ++ newOps w.store.opIds peer.ops) := by
        obtain ⟨_, _, hsorted⟩ := Transactional.except_bind_ok.mp hsort
        cases hsorted
        exact perm_sortOn _ _
      have hlog := (replayOps_log sorted { w.store.doc with ops := sorted }.cleared).1
      have hrebuilt : ∀ {outcome doc}, rebuildStateFromOps { w.store.doc with ops := sorted } = (outcome, doc) → doc.ops = sorted := by
        intro outcome doc hrebuild
        have hdoc : (replayOps sorted { w.store.doc with ops := sorted }.cleared).2 = doc := congrArg Prod.snd hrebuild
        rw [← hdoc]
        exact hlog
      dsimp only
      rcases hrebuild : rebuildStateFromOps { w.store.doc with ops := sorted } with ⟨outcome, doc⟩
      obtain ⟨hall, hmem⟩ := h.append ⟨doc, w.store.opIds ++ (newOps w.store.opIds peer.ops).map fun d => d.opId.getD ""⟩
        (hrebuilt hrebuild ▸ hperm) hnew rfl
      cases outcome with
      | error e => exact ⟨hall, hmem⟩
      | ok _ =>
        have hstore := store_updateViews (w.replace ⟨doc, w.store.opIds ++
          (newOps w.store.opIds peer.ops).map fun d => d.opId.getD ""⟩)
        dsimp only
        split
        next hresult =>
          rw [hresult] at hstore
          constructor
          · rw [hstore]
            exact hall
          · rw [hstore]
            exact hmem
        next hresult =>
          rw [hresult] at hstore
          dsimp only at hstore ⊢
          constructor
          · rw [hstore]
            exact hall
          · rw [hstore]
            exact hmem

theorem loadFromData_identified {data : CRDTDocument} (hdata : ∀ d ∈ data.ops, d.opId ≠ none) :
    ∃ ids, AutomergePlanStore.loadFromData data w.store = (.ok (), ⟨data, ids⟩) ∧
      ∀ opId, opId ∈ ids ↔ ∃ d ∈ data.ops, d.opId = some opId := by
  obtain ⟨ids, hids⟩ := mapM_field_ok_iff.mpr hdata
  refine ⟨ids, by rw [AutomergePlanStore.loadFromData, hids], ?_⟩
  have hmap : data.ops.mapM (fun d => field "op_id" d.opId) = .ok (data.ops.map fun d => d.opId.getD "") := by
    refine Python.mapM_ok ?_
    intro d hd
    cases hid : d.opId with
    | none => exact absurd hid (hdata d hd)
    | some id => rfl
  obtain rfl := Except.ok.inj (hids.symm.trans hmap)
  intro opId
  rw [List.mem_map]
  refine exists_congr fun d => and_congr_right fun hd => ?_
  cases hid : d.opId with
  | none => exact absurd hid (hdata d hd)
  | some id => simp

theorem call_identified (h : w.Identified) (hc : c.Identified) : (w.call c).2.Identified := by
  cases c with
  | appendOp op => exact appendOp_identified h op
  | mergeWithPeer peer => exact mergeWithPeer_identified h peer
  | loadFromData data =>
    obtain ⟨ids, hload, hmem⟩ := @loadFromData_identified w data hc
    constructor
    · rw [ViewedStore.call, ViewedStore.loadFromData, hload]
      exact hc
    · rw [ViewedStore.call, ViewedStore.loadFromData, hload]
      exact hmem

/-- A document whose parents are texts is read as it was saved, and no other. -/
theorem savedData_eq_iff (store : AutomergePlanStore) : savedData store = store.doc ↔ TextKeys store.doc := by
  constructor
  · intro h
    have hfold : ∀ (entries : List (Json × List Json)) (edges : Table Json (List Json)),
        (∀ parent ∈ edges.keys, ∃ s, parent = .str s) →
        ∀ parent ∈ (entries.foldl (fun edges entry => edges.upsert (.str (keyText entry.1)) entry.2) edges).keys,
          ∃ s, parent = .str s := by
      intro entries
      induction entries with
      | nil => exact fun _ hedges => hedges
      | cons entry rest ih =>
        intro edges hedges
        refine ih _ ?_
        intro parent hparent
        rcases Table.mem_keys_upsert.mp hparent with rfl | hparent
        · exact ⟨_, rfl⟩
        · exact hedges parent hparent
    unfold TextKeys
    rw [← h]
    exact hfold store.doc.edges.entries .empty nofun
  · intro htext
    have hkeys : store.doc.edges.entries.foldl
        (fun (edges : Table Json (List Json)) entry => edges.upsert (.str (keyText entry.1)) entry.2) .empty =
        store.doc.edges.entries.foldl (fun edges entry => edges.upsert entry.1 entry.2) .empty := by
      refine List.foldl_ext _ _ _ ?_
      intro edges entry hentry
      obtain ⟨s, hs⟩ := htext entry.1 (List.mem_map_of_mem hentry)
      rw [hs, keyText]
    rw [savedData, hkeys, Table.foldl_upsert_entries]

/-- Loading what is saved gives the document and its ids, and the views of the other
stay as they are. -/
theorem loadsAs_iff (h : w.Identified) : w.LoadsAs other ↔ TextKeys w.store.doc ∧ other.views.SameAnswers w.views := by
  have hops : ∀ d ∈ (savedData w.store).ops, d.opId ≠ none := h.ids
  obtain ⟨ids, hload, hmem⟩ := @loadFromData_identified other (savedData w.store) hops
  have hloaded : other.loadFromData (savedData w.store) = (.ok (), other.replace ⟨savedData w.store, ids⟩) := by
    rw [ViewedStore.loadFromData, hload]
  rw [← savedData_eq_iff]
  constructor
  · rintro ⟨loaded, hcall, hdoc, _, hviews⟩
    rw [hloaded] at hcall
    cases hcall
    exact ⟨hdoc, hviews⟩
  · rintro ⟨hdoc, hviews⟩
    refine ⟨_, hloaded, hdoc, ?_, hviews⟩
    intro opId
    exact (hmem opId).trans (h.known opId).symm

end Loading

theorem init_showsDocument : ViewedStore.init.ShowsDocument := ⟨_, rfl, .refl _⟩

theorem init_identified : ViewedStore.init.Identified := ⟨List.forall_mem_nil _, by simp [ViewedStore.init, AutomergePlanStore.init]⟩

/-- The views show the document at every step of a run exactly if each call keeps them, and a
store is loaded as it was saved exactly if the parents are texts and the views of the one
that loads it answer as its own. -/
theorem views_show_document_iff {steps : List (ViewedStore × Call × ViewedStore)} {w : ViewedStore}
    (hrun : Trace ViewedStore.Step .init steps w) :
    ((∀ e ∈ steps, e.2.2.ShowsDocument) ↔ ∀ e ∈ steps, e.2.1.KeepsViews e.1) ∧
    ((∀ e ∈ steps, e.2.1.Identified) → ∀ other : ViewedStore,
      w.LoadsAs other ↔ TextKeys w.store.doc ∧ other.views.SameAnswers w.views) := by
  constructor
  · refine @Trace.forall_iff _ _ _ _ _ _ (fun w c => c.KeepsViews w) ViewedStore.ShowsDocument
      (fun _ _ w' => w'.ShowsDocument) hrun init_showsDocument ?_ ?_
    · rintro w c w' h hkeeps rfl
      exact (call_shows h c).mpr hkeeps
    · rintro w c w' h rfl
      exact call_shows h c
  · intro hcalls other
    have hpreserved : ∀ {w : ViewedStore} {c : Call} {w' : ViewedStore}, w.Identified → c.Identified → w.Step c w' →
        w'.Identified := by
      rintro w c w' h hc rfl
      exact call_identified h hc
    exact loadsAs_iff (hrun.invariant init_identified hpreserved hcalls)

section Sample

def draftOp : PlanOp := ⟨"op-1", "north", 1, "alice", .addTask, "a", .empty, 0⟩

def draftRun : List (ViewedStore × Call × ViewedStore) := stepsOf (fun w c => (w.call c).2) .init [.appendOp draftOp]

theorem draftRun_trace : Trace ViewedStore.Step .init draftRun (ViewedStore.init.appendOp draftOp).2 :=
  .next .start rfl

theorem views_show_document_iff_sample : draftRun.length = 1 ∧ ∀ e ∈ draftRun, e.2.2.ShowsDocument := by
  refine ⟨rfl, ?_⟩
  refine (views_show_document_iff draftRun_trace).1.mpr (List.forall_mem_singleton.mpr fun _ => ⟨?_, ?_⟩)
  · nofun
  · nofun

/-- A document that is loaded into a new store is not what its views show. -/
theorem loaded_document_is_not_shown :
    ¬(ViewedStore.init.loadFromData (savedData (ViewedStore.init.appendOp draftOp).2.store)).2.ShowsDocument := by
  rintro ⟨fresh, hfresh, hsame⟩
  have htask := hsame ⟨id, id, fun _ _ => Iff.rfl, fun _ _ => Iff.rfl⟩ (.task "a")
  cases hfresh
  cases htask

end Sample

end AgentNetwork.Plan.StoreViews
