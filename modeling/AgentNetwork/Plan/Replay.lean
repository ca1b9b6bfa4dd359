import AgentNetwork.Plan.AutomergeStore

namespace AgentNetwork.Plan

open Relational StableSort

/-- The keys that `_apply_to_state` reads are there; task ids are strings. -/
structure PlanOp.WellFormed (op : PlanOp) : Prop where
  state : op.opType = .state → ∃ v, op.payload.get? "state" = some v
  link : op.opType = .link →
    ∃ p c, op.payload.get? "parent" = some (.str p) ∧ op.payload.get? "child" = some (.str c)

namespace PlanOp

/-- The operations that make the task exist. -/
def creates (t : String) (op : PlanOp) : Bool := op.taskId = t ∧ (op.opType = .addTask ∨ op.opType = .state)

def setsState (t : String) (op : PlanOp) : Bool := op.taskId = t ∧ op.opType = .state

def carries (t k : String) (op : PlanOp) : Bool := op.taskId = t ∧ op.opType = .annotate ∧ op.payload.contains k

/-- The edge that a LINK adds. -/
def Links (p c : Json) (op : PlanOp) : Prop :=
  op.opType = .link ∧ op.payload.get? "parent" = some p ∧ op.payload.get? "child" = some c

/-- The state a task has from this operation. -/
def stateValue (op : PlanOp) : Json :=
  if op.opType = .addTask then .str TaskState.draft.value else (op.payload.get? "state").getD .null

/-- The type of a task that this operation creates. -/
def typeValue (op : PlanOp) : Json :=
  if op.opType = .addTask then (op.payload.get? "type").getD .null else .null

def toTask (op : PlanOp) : Task := ⟨op.taskId, op.threadId, op.typeValue, op.stateValue, op.lamport⟩

def annotationFrom (k : String) (op : PlanOp) : Annotation := ⟨(op.payload.get? k).getD .null, op.lamport⟩

end PlanOp

open PlanOp AutomergePlanStore

/-- What one operation does to one task. -/
def taskStep (t : String) (task : Option Task) (op : PlanOp) : Option Task :=
  match task with
  | none => if op.creates t then some op.toTask else none
  | some task =>
    if op.setsState t ∧ task.lastLamport < op.lamport then
      some { task with state := op.stateValue, lastLamport := op.lamport }
    else some task

/-- What one operation does to one annotation. -/
def annotationStep (t k : String) (entry : Option Annotation) (op : PlanOp) : Option Annotation :=
  if op.carries t k then
    match entry with
    | none => some (op.annotationFrom k)
    | some old => if old.lamport < op.lamport then some (op.annotationFrom k) else some old
  else entry

/-- The task made by its creator and by the state with the highest lamport. -/
def settle (creator last : Option PlanOp) : Option Task :=
  match creator, last with
  | none, _ => none
  | some c, none => some c.toTask
  | some c, some w =>
    if c.lamport < w.lamport then some { c.toTask with state := w.stateValue, lastLamport := w.lamport }
    else some c.toTask

theorem creates_of_setsState {t : String} {op : PlanOp} (h : op.setsState t = true) : op.creates t = true := by
  simp only [setsState, decide_eq_true_eq] at h
  simp only [creates, decide_eq_true_eq]
  exact ⟨h.1, Or.inr h.2⟩

theorem taskStep_of_ne {t : String} {op : PlanOp} (ht : op.taskId ≠ t) (task : Option Task) : taskStep t task op = task := by
  cases task <;> simp [taskStep, creates, setsState, ht]

/-- Only ADD_TASK and STATE touch a task. -/
theorem taskStep_of_kind {op : PlanOp} (hadd : op.opType ≠ .addTask) (hstate : op.opType ≠ .state) (t : String)
    (task : Option Task) : taskStep t task op = task := by
  cases task <;> simp [taskStep, creates, setsState, hadd, hstate]

theorem links_append_of_kind {l : List PlanOp} {op : PlanOp} (h : op.opType ≠ .link) (p c : Json) :
    (∃ x ∈ l ++ [op], x.Links p c) ↔ ∃ x ∈ l, x.Links p c := by
  simp [Links, h, or_and_right, exists_or]

/-- Whatever the order, the first creator makes the task and the first of the
highest states above it settles its state. -/
theorem foldl_taskStep (t : String) (l : List PlanOp) :
    l.foldl (taskStep t) none = settle (l.filter (creates t)).head? (firstGreatest PlanOp.lamport (l.filter (setsState t))) := by
  induction l using List.reverseRecOn with
  | nil => rfl
  | append_singleton l op ih =>
    rw [List.foldl_append, ih, List.filter_append, List.filter_append]
    have hlast : (l.filter (creates t)).head? = none → firstGreatest PlanOp.lamport (l.filter (setsState t)) = none := by
      intro h
      rw [List.head?_eq_none_iff] at h
      rw [firstGreatest_eq_none, List.filter_eq_nil_iff]
      intro op hm hs
      exact List.filter_eq_nil_iff.mp h op hm (creates_of_setsState hs)
    rw [List.head?_append]
    cases hs : op.setsState t with
    | true =>
      have hc := creates_of_setsState hs
      simp only [List.foldl_cons, List.foldl_nil, List.filter_cons_of_pos hs, List.filter_cons_of_pos hc, List.filter_nil,
        firstGreatest_concat, List.head?_cons]
      cases hcreator : (l.filter (creates t)).head? with
      | none =>
        rw [hlast hcreator]
        simp [settle, taskStep, hc]
      | some c =>
        cases hw : firstGreatest PlanOp.lamport (l.filter (setsState t)) with
        | none => simp [settle, taskStep, hs, toTask]
        | some w =>
          simp only [settle, taskStep, Option.or_some]
          by_cases hcw : c.lamport < w.lamport
          · by_cases hwo : w.lamport < op.lamport
            · simp [hcw, hwo, hs, hcw.trans hwo]
            · simp [hcw, hwo, hs]
          · by_cases hco : c.lamport < op.lamport
            · have hwo : w.lamport < op.lamport := by omega
              simp [hcw, hco, hwo, hs, toTask]
            · by_cases hwo : w.lamport < op.lamport
              · simp [hcw, hco, hwo, toTask]
              · simp [hcw, hco, hwo, toTask]
    | false =>
      have hs' : ¬op.setsState t = true := by simp [hs]
      simp only [List.foldl_cons, List.foldl_nil, List.filter_cons_of_neg hs', List.filter_nil, List.append_nil]
      cases hcreator : (l.filter (creates t)).head? with
      | none =>
        rw [hlast hcreator]
        cases hc : op.creates t <;> simp [settle, taskStep, hc]
      | some c =>
        have hsome : settle (some c) (firstGreatest PlanOp.lamport (l.filter (setsState t))) ≠ none := by
          cases firstGreatest PlanOp.lamport (l.filter (setsState t)) with
          | none => simp [settle]
          | some w =>
            simp only [settle]
            split <;> simp
        obtain ⟨task, htask⟩ := Option.ne_none_iff_exists'.mp hsome
        rw [htask]
        simp only [taskStep, hs, Bool.false_eq_true, false_and, if_false, Option.some_or, htask]

theorem foldl_annotationStep (t k : String) (l : List PlanOp) :
    l.foldl (annotationStep t k) none = (firstGreatest PlanOp.lamport (l.filter (carries t k))).map (annotationFrom k) := by
  induction l using List.reverseRecOn with
  | nil => rfl
  | append_singleton l op ih =>
    rw [List.foldl_append, ih, List.filter_append]
    cases hc : op.carries t k with
    | false =>
      have hc' : ¬op.carries t k = true := by simp [hc]
      simp [annotationStep, hc]
    | true =>
      simp only [List.foldl_cons, List.foldl_nil, List.filter_cons_of_pos hc, List.filter_nil, firstGreatest_concat]
      cases hw : firstGreatest PlanOp.lamport (l.filter (carries t k)) with
      | none => simp [annotationStep, hc]
      | some w =>
        by_cases hwo : w.lamport < op.lamport
        · simp [annotationStep, hc, hwo, annotationFrom]
        · simp [annotationStep, hc, hwo, annotationFrom]

end AgentNetwork.Plan

namespace AgentNetwork.Plan

open Relational StableSort PlanOp AutomergePlanStore

/-- The annotation of a task under a key. -/
def CRDTDocument.annotationOf (doc : CRDTDocument) (t k : String) : Option Annotation :=
  (doc.annotations.get? t).bind fun annotations => annotations.get? k

def CRDTDocument.HasEdge (doc : CRDTDocument) (p c : Json) : Prop := c ∈ (doc.edges.get? p).getD []

/-- The document shows the operations of the list, applied in its order. -/
structure Shows (l : List PlanOp) (doc : CRDTDocument) : Prop where
  tasks : ∀ t, doc.tasks.get? t = l.foldl (taskStep t) none
  annotations : ∀ t k, doc.annotationOf t k = l.foldl (annotationStep t k) none
  annotated : ∀ t, doc.annotations.contains t = true ↔ ∃ op ∈ l, op.taskId = t ∧ op.opType = .annotate
  edges : ∀ p c, doc.HasEdge p c ↔ ∃ op ∈ l, op.Links p c

section Steps

variable {doc : CRDTDocument} {op : PlanOp}

theorem addTask_tasks (h : op.opType = .addTask) (t : String) :
    (addTask doc op).tasks.get? t = taskStep t (doc.tasks.get? t) op := by
  have hset : op.setsState t = false := by simp [setsState, h]
  unfold addTask
  split
  next hc =>
    obtain ⟨task, hg⟩ := Table.contains_eq_true_iff.mp hc
    by_cases ht : op.taskId = t
    · rw [ht] at hg
      simp [hg, taskStep, hset]
    · have hcreates : op.creates t = false := by simp [creates, ht]
      cases hd : doc.tasks.get? t <;> simp [taskStep, hset, hcreates]
  next hc =>
    have hg := Table.contains_eq_false_iff.mp (by simpa using hc)
    simp only [Table.get?_upsert]
    by_cases ht : op.taskId = t
    · rw [ht] at hg
      have hcreates : op.creates t = true := by simp [creates, ht, h]
      rw [if_pos ht.symm, hg, taskStep, if_pos hcreates]
      simp [toTask, stateValue, typeValue, h]
    · rw [if_neg (Ne.symm ht)]
      have hcreates : op.creates t = false := by simp [creates, ht]
      cases hd : doc.tasks.get? t <;> simp [taskStep, hset, hcreates]

theorem addTask_frame (doc : CRDTDocument) (op : PlanOp) : (addTask doc op).annotations = doc.annotations ∧
    (addTask doc op).edges = doc.edges ∧ (addTask doc op).ops = doc.ops ∧ (addTask doc op).version = doc.version := by
  unfold addTask
  split <;> exact ⟨rfl, rfl, rfl, rfl⟩

theorem setState_tasks (doc : CRDTDocument) (h : op.opType = .state) {v : Json} (hv : op.payload.get? "state" = some v) :
    ∃ tasks, setState doc op = .ok { doc with tasks := tasks } ∧
      ∀ t, tasks.get? t = taskStep t (doc.tasks.get? t) op := by
  have hfield : payloadField op "state" = .ok v := by simp [payloadField, field, hv]
  have hvalue : op.stateValue = v := by simp [stateValue, h, hv]
  unfold setState
  cases hg : doc.tasks.get? op.taskId with
  | none =>
    refine ⟨_, by simp only [hfield]; rfl, ?_⟩
    intro t
    rw [Table.get?_upsert]
    by_cases ht : op.taskId = t
    · subst ht
      rw [if_pos rfl, hg, taskStep, if_pos (by simp [creates, h])]
      simp [toTask, hvalue, typeValue, h]
    · rw [if_neg (Ne.symm ht), taskStep_of_ne ht]
  | some task =>
    simp only
    by_cases hlamport : op.lamport > task.lastLamport
    · rw [if_pos hlamport]
      refine ⟨_, by simp only [hfield]; rfl, ?_⟩
      intro t
      rw [Table.get?_upsert]
      by_cases ht : op.taskId = t
      · subst ht
        rw [if_pos rfl, hg, taskStep, if_pos ⟨by simp [setsState, h], hlamport⟩, hvalue]
      · rw [if_neg (Ne.symm ht), taskStep_of_ne ht]
    · rw [if_neg hlamport]
      refine ⟨doc.tasks, rfl, ?_⟩
      intro t
      by_cases ht : op.taskId = t
      · subst ht
        rw [hg, taskStep, if_neg fun hs => hlamport hs.2]
      · rw [taskStep_of_ne ht]

theorem addLink_edges (doc : CRDTDocument) (h : op.opType = .link) {parent child : Json}
    (hp : op.payload.get? "parent" = some parent) (hc : op.payload.get? "child" = some child)
    (hhash : parent.hashable = true) :
    ∃ edges, addLink doc op = .ok { doc with edges := edges } ∧
      ∀ p c, c ∈ (edges.get? p).getD [] ↔ doc.HasEdge p c ∨ op.Links p c := by
  have hparent : payloadField op "parent" = .ok parent := by simp [payloadField, field, hp]
  have hchild : payloadField op "child" = .ok child := by simp [payloadField, field, hc]
  refine ⟨_, by simp only [addLink, hparent, hchild, bind, Except.bind, if_pos hhash]; rfl, ?_⟩
  intro p c
  rw [Table.get?_upsert]
  simp only [CRDTDocument.HasEdge, Links, h, hp, hc, true_and, Option.some.injEq]
  by_cases hpp : p = parent
  · subst hpp
    by_cases hmem : child ∈ (doc.edges.get? p).getD []
    · simp only [if_true, if_pos hmem, Option.getD_some, true_and]
      constructor
      · exact Or.inl
      · rintro (hm | rfl)
        · exact hm
        · exact hmem
    · simp [hmem, eq_comm]
  · simp [hpp, Ne.symm hpp]

theorem annotateKeys_get? (lamport : Int) (k : String) (entries : List (String × Json))
    (hn : (entries.map Prod.fst).Nodup) (annotations : Table String Annotation) :
    (entries.foldl (annotateKey lamport) annotations).get? k =
      match entries.lookup k with
      | none => annotations.get? k
      | some v =>
        match annotations.get? k with
        | none => some ⟨v, lamport⟩
        | some old => if old.lamport < lamport then some ⟨v, lamport⟩ else some old := by
  induction entries generalizing annotations with
  | nil => rfl
  | cons entry rest ih =>
    obtain ⟨j, v⟩ := entry
    simp only [List.map_cons, List.nodup_cons] at hn
    have hother : k ≠ j → (annotateKey lamport annotations (j, v)).get? k = annotations.get? k := by
      intro hk
      unfold annotateKey
      split
      · simp [hk]
      · split <;> simp [hk]
    rw [List.foldl_cons, ih hn.2]
    by_cases hk : k = j
    · subst hk
      have hrest : rest.lookup k = none := by
        rw [List.lookup_eq_none_iff]
        intro e he
        have hne : e.1 ≠ k := fun hek => hn.1 (List.mem_map.mpr ⟨e, he, hek⟩)
        simpa using hne.symm
      simp only [hrest, List.lookup_cons_self]
      unfold annotateKey
      cases hg : annotations.get? k with
      | none => simp
      | some old =>
        simp only [gt_iff_lt]
        split
        · simp
        · exact hg
    · have hkj : (k == j) = false := by simpa using hk
      simp only [List.lookup_cons, hkj, hother hk]

theorem annotate_annotationOf (h : op.opType = .annotate) (t k : String) :
    (annotate doc op).annotationOf t k = annotationStep t k (doc.annotationOf t k) op := by
  unfold CRDTDocument.annotationOf annotate
  simp only [Table.get?_upsert]
  by_cases ht : op.taskId = t
  · subst ht
    rw [if_pos rfl, Option.bind_some, annotateKeys_get? op.lamport k op.payload.entries op.payload.keysNodup]
    have hbefore : ((doc.annotations.get? op.taskId).getD .empty).get? k =
        (doc.annotations.get? op.taskId).bind fun annotations => annotations.get? k := by
      cases doc.annotations.get? op.taskId <;> rfl
    rw [hbefore]
    change (match op.payload.get? k with
      | none => (doc.annotations.get? op.taskId).bind fun annotations => annotations.get? k
      | some v => _) = _
    cases hv : op.payload.get? k with
    | none =>
      have hcarries : op.carries op.taskId k = false := by simp [carries, Table.contains, hv]
      simp [annotationStep, hcarries]
    | some v =>
      have hcarries : op.carries op.taskId k = true := by simp [carries, h, Table.contains, hv]
      generalize (doc.annotations.get? op.taskId).bind (fun annotations => annotations.get? k) = old
      cases old <;> simp [annotationStep, hcarries, annotationFrom, hv]
  · have hcarries : op.carries t k = false := by simp [carries, ht]
    simp [annotationStep, hcarries, Ne.symm ht]

/-- Applying an operation with the keys that are read succeeds and shows it last. -/
theorem Shows.apply_of_keys {l : List PlanOp} (hs : Shows l doc)
    (hstate : op.opType = .state → ∃ v, op.payload.get? "state" = some v)
    (hends : op.opType = .link → ∃ p c, op.payload.get? "parent" = some p ∧ op.payload.get? "child" = some c ∧
      p.hashable = true) :
    ∃ doc', applyToState doc op = .ok doc' ∧ Shows (l ++ [op]) doc' ∧ doc'.ops = doc.ops ∧ doc'.version = doc.version := by
  have hfold {α : Type} (f : Option α → PlanOp → Option α) :
      (l ++ [op]).foldl f none = f (l.foldl f none) op := by simp
  have hunchanged (h : op.opType ≠ .annotate) (t k : String) (a : Option Annotation) :
      annotationStep t k a op = a := by
    simp [annotationStep, carries, h]
  have hannotated (h : op.opType ≠ .annotate) (t : String) : doc.annotations.contains t = true ↔
      ∃ x ∈ l ++ [op], x.taskId = t ∧ x.opType = .annotate := by
    rw [hs.annotated]
    simp [h, or_and_right, exists_or]
  have hlink (h : op.opType ≠ .link) (p c : Json) : doc.HasEdge p c ↔ ∃ x ∈ l ++ [op], x.Links p c := by
    rw [hs.edges, links_append_of_kind h]
  unfold applyToState
  cases h : op.opType with
  | addTask =>
    obtain ⟨hannotations, hedges, hops, hversion⟩ := addTask_frame doc op
    refine ⟨addTask doc op, rfl, ⟨?_, ?_, ?_, ?_⟩, hops, hversion⟩
    · intro t
      rw [addTask_tasks h, hs.tasks, hfold]
    · intro t k
      rw [hfold, hunchanged (by simp [h]), ← hs.annotations, CRDTDocument.annotationOf, hannotations]
      rfl
    · intro t
      rw [← hannotated (by simp [h]), hannotations]
    · intro p c
      rw [← hlink (by simp [h]), CRDTDocument.HasEdge, hedges]
      rfl
  | state =>
    obtain ⟨v, hv⟩ := hstate h
    obtain ⟨tasks, hok, htasks⟩ := setState_tasks doc h hv
    refine ⟨_, hok, ⟨?_, ?_, hannotated (by simp [h]), hlink (by simp [h])⟩, rfl, rfl⟩
    · intro t
      rw [htasks, hs.tasks, hfold]
    · intro t k
      rw [hfold, hunchanged (by simp [h]), ← hs.annotations]
      rfl
  | link =>
    obtain ⟨parent, child, hp, hc, hhash⟩ := hends h
    obtain ⟨edges, hok, hedges⟩ := addLink_edges doc h hp hc hhash
    refine ⟨_, hok, ⟨?_, ?_, hannotated (by simp [h]), ?_⟩, rfl, rfl⟩
    · intro t
      rw [hfold, taskStep_of_kind (by simp [h]) (by simp [h]), ← hs.tasks]
    · intro t k
      rw [hfold, hunchanged (by simp [h]), ← hs.annotations]
      rfl
    · intro p c
      rw [CRDTDocument.HasEdge, hedges, hs.edges]
      simp [or_and_right, exists_or]
  | annotate =>
    refine ⟨annotate doc op, rfl, ⟨?_, ?_, ?_, hlink (by simp [h])⟩, rfl, rfl⟩
    · intro t
      rw [hfold, taskStep_of_kind (by simp [h]) (by simp [h]), ← hs.tasks]
      rfl
    · intro t k
      rw [annotate_annotationOf h, hs.annotations, hfold]
    · intro t
      simp only [annotate, Table.contains, Table.get?_upsert, List.mem_append, List.mem_singleton, or_and_right,
        exists_or, exists_eq_left, h, and_true]
      by_cases ht : op.taskId = t
      · simp [ht]
      · have hbefore := hs.annotated t
        rw [Table.contains] at hbefore
        simp only [if_neg (Ne.symm ht), ht, or_false]
        exact hbefore
  | requires =>
    refine ⟨doc, rfl, ⟨?_, ?_, hannotated (by simp [h]), hlink (by simp [h])⟩, rfl, rfl⟩
    · intro t
      rw [hfold, taskStep_of_kind (by simp [h]) (by simp [h]), ← hs.tasks]
    · intro t k
      rw [hfold, hunchanged (by simp [h]), ← hs.annotations]
  | produces =>
    refine ⟨doc, rfl, ⟨?_, ?_, hannotated (by simp [h]), hlink (by simp [h])⟩, rfl, rfl⟩
    · intro t
      rw [hfold, taskStep_of_kind (by simp [h]) (by simp [h]), ← hs.tasks]
    · intro t k
      rw [hfold, hunchanged (by simp [h]), ← hs.annotations]

theorem Shows.apply {l : List PlanOp} (hs : Shows l doc) (hw : op.WellFormed) :
    ∃ doc', applyToState doc op = .ok doc' ∧ Shows (l ++ [op]) doc' ∧ doc'.ops = doc.ops ∧ doc'.version = doc.version := by
  refine hs.apply_of_keys hw.state fun h => ?_
  obtain ⟨p, c, hp, hc⟩ := hw.link h
  exact ⟨.str p, .str c, hp, hc, rfl⟩

end Steps

end AgentNetwork.Plan
