import AgentNetwork.Handlers.UpdatePlan
import AgentNetwork.Plan.Failures
import AgentNetwork.Plan.PatchOrder

/-! A patch that is merged alone, beside its operations appended as an update appends them. -/

namespace AgentNetwork.Handlers

open Relational StableSort DepthFirst Plan Plan.PatchValidator

/-- What an operation says, whoever sends it and when. -/
structure Body where
  type : Plan.OpType
  taskId : String
  payload : Table String Json
  deriving DecidableEq

namespace Body

/-- The operations that make the task exist. -/
def creates (t : String) (b : Body) : Bool := b.taskId = t ∧ (b.type = .addTask ∨ b.type = .state)

/-- The operations of one type on the task. -/
def isAt (t : String) (type : Plan.OpType) (b : Body) : Bool := b.taskId = t ∧ b.type = type

def carries (k : String) (b : Body) : Bool := b.payload.contains k

/-- The edge of a LINK. -/
def edge (b : Body) : Option (Json × Json) := if b.type = .link then payloadEdge b.payload else none

/-- The state that the operation gives a task. -/
def state (b : Body) : Json :=
  if b.type = .addTask then .str TaskState.draft.value else (b.payload.get? "state").getD .null

/-- The type that the operation gives a task that it creates. -/
def taskType (b : Body) : Json := if b.type = .addTask then (b.payload.get? "type").getD .null else .null

end Body

open Body

/-- The operations of one type on one task. -/
def place (bodies : List Body) (t : String) (type : Plan.OpType) : List Body := bodies.filter (isAt t type)

/-- The state and the type of a task: the last STATE sets the one, the operation that creates it the other. -/
def taskOf (bodies : List Body) (t : String) : Option (Json × Json) :=
  (bodies.filter (creates t)).head?.map fun creator =>
    (((place bodies t .state).getLast?.getD creator).state, creator.taskType)

/-- The value of an annotation: the last one given under the key. -/
def noteOf (bodies : List Body) (t k : String) : Option Json :=
  ((place bodies t .annotate).filter (carries k)).getLast?.map fun b => (b.payload.get? k).getD .null

def edgesOf (bodies : List Body) : List (Json × Json) := bodies.filterMap edge

def bodyOf (op : PlanOp) : Body := ⟨op.opType, op.taskId, op.payload⟩

section Shown

variable {l : List PlanOp} {doc : CRDTDocument}

theorem filter_bodyOf (p : Body → Bool) (l : List PlanOp) :
    (l.map bodyOf).filter p = (l.filter fun op => p (bodyOf op)).map bodyOf := List.filter_map

theorem place_bodyOf (l : List PlanOp) (t : String) :
    place (l.map bodyOf) t .state = (l.filter (PlanOp.setsState t)).map bodyOf := filter_bodyOf _ l

/-- Operations with increasing lamports show the task that their bodies tell. -/
theorem task_of_shows (hs : Shows l doc) (hinc : l.Pairwise fun a b => a.lamport < b.lamport) (t : String) :
    (doc.tasks.get? t).map (fun task => (task.state, task.taskType)) = taskOf (l.map bodyOf) t := by
  have hlast : firstGreatest PlanOp.lamport (l.filter (PlanOp.setsState t)) = (l.filter (PlanOp.setsState t)).getLast? :=
    firstGreatest_of_increasing _ (hinc.filter _)
  have hcreators : (l.map bodyOf).filter (creates t) = (l.filter (PlanOp.creates t)).map bodyOf := filter_bodyOf _ l
  rw [hs.tasks, foldl_taskStep, hlast, taskOf, place_bodyOf, hcreators, List.head?_map, List.getLast?_map]
  cases hhead : (l.filter (PlanOp.creates t)).head? with
  | none => rfl
  | some c =>
    cases hstate : (l.filter (PlanOp.setsState t)).getLast? with
    | none => rfl
    | some w =>
      by_cases hlt : c.lamport < w.lamport
      · rw [settle, if_pos hlt]
        rfl
      · -- the last state is the operation that creates the task
        obtain ⟨rest, hrest⟩ := List.head?_eq_some_iff.mp hhead
        obtain ⟨hmem, hsets⟩ := List.mem_filter.mp (List.mem_of_getLast? hstate)
        have hw : w ∈ c :: rest := hrest ▸ List.mem_filter.mpr ⟨hmem, creates_of_setsState hsets⟩
        have hfirst := (List.pairwise_cons.mp (hrest ▸ hinc.filter (PlanOp.creates t))).1
        obtain rfl : w = c := (List.mem_cons.mp hw).resolve_right fun hin => hlt (hfirst w hin)
        rw [settle, if_neg hlt]
        rfl

theorem note_of_shows (hs : Shows l doc) (hinc : l.Pairwise fun a b => a.lamport < b.lamport) (t k : String) :
    (doc.annotationOf t k).map Annotation.value = noteOf (l.map bodyOf) t k := by
  have hlast : firstGreatest PlanOp.lamport (l.filter (PlanOp.carries t k)) = (l.filter (PlanOp.carries t k)).getLast? :=
    firstGreatest_of_increasing _ (hinc.filter _)
  have hcarriers : (place (l.map bodyOf) t .annotate).filter (Body.carries k) = (l.filter (PlanOp.carries t k)).map bodyOf := by
    rw [place, List.filter_filter, filter_bodyOf]
    congr 1
    refine List.filter_congr fun op _ => ?_
    rw [Bool.eq_iff_iff]
    simp only [Body.carries, isAt, PlanOp.carries, bodyOf, Bool.and_eq_true, decide_eq_true_eq]
    constructor
    · rintro ⟨hkey, hat⟩
      obtain ⟨htask, htype⟩ := of_decide_eq_true hat
      exact ⟨htask, htype, hkey⟩
    · rintro ⟨htask, htype, hkey⟩
      exact ⟨hkey, decide_eq_true ⟨htask, htype⟩⟩
  rw [hs.annotations, foldl_annotationStep, hlast, noteOf, hcarriers, List.getLast?_map, Option.map_map, Option.map_map]
  rfl

theorem edge_of_shows (hs : Shows l doc) (p c : Json) : doc.HasEdge p c ↔ (p, c) ∈ edgesOf (l.map bodyOf) := by
  rw [hs.edges, edgesOf, List.filterMap_map, List.mem_filterMap]
  refine exists_congr fun op => and_congr_right fun _ => ?_
  by_cases hlink : op.opType = .link
  · simp [PlanOp.Links, Body.edge, bodyOf, hlink, payloadEdge, Option.bind_eq_some_iff]
  · simp [PlanOp.Links, Body.edge, bodyOf, hlink]

end Shown

/-- The operation that a merge keeps of a place: the first one for tasks and states, the
last one for the other types. -/
def kept (own : List Body) (t : String) (type : Plan.OpType) : Option Body :=
  if type = .addTask ∨ type = .state then (place own t type).head? else (place own t type).getLast?

/-- A merge has the operation kept of each place, the tasks before the others. -/
structure Merges (own merged : List Body) : Prop where
  split : ∃ tasks others, merged = tasks ++ others ∧ (∀ b ∈ tasks, b.type = .addTask) ∧ ∀ b ∈ others, b.type ≠ .addTask
  mem_iff : ∀ b, b ∈ merged ↔ kept own b.taskId b.type = some b

/-- Nothing of an operation is lost in a merge with the others: of the states of a task the
first is as the last, a task that a STATE creates is added without a type, each edge is that of
the last LINK of some task, and the last annotation of a task has all keys. -/
structure NothingLost (own : List Body) : Prop where
  states : ∀ t, (place own t .state).head?.map state = (place own t .state).getLast?.map state
  types : ∀ t creator, (own.filter (creates t)).head? = some creator → creator.type = .state →
    ∀ added, (place own t .addTask).head? = some added → added.taskType = .null
  links : ∀ edge ∈ edgesOf own, ∃ t last, (place own t .link).getLast? = some last ∧ last.edge = some edge
  notes : ∀ t last, (place own t .annotate).getLast? = some last → ∀ b ∈ place own t .annotate, ∀ k,
    b.carries k = true → last.carries k = true

theorem head?_of_mem_iff {α : Type} {l : List α} {o : Option α} (h : ∀ a, a ∈ l ↔ o = some a) : l.head? = o := by
  cases l with
  | nil =>
    cases o with
    | none => rfl
    | some a => exact absurd ((h a).mpr rfl) List.not_mem_nil
  | cons a rest => exact ((h a).mp List.mem_cons_self).symm

theorem getLast?_of_mem_iff {α : Type} {l : List α} {o : Option α} (h : ∀ a, a ∈ l ↔ o = some a) : l.getLast? = o := by
  rw [← List.head?_reverse]
  exact head?_of_mem_iff fun a => List.mem_reverse.trans (h a)

theorem mem_place {bodies : List Body} {t : String} {type : Plan.OpType} {b : Body} :
    b ∈ place bodies t type ↔ b ∈ bodies ∧ b.taskId = t ∧ b.type = type := by
  simp [place, isAt]

theorem kept_mem {own : List Body} {t : String} {type : Plan.OpType} {b : Body} (h : kept own t type = some b) :
    b ∈ own ∧ b.taskId = t ∧ b.type = type := by
  refine mem_place.mp ?_
  unfold kept at h
  split at h
  next => exact List.mem_of_mem_head? h
  next => exact List.mem_of_getLast? h

/-- The tasks and states of a task are among the operations that make it exist. -/
theorem place_of_creators (own : List Body) (t : String) {type : Plan.OpType} (h : type = .addTask ∨ type = .state) :
    place own t type = (own.filter (creates t)).filter (isAt t type) := by
  rw [List.filter_filter]
  refine List.filter_congr fun b _ => ?_
  cases hat : isAt t type b with
  | false => rfl
  | true =>
    obtain ⟨htask, htype⟩ := of_decide_eq_true hat
    have hcreates : creates t b = true := decide_eq_true ⟨htask, htype ▸ h⟩
    rw [hcreates]
    rfl

section Merged

variable {own merged : List Body} (h : Merges own merged)

include h

/-- A merge has at most one operation at a place. -/
theorem mem_place_merged {t : String} {type : Plan.OpType} {b : Body} :
    b ∈ place merged t type ↔ kept own t type = some b := by
  rw [mem_place, h.mem_iff]
  constructor
  · rintro ⟨hkept, rfl, rfl⟩
    exact hkept
  · intro hkept
    obtain ⟨-, rfl, rfl⟩ := kept_mem hkept
    exact ⟨hkept, rfl, rfl⟩

theorem head?_creates_merged (t : String) : (merged.filter (creates t)).head? =
    ((place own t .addTask).head?).or ((place own t .state).head?) := by
  obtain ⟨tasks, others, rfl, htasks, hothers⟩ := h.split
  have hadded : (tasks.filter (creates t)).head? = kept own t .addTask := by
    refine head?_of_mem_iff fun b => ?_
    rw [← mem_place_merged h, mem_place, List.mem_filter, List.mem_append]
    simp only [creates, decide_eq_true_eq]
    constructor
    · rintro ⟨hb, rfl, -⟩
      exact ⟨.inl hb, rfl, htasks b hb⟩
    · rintro ⟨hb, rfl, htype⟩
      exact ⟨hb.resolve_right fun hother => hothers b hother htype, rfl, .inl htype⟩
  have hset : (others.filter (creates t)).head? = kept own t .state := by
    refine head?_of_mem_iff fun b => ?_
    rw [← mem_place_merged h, mem_place, List.mem_filter, List.mem_append]
    simp only [creates, decide_eq_true_eq]
    constructor
    · rintro ⟨hb, rfl, htype⟩
      exact ⟨.inr hb, rfl, htype.resolve_left (hothers b hb)⟩
    · rintro ⟨hb, rfl, htype⟩
      have hnot : b ∉ tasks := fun hin => absurd ((htasks b hin).symm.trans htype) (by decide)
      exact ⟨hb.resolve_left hnot, rfl, .inr htype⟩
  rw [List.filter_append, List.head?_append, hadded, hset]
  rfl

theorem taskOf_merged (t : String) : taskOf merged t =
    (((place own t .addTask).head?).or ((place own t .state).head?)).map fun creator =>
      (((place own t .state).head?.getD creator).state, creator.taskType) := by
  have hstate : (place merged t .state).getLast? = (place own t .state).head? :=
    getLast?_of_mem_iff fun b => mem_place_merged h
  rw [taskOf, head?_creates_merged h, hstate]

theorem tasks_merged_iff (t : String) : taskOf merged t = taskOf own t ↔
    (place own t .state).head?.map state = (place own t .state).getLast?.map state ∧
    ∀ creator, (own.filter (creates t)).head? = some creator → creator.type = .state →
      ∀ added, (place own t .addTask).head? = some added → added.taskType = .null := by
  rw [taskOf_merged h, taskOf, place_of_creators own t (.inl rfl), place_of_creators own t (.inr rfl)]
  cases hcreators : own.filter (creates t) with
  | nil => simp
  | cons creator rest =>
    have hcreates : creates t creator = true := (List.mem_filter.mp (hcreators ▸ List.mem_cons_self)).2
    obtain ⟨htask, htype⟩ := of_decide_eq_true hcreates
    rcases htype with hadd | hset
    · -- the first task is the operation that creates it
      have hadded : isAt t .addTask creator = true := decide_eq_true ⟨htask, hadd⟩
      have hnot : ¬isAt t .state creator = true := by simp [isAt, hadd]
      rw [List.filter_cons_of_pos hadded, List.filter_cons_of_neg hnot]
      cases hstates : rest.filter (isAt t .state) with
      | nil => simp [hadd]
      | cons first others =>
        obtain ⟨last, hlast⟩ : ∃ last, (first :: others).getLast? = some last := ⟨_, List.getLast?_eq_some_getLast (by simp)⟩
        simp [hlast, hadd]
    · have hstate : isAt t .state creator = true := decide_eq_true ⟨htask, hset⟩
      have hnot : ¬isAt t .addTask creator = true := by simp [isAt, hset]
      have hnull : creator.taskType = .null := by simp [taskType, hset]
      rw [List.filter_cons_of_pos hstate, List.filter_cons_of_neg hnot]
      obtain ⟨last, hlast⟩ : ∃ last, (creator :: rest.filter (isAt t .state)).getLast? = some last :=
        ⟨_, List.getLast?_eq_some_getLast (by simp)⟩
      cases hadded : (rest.filter (isAt t .addTask)).head? with
      | none => simp [hlast, hnull]
      | some added => simp [hlast, hset, hnull]

theorem notes_merged_iff (t : String) : (∀ k, noteOf merged t k = noteOf own t k) ↔
    ∀ last, (place own t .annotate).getLast? = some last → ∀ b ∈ place own t .annotate, ∀ k,
      b.carries k = true → last.carries k = true := by
  have hplace : ∀ b, b ∈ place merged t .annotate ↔ (place own t .annotate).getLast? = some b :=
    fun b => mem_place_merged h
  have hmerged (k : String) : ((place merged t .annotate).filter (carries k)).getLast? =
      (place own t .annotate).getLast?.filter (carries k) := by
    refine getLast?_of_mem_iff fun b => ?_
    rw [List.mem_filter, hplace, Option.filter_eq_some_iff]
  constructor
  · intro hsame last hlast b hb k hkey
    have hnote := hsame k
    rw [noteOf, noteOf, hmerged, hlast] at hnote
    by_contra hnot
    rw [Option.filter_some_neg (Bool.eq_false_iff.mpr hnot), Option.map_none, eq_comm, Option.map_eq_none_iff,
      List.getLast?_eq_none_iff] at hnote
    exact List.filter_eq_nil_iff.mp hnote b hb hkey
  · intro hlost k
    rw [noteOf, noteOf, hmerged]
    cases hlast : (place own t .annotate).getLast? with
    | none => rw [List.getLast?_eq_none_iff.mp hlast]; rfl
    | some last =>
      by_cases hkey : last.carries k = true
      · obtain ⟨before, hbefore⟩ := List.getLast?_eq_some_iff.mp hlast
        rw [Option.filter_some_pos hkey, hbefore, List.filter_append, List.filter_cons_of_pos hkey, List.filter_nil,
          List.getLast?_concat]
      · have hnone : (place own t .annotate).filter (carries k) = [] :=
          List.filter_eq_nil_iff.mpr fun b hb hcarries => hkey (hlost last hlast b hb k hcarries)
        rw [Option.filter_some_neg (Bool.eq_false_iff.mpr hkey), hnone]
        rfl

theorem edges_merged_iff : (∀ edge, edge ∈ edgesOf merged ↔ edge ∈ edgesOf own) ↔
    ∀ edge ∈ edgesOf own, ∃ t last, (place own t .link).getLast? = some last ∧ last.edge = some edge := by
  have hmerged (edge : Json × Json) : edge ∈ edgesOf merged ↔
      ∃ t last, (place own t .link).getLast? = some last ∧ last.edge = some edge := by
    rw [edgesOf, List.mem_filterMap]
    constructor
    · rintro ⟨b, hb, hedge⟩
      have hlink : b.type = .link := by
        by_contra hne
        rw [Body.edge, if_neg hne] at hedge
        cases hedge
      refine ⟨b.taskId, b, ?_, hedge⟩
      have hkept := (h.mem_iff b).mp hb
      rwa [hlink] at hkept
    · rintro ⟨t, last, hlast, hedge⟩
      have hkept : kept own t .link = some last := hlast
      exact ⟨last, (mem_place.mp ((mem_place_merged h).mpr hkept)).1, hedge⟩
  constructor
  · exact fun hsame edge hedge => (hmerged edge).mp ((hsame edge).mpr hedge)
  · intro hlost edge
    rw [hmerged]
    refine ⟨?_, hlost edge⟩
    rintro ⟨t, last, hlast, hedge⟩
    exact List.mem_filterMap.mpr ⟨last, (mem_place.mp (List.mem_of_getLast? hlast)).1, hedge⟩

/-- What a merge shows is what its operations show exactly if nothing of them is lost. -/
theorem merged_meaning_iff : ((∀ t, taskOf merged t = taskOf own t) ∧ (∀ edge, edge ∈ edgesOf merged ↔ edge ∈ edgesOf own) ∧
    ∀ t k, noteOf merged t k = noteOf own t k) ↔ NothingLost own := by
  rw [edges_merged_iff h]
  constructor
  · rintro ⟨htasks, hlinks, hnotes⟩
    exact ⟨fun t => ((tasks_merged_iff h t).mp (htasks t)).1, fun t => ((tasks_merged_iff h t).mp (htasks t)).2, hlinks,
      fun t => (notes_merged_iff h t).mp (hnotes t)⟩
  · intro hlost
    exact ⟨fun t => (tasks_merged_iff h t).mpr ⟨hlost.states t, hlost.types t⟩, hlost.links,
      fun t => (notes_merged_iff h t).mpr (hlost.notes t)⟩

end Merged

/-- The operation of an update, unless it is skipped. -/
def admittedBody (op : OpData) : Option Body := (admitOp op).map fun admitted => ⟨admitted.1, admitted.2.1, admitted.2.2⟩

/-- The operations that an update appends of the patch. -/
def ownBodies (patch : PlanPatch) : List Body := patch.ops.filterMap admittedBody

def itemBody (i : PatchValidator.Item) : Body := ⟨i.type, i.taskId, i.entry.op.getPayload⟩

theorem admitOp_some {op : OpData} {admitted : Plan.OpType × String × Table String Json} (h : admitOp op = some admitted) :
    (admitted.1 = .state → admitted.2.2.contains "state" = true) ∧
      (admitted.1 = .link → admitted.2.2.contains "parent" = true ∧ admitted.2.2.contains "child" = true) := by
  unfold admitOp at h
  dsimp only at h
  split at h
  next => cases h
  next =>
    split at h
    next => cases h
    next type hof =>
      split at h
      next => cases h
      next hstate =>
        split at h
        next => cases h
        next hlink =>
          cases h
          constructor
          · intro htype
            by_contra hnot
            exact hstate ⟨htype, hnot⟩
          · intro htype
            by_contra hnot
            exact hlink ⟨htype, not_and_or.mp hnot⟩

/-- An update admits every operation that validation lets through. -/
theorem admittedBody_of_validateOp {idx : Nat} {op : OpData} (h : validateOp idx op = none) (patch : PlanPatch) :
    admittedBody op = some (itemBody (item (patch, op))) := by
  obtain ⟨type, taskId, hop⟩ := validateOp_none h
  obtain ⟨htype, htask, hentry⟩ := @item_of_wellFormed patch _ _ _ hop
  have hof : Plan.OpType.ofValue (op.opType.getD "") = .ok type := by
    rw [hop.opType, Option.getD_some, Plan.ofValue_value]
  unfold validateOp at h
  unfold admittedBody admitOp itemBody
  dsimp only at h ⊢
  rw [htype, htask, hentry]
  split at h
  next => cases h
  next hnonempty =>
    split at h
    next => cases h
    next hnamed =>
      rw [if_neg (not_or.mpr ⟨hnonempty, hnamed⟩)]
      rw [hof] at h ⊢
      have hstate : ¬(type = .state ∧ ¬op.getPayload.contains "state" = true) := by
        rintro ⟨rfl, hmissing⟩
        dsimp only at h
        rw [if_neg hmissing] at h
        cases h
      have hlink : ¬(type = .link ∧ (¬op.getPayload.contains "parent" = true ∨ ¬op.getPayload.contains "child" = true)) := by
        rintro ⟨rfl, hmissing⟩
        dsimp only at h
        rw [if_neg (not_and_or.mpr hmissing)] at h
        cases h
      dsimp only
      rw [if_neg hstate, if_neg hlink, hop.taskId]
      rfl

section Patch

variable {patch : PlanPatch} (hvalid : (validatePatch patch).1 = true)

theorem items_singleton (patch : PlanPatch) : items [patch] = patch.ops.map fun op => item (patch, op) := by
  have hsort : sortOn sortKey [patch] = [patch] := rfl
  rw [items, PatchValidator.sequence, hsort, List.flatMap_cons, List.flatMap_nil, List.append_nil, List.map_map]
  rfl

include hvalid

theorem allValid_singleton : AllValid [patch] := List.forall_mem_singleton.mpr hvalid

/-- The items of a valid patch say what its operations say. -/
theorem map_itemBody : (items [patch]).map itemBody = ownBodies patch := by
  have hops : ∀ op ∈ patch.ops, admittedBody op = some (itemBody (item (patch, op))) := by
    intro op hop
    obtain ⟨idx, hnone⟩ := validatePatch_ops hvalid op hop
    exact admittedBody_of_validateOp hnone patch
  rw [items_singleton, ownBodies, List.map_map]
  generalize patch.ops = ops at hops
  induction ops with
  | nil => rfl
  | cons op rest ih =>
    obtain ⟨hop, hrest⟩ := List.forall_mem_cons.mp hops
    rw [List.map_cons, List.filterMap_cons_some hop, ih hrest]
    rfl

theorem edge_itemBody {i : PatchValidator.Item} (hi : i ∈ items [patch]) :
    (itemBody i).edge = if i.type = .link then some i.edge else none := by
  unfold itemBody Body.edge
  by_cases hlink : i.type = .link
  · rw [if_pos hlink, if_pos hlink]
    exact payloadEdge_of_link (allValid_singleton hvalid) hi hlink
  · rw [if_neg hlink, if_neg hlink]

theorem links_eq_edgesOf : links (items [patch]) = edgesOf (ownBodies patch) := by
  rw [← map_itemBody hvalid, edgesOf, List.filterMap_map, links]
  have hedges : ∀ i ∈ items [patch], (Body.edge ∘ itemBody) i = if i.type = .link then some i.edge else none :=
    fun i hi => edge_itemBody hvalid hi
  rw [List.filterMap_congr hedges]
  induction items [patch] with
  | nil => rfl
  | cons i rest ih => by_cases hlink : i.type = .link <;> simp [hlink, ih]

/-- The place of a lone patch is decided by its order: all its operations have one lamport. -/
theorem kept_ownBodies (t : String) (type : Plan.OpType) :
    kept (ownBodies patch) t type = (PatchValidator.decider (items [patch]) t type).map itemBody := by
  have hplace : place (ownBodies patch) t type = (ofKey (items [patch]) t type).map itemBody := by
    rw [← map_itemBody hvalid, place, List.filter_map]
    rfl
  have hconstant : ∀ i ∈ ofKey (items [patch]) t type, i.entry.patchLamport = patch.baseLamport := by
    intro i hi
    obtain ⟨hmem, -⟩ := mem_ofKey.mp hi
    rw [items_singleton] at hmem
    obtain ⟨op, -, rfl⟩ := List.mem_map.mp hmem
    rfl
  unfold kept PatchValidator.decider
  rw [hplace]
  split
  next => rw [List.head?_map, firstGreatest_of_constant _ hconstant]
  next => rw [List.getLast?_map]

theorem mem_entries_iff {t : String} {type : Plan.OpType} {entry : Entry} :
    (t, type.value, entry) ∈ entries (written (items [patch])) ↔
      ∃ i, PatchValidator.decider (items [patch]) t type = some i ∧ i.entry = entry := by
  rw [mem_entries]
  dsimp only
  by_cases hadd : type = .addTask
  · subst hadd
    rw [get?_addTaskOps, Option.map_eq_some_iff]
    constructor
    · rintro (⟨hdecided, -⟩ | ⟨-, hne⟩)
      · exact hdecided
      · exact absurd rfl hne
    · rintro ⟨i, hi, rfl⟩
      refine .inl ⟨⟨i, hi, rfl⟩, ?_⟩
      obtain ⟨hmem, -, htype⟩ := mem_ofKey.mp (decider_mem hi)
      rw [opType_of_mem (allValid_singleton hvalid).wellFormed hmem, htype]
      rfl
  · rw [get?_mergedOps _ _ hadd, Option.map_eq_some_iff]
    constructor
    · rintro (⟨hget, htype⟩ | ⟨hdecided, -⟩)
      · obtain ⟨i, hi, -, rfl, hitype⟩ := addTaskOps_source hget
        rw [opType_of_mem (allValid_singleton hvalid).wellFormed hi, hitype] at htype
        exact absurd (value_injective htype) hadd
      · exact hdecided
    · exact fun hdecided => .inr ⟨hdecided, fun hvalue => hadd (value_injective hvalue)⟩

/-- The result of a merge of the patch alone, as far as it keeps the operations. -/
theorem merges_of_shown {ops : List PlanOp} (hshown : ops.map shown = (entries (written (items [patch]))).map shownEntry) :
    Merges (ownBodies patch) (ops.map bodyOf) := by
  constructor
  · rw [entries, List.map_append] at hshown
    obtain ⟨tasks, others, rfl, htasks, hothers⟩ := List.map_eq_append_iff.mp hshown
    refine ⟨tasks.map bodyOf, others.map bodyOf, List.map_append, fun b hb => ?_, fun b hb => ?_⟩
    · obtain ⟨op, hop, rfl⟩ := List.mem_map.mp hb
      obtain ⟨row, hrow, hrowshown⟩ := List.mem_map.mp (htasks ▸ List.mem_map_of_mem hop)
      obtain ⟨e, he, rfl⟩ := List.mem_map.mp hrow
      obtain ⟨i, hi, -, hentry, htype⟩ := addTaskOps_source (Table.get?_eq_some_iff.mpr he)
      have hread := opType_of_mem (allValid_singleton hvalid).wellFormed hi
      have hvalue : e.2.op.opType.getD "" = op.opType.value := congrArg (·.2.1) hrowshown
      rw [← hentry, hread, htype, Option.getD_some] at hvalue
      exact (value_injective hvalue).symm
    · obtain ⟨op, hop, rfl⟩ := List.mem_map.mp hb
      obtain ⟨row, hrow, hrowshown⟩ := List.mem_map.mp (hothers ▸ List.mem_map_of_mem hop)
      obtain ⟨e, he, rfl⟩ := List.mem_map.mp hrow
      have hvalue : e.1.2 = op.opType.value := congrArg (·.2.1) hrowshown
      have hne : e.1.2 ≠ "ADD_TASK" := of_decide_eq_true (List.mem_filter.mp he).2
      intro hadd
      have hop : op.opType = .addTask := hadd
      rw [hvalue, hop] at hne
      exact hne rfl
  · intro b
    rw [kept_ownBodies hvalid, Option.map_eq_some_iff]
    have hmem := @mem_of_shown ops _ hshown b.type b.taskId b.payload
    simp only [mem_entries_iff hvalid] at hmem
    have hbody : b ∈ ops.map bodyOf ↔ ∃ op ∈ ops, op.opType = b.type ∧ op.taskId = b.taskId ∧ op.payload = b.payload := by
      rw [List.mem_map]
      refine exists_congr fun op => and_congr_right fun _ => ?_
      exact ⟨fun heq => heq ▸ ⟨rfl, rfl, rfl⟩, fun heq => by cases b; obtain ⟨rfl, rfl, rfl⟩ := heq; rfl⟩
    rw [hbody, hmem]
    constructor
    · rintro ⟨entry, ⟨i, hi, rfl⟩, hpayload⟩
      obtain ⟨-, htask, htype⟩ := mem_ofKey.mp (decider_mem hi)
      refine ⟨i, hi, ?_⟩
      rw [itemBody, htask, htype, hpayload]
    · rintro ⟨i, hi, rfl⟩
      exact ⟨i.entry, ⟨i, hi, rfl⟩, rfl⟩

end Patch

/-- Of links without a cycle none is dropped. -/
theorem accepted_of_acyclic {items : List PatchValidator.Item} (h : ¬Cyclic (successors (links items))) :
    accepted items = items := by
  induction items using List.reverseRecOn with
  | nil => rfl
  | append_singleton items i ih =>
    have hbefore : ¬Cyclic (successors (links items)) := by
      intro hcyclic
      refine h (hcyclic.mono fun a b hab => ?_)
      rw [edge_successors] at hab ⊢
      rw [links_concat]
      exact List.mem_append_left _ hab
    rw [accepted_concat, ih hbefore, accept, if_neg]
    rintro ⟨hlink, hcyclic⟩
    rw [links_concat, if_pos hlink] at h
    exact h hcyclic

/-- Lamports from `lamport` on, and the ids drawn from `count` on. -/
def Stamped (uuid4 : Nat → String) : Nat → Int → List PlanOp → Prop
  | _, _, [] => True
  | count, lamport, op :: rest =>
    op.opId = uuid4 count ∧ op.lamport = lamport ∧ Stamped uuid4 (count + 1) (lamport + 1) rest

theorem toOps_stamped {uuid4 : Nat → String} {count : Nat} {lamport : Int} {es : List (String × String × Entry)}
    {ops : List PlanOp} (h : toOps uuid4 count lamport es = .ok ops) : Stamped uuid4 count lamport ops := by
  induction es generalizing count lamport ops with
  | nil =>
    cases h
    trivial
  | cons e rest ih =>
    unfold toOps at h
    obtain ⟨type, -, h⟩ := Transactional.except_bind_ok.mp h
    obtain ⟨others, hothers, h⟩ := Transactional.except_bind_ok.mp h
    cases h
    exact ⟨rfl, rfl, ih hothers⟩

section Stamps

variable {uuid4 : Nat → String} {count : Nat} {lamport : Int} {ops : List PlanOp} (h : Stamped uuid4 count lamport ops)

include h

theorem Stamped.bound : ∀ op ∈ ops, lamport ≤ op.lamport ∧ ∃ n, count ≤ n ∧ op.opId = uuid4 n := by
  induction ops generalizing count lamport with
  | nil => nofun
  | cons op rest ih =>
    obtain ⟨hid, hlamport, hrest⟩ := h
    intro other hother
    rcases List.mem_cons.mp hother with rfl | hother
    · exact ⟨hlamport.ge, count, le_rfl, hid⟩
    · obtain ⟨hle, n, hn, hid⟩ := ih hrest other hother
      exact ⟨by omega, n, by omega, hid⟩

theorem Stamped.increasing : ops.Pairwise fun a b => a.lamport < b.lamport := by
  induction ops generalizing count lamport with
  | nil => exact .nil
  | cons op rest ih =>
    obtain ⟨-, hlamport, hrest⟩ := h
    refine List.pairwise_cons.mpr ⟨fun other hother => ?_, ih hrest⟩
    have hle := (hrest.bound other hother).1
    omega

theorem Stamped.nodup (huuid : Function.Injective uuid4) : (ops.map PlanOp.opId).Nodup := by
  induction ops generalizing count lamport with
  | nil => exact .nil
  | cons op rest ih =>
    obtain ⟨hid, -, hrest⟩ := h
    refine List.nodup_cons.mpr ⟨fun hin => ?_, ih hrest⟩
    obtain ⟨other, hother, hsame⟩ := List.mem_map.mp hin
    obtain ⟨-, n, hn, hotherId⟩ := hrest.bound other hother
    have heq : n = count := huuid (hotherId.symm.trans (hsame.trans hid))
    omega

end Stamps

/-- The appends of a list, up to the first that raises. -/
def appendInOrder : List PlanOp → AutomergePlanStore → Except PlanError AutomergePlanStore
  | [], store => .ok store
  | op :: rest, store =>
    match store.appendOp op with
    | (.ok _, store) => appendInOrder rest store
    | (.error e, _) => .error e

theorem appendInOrder_ok {l ops : List PlanOp} {store : AutomergePlanStore} (hs : Shows l store.doc)
    (hknown : store.opIds = l.map PlanOp.opId) (hids : ((l ++ ops).map PlanOp.opId).Nodup)
    (hcomplete : ∀ op ∈ ops, op.Complete) :
    ∃ store', appendInOrder ops store = .ok store' ∧ Shows (l ++ ops) store'.doc := by
  induction ops generalizing l store with
  | nil => exact ⟨store, rfl, by rwa [List.append_nil]⟩
  | cons op rest ih =>
    obtain ⟨hop, hrest⟩ := List.forall_mem_cons.mp hcomplete
    rw [List.append_cons] at hids ⊢
    have hfresh : op.opId ∉ store.opIds := by
      rw [hknown]
      rw [List.map_append, List.map_append, List.append_assoc] at hids
      exact fun hin => (List.disjoint_of_nodup_append hids) hin List.mem_cons_self
    have hlogged : Shows l (logged op store) := ⟨hs.tasks, hs.annotations, hs.annotated, hs.edges⟩
    obtain ⟨doc, happly, hshows, -⟩ := hlogged.apply_of_keys (fun htype => Table.contains_eq_true_iff.mp (hop.state htype))
      fun htype => by
        obtain ⟨parent, hparent, hhash, hchild⟩ := hop.link htype
        obtain ⟨child, hchild⟩ := Table.contains_eq_true_iff.mp hchild
        exact ⟨parent, child, hparent, hchild, hhash⟩
    have happend : store.appendOp op = (.ok (), ⟨doc, store.opIds ++ [op.opId]⟩) := by
      rw [appendOp_fresh hfresh, happly]
    obtain ⟨store', hrun, hshows'⟩ := @ih (l ++ [op]) ⟨doc, store.opIds ++ [op.opId]⟩ hshows
      (by rw [hknown, List.map_append]; rfl) hids hrest
    refine ⟨store', ?_, hshows'⟩
    rw [appendInOrder, happend]
    exact hrun

/-- The operations of a patch as an update appends them: in order, with increasing lamports
and ids of their own. -/
structure Appended (patch : PlanPatch) (ops : List PlanOp) : Prop where
  bodies : ops.map bodyOf = ownBodies patch
  lamports : ops.Pairwise fun a b => a.lamport < b.lamport
  ids : (ops.map PlanOp.opId).Nodup

/-- The loop of an update that ends appends the operations it admits. -/
theorem applyOps_stamped {σ : Type} {api : PlanApi σ} {message : Envelope UpdatePlanPayload} {draws : Draws}
    {ops : List OpData} {applied : List PlanOp} {store : σ}
    (h : (applyOps api message draws ops applied store).1 = .ok ()) :
    ∃ appended, (applyOps api message draws ops applied store).2.1 = applied ++ appended ∧
      appended.map bodyOf = ops.filterMap admittedBody ∧
      Stamped draws.uuid4 (1 + applied.length) (message.lamport + applied.length) appended := by
  induction ops generalizing applied store with
  | nil => exact ⟨[], (List.append_nil applied).symm, rfl, trivial⟩
  | cons op rest ih =>
    rw [applyOps] at h ⊢
    cases hadmitted : admitOp op with
    | none =>
      rw [hadmitted] at h
      have hbody : admittedBody op = none := by rw [admittedBody, hadmitted]; rfl
      rw [List.filterMap_cons_none hbody]
      exact ih h
    | some admitted =>
      rw [hadmitted] at h
      dsimp only at h ⊢
      have hbody : admittedBody op = some (bodyOf (planOpOf message draws admitted applied.length)) := by
        rw [admittedBody, hadmitted]
        rfl
      cases happend : api.appendOp (planOpOf message draws admitted applied.length) store with
      | mk outcome store' =>
        rw [happend] at h
        cases outcome with
        | error e => cases h
        | ok called =>
          dsimp only at h ⊢
          cases hawait : called.await "NoneType" with
          | error e =>
            rw [hawait] at h
            cases h
          | ok value =>
            rw [hawait] at h
            obtain ⟨appended, hall, hbodies, hstamped⟩ := ih h
            refine ⟨planOpOf message draws admitted applied.length :: appended, hall.trans (List.append_cons _ _ _).symm, ?_,
              rfl, rfl, ?_⟩
            · rw [List.map_cons, hbodies, List.filterMap_cons_some hbody]
            · rw [List.length_append, List.length_singleton] at hstamped
              push_cast at hstamped
              rw [add_assoc, add_assoc]
              exact hstamped

/-- What an update appends of a patch it appends in order. -/
theorem appended_of_update {σ : Type} {api : PlanApi σ} {message : Envelope UpdatePlanPayload} {draws : Draws}
    (huuid : Function.Injective draws.uuid4) {patch : PlanPatch} {store : σ}
    (h : (applyOps api message draws patch.ops [] store).1 = .ok ()) :
    Appended patch (applyOps api message draws patch.ops [] store).2.1 := by
  obtain ⟨appended, hall, hbodies, hstamped⟩ := applyOps_stamped h
  rw [hall, List.nil_append]
  exact ⟨hbodies, hstamped.increasing, hstamped.nodup huuid⟩

/-- Two stores show the same states and types of tasks, edges and values of annotations. -/
structure SameMeaning (a b : CRDTDocument) : Prop where
  tasks : ∀ t, (a.tasks.get? t).map (fun task => (task.state, task.taskType)) =
    (b.tasks.get? t).map fun task => (task.state, task.taskType)
  edges : ∀ p c, a.HasEdge p c ↔ b.HasEdge p c
  annotations : ∀ t k, (a.annotationOf t k).map Annotation.value = (b.annotationOf t k).map Annotation.value

/-- An operation that is admitted can be applied when the ends of its edge can be keys. -/
theorem complete_of_admitted {patch : PlanPatch} {op : PlanOp} (hop : bodyOf op ∈ ownBodies patch)
    (hash : ∀ edge ∈ edgesOf (ownBodies patch), HashableEdge edge) : op.Complete := by
  obtain ⟨data, -, hadmitted⟩ := List.mem_filterMap.mp hop
  obtain ⟨admitted, hsome, hbody⟩ := Option.map_eq_some_iff.mp hadmitted
  obtain ⟨hstate, hlink⟩ := admitOp_some hsome
  obtain ⟨htype, -, hpayload⟩ := Body.mk.inj hbody
  rw [htype, hpayload] at hstate hlink
  refine ⟨hstate, fun htype => ?_⟩
  obtain ⟨hparent, hchild⟩ := hlink htype
  obtain ⟨parent, hparent⟩ := Table.contains_eq_true_iff.mp hparent
  obtain ⟨child, hchild'⟩ := Table.contains_eq_true_iff.mp hchild
  have hedge : (bodyOf op).edge = some (parent, child) := by
    simp [Body.edge, bodyOf, htype, payloadEdge, hparent, hchild']
  exact ⟨parent, hparent, (hash _ (List.mem_filterMap.mpr ⟨_, hop, hedge⟩)).1, hchild⟩

/-- Appended to an empty store, the operations show what their bodies tell. -/
theorem appendInOrder_init {patch : PlanPatch} {ops : List PlanOp} (hops : ∀ op ∈ ops, bodyOf op ∈ ownBodies patch)
    (hash : ∀ edge ∈ edgesOf (ownBodies patch), HashableEdge edge) (hids : (ops.map PlanOp.opId).Nodup) :
    ∃ store, appendInOrder ops .init = .ok store ∧ Shows ops store.doc :=
  @appendInOrder_ok [] ops _ (shows_nil AutomergePlanStore.init.doc) rfl hids
    fun op hop => complete_of_admitted (hops op hop) hash

theorem sameMeaning_iff {own merged : List PlanOp} {a b : CRDTDocument} (ha : Shows merged a) (hb : Shows own b)
    (hmerged : merged.Pairwise fun x y => x.lamport < y.lamport) (hown : own.Pairwise fun x y => x.lamport < y.lamport) :
    SameMeaning a b ↔ (∀ t, taskOf (merged.map bodyOf) t = taskOf (own.map bodyOf) t) ∧
      (∀ edge, edge ∈ edgesOf (merged.map bodyOf) ↔ edge ∈ edgesOf (own.map bodyOf)) ∧
      ∀ t k, noteOf (merged.map bodyOf) t k = noteOf (own.map bodyOf) t k := by
  constructor
  · rintro ⟨htasks, hedges, hnotes⟩
    refine ⟨fun t => ?_, fun edge => ?_, fun t k => ?_⟩
    · rw [← task_of_shows ha hmerged, ← task_of_shows hb hown, htasks]
    · rw [← edge_of_shows ha edge.1 edge.2, ← edge_of_shows hb edge.1 edge.2, hedges]
    · rw [← note_of_shows ha hmerged, ← note_of_shows hb hown, hnotes]
  · rintro ⟨htasks, hedges, hnotes⟩
    refine ⟨fun t => ?_, fun p c => ?_, fun t k => ?_⟩
    · rw [task_of_shows ha hmerged, task_of_shows hb hown, htasks]
    · rw [edge_of_shows ha, edge_of_shows hb, hedges]
    · rw [note_of_shows ha hmerged, note_of_shows hb hown, hnotes]

/-- Ids of so many letters. -/
def lettersUuid (n : Nat) : String := String.ofList (List.replicate n 'a')

theorem lettersUuid_injective : Function.Injective lettersUuid := by
  intro m n h
  have hlength := congrArg (fun s => s.toList.length) h
  simpa [lettersUuid] using hlength

def taskData (opType : String) (payload : Table String Json) : OpData := ⟨some opType, some "task", some payload⟩

def stateData (state : String) : OpData := taskData "STATE" (Table.empty.upsert "state" (.str state))

def decidedPatch : PlanPatch := ⟨"patch", "alice", 3, [taskData "ADD_TASK" .empty, stateData "DECIDED"], 0⟩

/-- A task that is added, decided and verified in one patch. -/
def verifiedPatch : PlanPatch :=
  ⟨"patch", "alice", 3, [taskData "ADD_TASK" .empty, stateData "DECIDED", stateData "VERIFIED"], 0⟩

/-- The operations of a body each, as the third update of the thread appends them. -/
def stamp (count : Nat) : List Body → List PlanOp
  | [] => []
  | b :: rest => ⟨lettersUuid count, "north", 3 + count, "alice", b.type, b.taskId, b.payload, 0⟩ :: stamp (count + 1) rest

theorem appended_stamp (patch : PlanPatch) : Appended patch (stamp 0 (ownBodies patch)) := by
  have hstamped : ∀ count bodies, Stamped lettersUuid count (3 + count) (stamp count bodies) ∧
      (stamp count bodies).map bodyOf = bodies := by
    intro count bodies
    induction bodies generalizing count with
    | nil => exact ⟨trivial, rfl⟩
    | cons b rest ih =>
      obtain ⟨hrest, hbodies⟩ := ih (count + 1)
      refine ⟨⟨rfl, rfl, ?_⟩, ?_⟩
      · push_cast at hrest
        rwa [← add_assoc] at hrest
      · rw [stamp, List.map_cons, hbodies]
        rfl
  obtain ⟨h, hbodies⟩ := hstamped 0 (ownBodies patch)
  exact ⟨hbodies, h.increasing, h.nodup lettersUuid_injective⟩

end AgentNetwork.Handlers
