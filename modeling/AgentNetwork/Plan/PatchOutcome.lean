import AgentNetwork.Library.Ties
import AgentNetwork.Plan.PatchLosses

namespace AgentNetwork.Plan.PatchValidator

open Relational StableSort DepthFirst Ties

/-- The tasks that the items add, in order. -/
def addedTasks (items : List Item) : List String := (items.filter (·.type = .addTask)).map Item.taskId

/-- The keys of the other items, in order. -/
def otherKeys (items : List Item) : List (String × String) := (items.filter (·.type ≠ .addTask)).map Item.key

theorem keys_keepHigher {κ : Type} [DecidableEq κ] (ops : Table κ Entry) (key : κ) (entry : Entry) :
    (keepHigher ops key entry).keys = if key ∈ ops.keys then ops.keys else ops.keys ++ [key] := by
  unfold keepHigher
  cases hget : ops.get? key with
  | none => exact Table.keys_upsert ops key entry
  | some old =>
    have hmem : key ∈ ops.keys := by
      by_contra hk
      rw [Table.get?_eq_none_iff.mpr hk] at hget
      cases hget
    dsimp only
    split
    next => rw [Table.keys_upsert, if_pos hmem]
    next => rfl

theorem keys_written (items : List Item) :
    (written items).addTaskOps.keys = firsts (addedTasks items) ∧
      (written items).mergedOps.keys = firsts (otherKeys items) := by
  induction items using List.reverseRecOn with
  | nil => exact ⟨rfl, rfl⟩
  | append_singleton items i ih =>
    obtain ⟨htasks, hothers⟩ := ih
    rw [written_concat]
    cases htype : i.type with
    | addTask =>
      have hadded : addedTasks (items ++ [i]) = addedTasks items ++ [i.taskId] := by simp [addedTasks, htype]
      have hother : otherKeys (items ++ [i]) = otherKeys items := by simp [otherKeys, htype]
      rw [hadded, hother, firsts_concat, ← htasks]
      simp [write, htype, keys_keepHigher, hothers, htasks, mem_firsts]
    | state =>
      have hadded : addedTasks (items ++ [i]) = addedTasks items := by simp [addedTasks, htype]
      have hother : otherKeys (items ++ [i]) = otherKeys items ++ [i.key] := by simp [otherKeys, htype]
      rw [hadded, hother, firsts_concat, ← hothers]
      simp [write, htype, keys_keepHigher, hothers, htasks, mem_firsts]
    | link | annotate | requires | produces =>
      have hadded : addedTasks (items ++ [i]) = addedTasks items := by simp [addedTasks, htype]
      have hother : otherKeys (items ++ [i]) = otherKeys items ++ [i.key] := by simp [otherKeys, htype]
      rw [hadded, hother, firsts_concat, ← hothers]
      simp [write, htype, Table.keys_upsert, hothers, htasks, mem_firsts]

/-- What the result shows of the item that decides a place. -/
def seen (i : Item) : String × Table String Json := (i.entry.actor, i.entry.op.getPayload)

/-- The item that decides a place: the first of the highest lamport for tasks and
states, the last one for the other types. -/
def decider (items : List Item) (taskId : String) (type : OpType) : Option Item :=
  if type = .addTask ∨ type = .state then firstGreatest (fun i => i.entry.patchLamport) (ofKey items taskId type)
  else (ofKey items taskId type).getLast?

theorem get?_addTaskOps (items : List Item) (taskId : String) :
    (written items).addTaskOps.get? taskId = (decider items taskId .addTask).map Item.entry :=
  get?_written_addTask items taskId

theorem get?_mergedOps (items : List Item) (taskId : String) {type : OpType} (htype : type ≠ .addTask) :
    (written items).mergedOps.get? (taskId, type.value) = (decider items taskId type).map Item.entry := by
  by_cases hstate : type = .state
  · subst hstate
    exact get?_written_state items taskId
  · rw [decider, if_neg (by simp [htype, hstate])]
    exact get?_written_last items taskId htype hstate

/-- What an entry shows of itself. -/
def seenEntry (e : Entry) : String × Table String Json := (e.actor, e.op.getPayload)

/-- Two runs show the same when the places come in the same order and are decided alike. -/
structure SameOutcome (items items' : List Item) : Prop where
  tasks : firsts (addedTasks items) = firsts (addedTasks items')
  others : firsts (otherKeys items) = firsts (otherKeys items')
  decided : ∀ taskId type, (decider items taskId type).map seen = (decider items' taskId type).map seen

/-- The entries of the two dictionaries as they are shown. -/
theorem shown_entries {items : List Item} (h : ∀ i ∈ items, i.entry.op.opType = some i.type.value) :
    (entries (written items)).map shownEntry =
      ((written items).addTaskOps.entries.map fun e => (e.1, seenEntry e.2)).map
          (fun e => (e.1, OpType.addTask.value, e.2)) ++
        ((written items).mergedOps.entries.map fun e => (e.1, seenEntry e.2)).map fun e => (e.1.1, e.1.2, e.2) := by
  have htasks : ∀ e ∈ (written items).addTaskOps.entries, e.2.op.opType.getD "" = OpType.addTask.value := by
    intro e he
    obtain ⟨i, hi, _, hentry, htype⟩ := addTaskOps_source (Table.get?_eq_some_iff.mpr he)
    rw [← hentry, h i hi, htype]
    rfl
  have hothers : ∀ e ∈ (written items).mergedOps.entries, e.1.2 ≠ "ADD_TASK" := by
    intro e he hvalue
    obtain ⟨i, _, hkey, _, htype⟩ := mergedOps_source (Table.get?_eq_some_iff.mpr he)
    have hadd : i.type.value = OpType.addTask.value := (congrArg Prod.snd hkey).trans hvalue
    exact htype (value_injective hadd)
  rw [entries, List.filter_eq_self.mpr fun e he => decide_eq_true (hothers e he)]
  simp only [List.map_append, List.map_map]
  congr 1
  apply List.map_congr_left
  intro e he
  simp [shownEntry, seenEntry, htasks e he]

theorem map_seenEntry (i : Option Item) : (i.map Item.entry).map seenEntry = i.map seen := by
  cases i <;> rfl

theorem decider_none {items : List Item} {taskId : String} {type : OpType}
    (h : (taskId, type.value) ∉ otherKeys items) (htype : type ≠ .addTask) : decider items taskId type = none := by
  have hnone : ofKey items taskId type = [] := by
    apply List.filter_eq_nil_iff.mpr
    intro i hi hkey
    obtain ⟨rfl, rfl⟩ := of_decide_eq_true hkey
    exact h (List.mem_map.mpr ⟨i, List.mem_filter.mpr ⟨hi, decide_eq_true htype⟩, rfl⟩)
  simp [decider, hnone]

/-- What the two dictionaries show, without the types in the rows. -/
def shownTasks (items : List Item) : List (String × String × Table String Json) :=
  (written items).addTaskOps.entries.map fun e => (e.1, seenEntry e.2)

def shownOthers (items : List Item) : List ((String × String) × String × Table String Json) :=
  (written items).mergedOps.entries.map fun e => (e.1, seenEntry e.2)

theorem shownOthers_type {items : List Item} : ∀ e ∈ shownOthers items, e.1.2 ≠ OpType.addTask.value := by
  intro e he
  obtain ⟨row, hrow, rfl⟩ := List.mem_map.mp he
  obtain ⟨i, _, hkey, _, htype⟩ := mergedOps_source (Table.get?_eq_some_iff.mpr hrow)
  exact fun hvalue => htype (value_injective ((congrArg Prod.snd hkey).trans hvalue))

theorem shown_eq_iff {items items' : List Item} (h : ∀ i ∈ items, i.entry.op.opType = some i.type.value)
    (h' : ∀ i ∈ items', i.entry.op.opType = some i.type.value) :
    (entries (written items)).map shownEntry = (entries (written items')).map shownEntry ↔
      shownTasks items = shownTasks items' ∧ shownOthers items = shownOthers items' := by
  let asTask (e : String × String × Table String Json) : String × String × String × Table String Json :=
    (e.1, OpType.addTask.value, e.2)
  let asOther (e : (String × String) × String × Table String Json) : String × String × String × Table String Json :=
    (e.1.1, e.1.2, e.2)
  have hrows {items : List Item} (h : ∀ i ∈ items, i.entry.op.opType = some i.type.value) :
      (entries (written items)).map shownEntry = (shownTasks items).map asTask ++ (shownOthers items).map asOther :=
    shown_entries h
  have htasks (items : List Item) : ((shownTasks items).map asTask ++ (shownOthers items).map asOther).filter
      (·.2.1 = OpType.addTask.value) = (shownTasks items).map asTask := by
    rw [List.filter_append, List.filter_eq_self.mpr, List.filter_eq_nil_iff.mpr, List.append_nil]
    · intro row hrow
      obtain ⟨e, he, rfl⟩ := List.mem_map.mp hrow
      simpa [asOther] using shownOthers_type e he
    · intro row hrow
      obtain ⟨e, he, rfl⟩ := List.mem_map.mp hrow
      exact decide_eq_true rfl
  have hinjTask : Function.Injective asTask := by
    intro a b hab
    simp only [asTask, Prod.mk.injEq, true_and] at hab
    exact Prod.ext hab.1 hab.2
  have hinjOther : Function.Injective asOther := by
    intro a b hab
    simp only [asOther, Prod.mk.injEq] at hab
    exact Prod.ext (Prod.ext hab.1 hab.2.1) hab.2.2
  rw [hrows h, hrows h']
  constructor
  · intro heq
    have hfilter := congrArg (List.filter (·.2.1 = OpType.addTask.value)) heq
    rw [htasks, htasks] at hfilter
    rw [hfilter] at heq
    exact ⟨List.map_injective_iff.mpr hinjTask hfilter,
      List.map_injective_iff.mpr hinjOther (List.append_cancel_left heq)⟩
  · rintro ⟨ht, ho⟩
    rw [ht, ho]

/-- The result shows the same exactly if the outcome is the same. -/
theorem sameOutcome_iff {items items' : List Item} (h : ∀ i ∈ items, i.entry.op.opType = some i.type.value)
    (h' : ∀ i ∈ items', i.entry.op.opType = some i.type.value) :
    (entries (written items)).map shownEntry = (entries (written items')).map shownEntry ↔ SameOutcome items items' := by
  rw [shown_eq_iff h h', shownTasks, shownTasks, shownOthers, shownOthers, Table.map_entries_eq_iff,
    Table.map_entries_eq_iff, (keys_written items).1, (keys_written items').1, (keys_written items).2,
    (keys_written items').2]
  have hadd (items : List Item) (taskId : String) :
      ((written items).addTaskOps.get? taskId).map seenEntry = (decider items taskId .addTask).map seen := by
    rw [get?_addTaskOps, map_seenEntry]
  have hother (items : List Item) (taskId : String) {type : OpType} (htype : type ≠ .addTask) :
      ((written items).mergedOps.get? (taskId, type.value)).map seenEntry = (decider items taskId type).map seen := by
    rw [get?_mergedOps items taskId htype, map_seenEntry]
  constructor
  · rintro ⟨⟨htasks, htaskRows⟩, hothers, hotherRows⟩
    refine ⟨htasks, hothers, fun taskId type => ?_⟩
    by_cases htype : type = .addTask
    · subst htype
      rw [← hadd, ← hadd]
      by_cases hmem : taskId ∈ firsts (addedTasks items)
      · exact htaskRows taskId hmem
      · have hleft := hmem
        rw [← (keys_written items).1, ← Table.get?_eq_none_iff] at hleft
        rw [htasks, ← (keys_written items').1, ← Table.get?_eq_none_iff] at hmem
        rw [hleft, hmem]
    · by_cases hmem : (taskId, type.value) ∈ firsts (otherKeys items)
      · rw [← hother _ _ htype, ← hother _ _ htype]
        exact hotherRows _ hmem
      · have hleft := hmem
        rw [mem_firsts] at hleft
        rw [hothers, mem_firsts] at hmem
        rw [decider_none hleft htype, decider_none hmem htype]
  · intro hsame
    refine ⟨⟨hsame.tasks, fun taskId _ => ?_⟩, hsame.others, fun key hkey => ?_⟩
    · rw [hadd, hadd]
      exact hsame.decided taskId .addTask
    · obtain ⟨i, hi, rfl⟩ := List.mem_map.mp (mem_firsts.mp hkey)
      have htype : i.type ≠ .addTask := of_decide_eq_true (List.mem_filter.mp hi).2
      rw [Item.key, hother _ _ htype, hother _ _ htype]
      exact hsame.decided i.taskId i.type

/-- The items that pass a check against these accepted edges. -/
def effective (edges : List (Json × Json)) (items : List Item) : List Item :=
  items.filter fun i => i.type = .link → i.edge ∈ edges

/-- An edge that was rejected closes a cycle with the edges accepted in the end. -/
theorem accepted_or_cyclic (items : List Item) : ∀ i ∈ items, i.type = .link →
    i.edge ∈ links (accepted items) ∨ Cyclic (successors (links (accepted items) ++ [i.edge])) := by
  intro i hi hlink
  obtain ⟨before, after, rfl⟩ := List.append_of_mem hi
  have hextends := accepted_prefix (before ++ [i]) after
  rw [List.append_assoc, List.singleton_append] at hextends
  have hlinks : ∀ edge ∈ links (accepted (before ++ [i])), edge ∈ links (accepted (before ++ i :: after)) := by
    intro edge hedge
    obtain ⟨j, hj, rfl⟩ := List.mem_map.mp hedge
    obtain ⟨hmem, htype⟩ := List.mem_filter.mp hj
    exact List.mem_map_of_mem (List.mem_filter.mpr ⟨hextends.subset hmem, htype⟩)
  by_cases hcyclic : Cyclic (successors (links (accepted before) ++ [i.edge]))
  · refine Or.inr (hcyclic.mono ?_)
    intro a b hab
    rw [edge_successors, List.mem_append] at hab ⊢
    refine hab.imp_left fun hedge => hlinks _ ?_
    have hstep := accepted_prefix before [i]
    obtain ⟨j, hj, hje⟩ := List.mem_map.mp hedge
    obtain ⟨hmem, htype⟩ := List.mem_filter.mp hj
    exact hje ▸ List.mem_map_of_mem (List.mem_filter.mpr ⟨hstep.subset hmem, htype⟩)
  · refine Or.inl (hlinks _ ?_)
    rw [accepted_concat, accept, if_neg fun hc => hcyclic hc.2, links_concat, if_pos hlink]
    exact List.mem_append_right _ List.mem_cons_self

/-- The edges accepted in the end tell which items are accepted. -/
theorem accepted_eq_effective (items : List Item) : accepted items = effective (links (accepted items)) items := by
  induction items using List.reverseRecOn with
  | nil => rfl
  | append_singleton items j ih =>
    rw [accepted_concat, accept]
    split
    next hj =>
      -- an edge among the accepted ones would have made them cyclic
      have hnew : ¬(j.type = .link → j.edge ∈ links (accepted items)) := by
        intro hmem
        refine accepted_acyclic items (hj.2.mono fun a b hab => ?_)
        rw [edge_successors, List.mem_append, List.mem_singleton] at hab
        rw [edge_successors]
        exact hab.elim id fun he => he ▸ hmem hj.1
      have hsingle : effective (links (accepted items)) [j] = [] :=
        List.filter_cons_of_neg fun hd => hnew (of_decide_eq_true hd)
      rw [effective, List.filter_append]
      rw [effective] at ih hsingle
      rw [hsingle, List.append_nil, ← ih]
    next hj =>
      have hold : items.filter (fun i => i.type = .link → i.edge ∈ links (accepted items ++ [j])) = accepted items := by
        refine Eq.trans ?_ ih.symm
        apply List.filter_congr
        intro i hi
        rw [decide_eq_decide]
        refine forall_congr' fun hlink => ?_
        rw [links_concat, List.mem_append, or_iff_left_iff_imp]
        intro hmem
        split at hmem
        next hjlink =>
          refine (accepted_or_cyclic items i hi hlink).resolve_right fun hcyclic => hj ⟨hjlink, ?_⟩
          rwa [List.mem_singleton.mp hmem] at hcyclic
        next => cases hmem
      have hself : j.type = .link → j.edge ∈ links (accepted items ++ [j]) := by
        intro hjlink
        rw [links_concat, if_pos hjlink]
        exact List.mem_append_right _ List.mem_cons_self
      have hsingle : [j].filter (fun i => i.type = .link → i.edge ∈ links (accepted items ++ [j])) = [j] :=
        List.filter_cons_of_pos (decide_eq_true hself)
      rw [effective, List.filter_append, hold, hsingle]

/-- Which of two deciders, the second from later items, decides. -/
def later (type : OpType) : Option Item → Option Item → Option Item
  | none, b => b
  | some a, none => some a
  | some a, some b =>
    if (type = .addTask ∨ type = .state) ∧ ¬a.entry.patchLamport < b.entry.patchLamport then some a else some b

@[simp] theorem later_none_left (type : OpType) (b : Option Item) : later type none b = b := rfl

@[simp] theorem later_none_right (type : OpType) (a : Option Item) : later type a none = a := by
  cases a <;> rfl

theorem decider_append (items items' : List Item) (taskId : String) (type : OpType) :
    decider (items ++ items') taskId type = later type (decider items taskId type) (decider items' taskId type) := by
  unfold decider
  rw [ofKey, List.filter_append, ← ofKey, ← ofKey]
  by_cases htype : type = .addTask ∨ type = .state
  · rw [if_pos htype, if_pos htype, if_pos htype, firstGreatest_append]
    cases firstGreatest (fun i => i.entry.patchLamport) (ofKey items taskId type) with
    | none => rfl
    | some a =>
      cases firstGreatest (fun i => i.entry.patchLamport) (ofKey items' taskId type) with
      | none => rfl
      | some b => by_cases hlt : a.entry.patchLamport < b.entry.patchLamport <;> simp [later, htype, hlt]
  · rw [if_neg htype, if_neg htype, if_neg htype, List.getLast?_append]
    cases (ofKey items taskId type).getLast? <;> cases (ofKey items' taskId type).getLast? <;> simp [later, htype]

end AgentNetwork.Plan.PatchValidator
