import AgentNetwork.Plan.PatchMerge

namespace AgentNetwork.Plan.PatchValidator

open Relational StableSort DepthFirst

/-- The items of the patches in the order of the merge. -/
def items (patches : List PlanPatch) : List Item := (sequence patches).map item

def AllValid (patches : List PlanPatch) : Prop := ∀ patch ∈ patches, (validatePatch patch).1 = true

theorem mem_sequence {patches : List PlanPatch} {source : PlanPatch × OpData} :
    source ∈ sequence patches ↔ source.1 ∈ patches ∧ source.2 ∈ source.1.ops := by
  obtain ⟨patch, op⟩ := source
  simp only [sequence, List.mem_flatMap, List.mem_map, Prod.mk.injEq, mem_sortOn]
  constructor
  · rintro ⟨p, hp, o, ho, rfl, rfl⟩
    exact ⟨hp, ho⟩
  · rintro ⟨hp, ho⟩
    exact ⟨patch, hp, op, ho, rfl, rfl⟩

theorem AllValid.wellFormed {patches : List PlanPatch} (h : AllValid patches) : AllWellFormed (sequence patches) := by
  intro source hsource
  obtain ⟨hpatch, hop⟩ := mem_sequence.mp hsource
  exact validatePatch_wellFormed (h source.1 hpatch) source.2 hop

theorem entries_types {patches : List PlanPatch} (h : AllValid patches) :
    ∀ e ∈ entries (written (accepted (items patches))), ∃ type : OpType, e.2.1 = type.value := by
  intro e he
  rcases mem_entries.mp he with ⟨hget, htype⟩ | ⟨hget, _⟩
  · obtain ⟨i, hi, _, hentry, hadd⟩ := addTaskOps_source hget
    have hop := opType_of_mem h.wellFormed (accepted_subset _ i hi)
    exact ⟨.addTask, by rw [htype, ← hentry, hop, hadd]; rfl⟩
  · obtain ⟨i, _, hkey, _⟩ := mergedOps_source hget
    exact ⟨i.type, (Prod.mk.inj hkey).2.symm⟩

/-- The merge of valid patches returns what the accepted items leave. -/
theorem mergePatches_ok (uuid4 : Nat → String) {patches : List PlanPatch} (h : AllValid patches)
    (hash : AllHashable (sequence patches)) :
    ∃ ops, mergePatches uuid4 patches = .ok ops ∧
      ops.map shown = (entries (written (accepted (items patches)))).map shownEntry := by
  unfold mergePatches
  split
  next hempty =>
    subst hempty
    exact ⟨[], rfl, rfl⟩
  next =>
    have hfold := foldlM_mergeOp h.wellFormed hash
    rw [show ((⟨.empty, .empty, []⟩ : Merged)) = start from rfl, hfold]
    exact toOps_ok uuid4 (entries_types h)

theorem mergePatches_error (uuid4 : Nat → String) {patches : List PlanPatch} (h : AllValid patches)
    (hash : ¬AllHashable (sequence patches)) : ∃ e, mergePatches uuid4 patches = .error e := by
  unfold mergePatches
  split
  next hempty =>
    subst hempty
    exact absurd (List.forall_mem_nil _) hash
  next =>
    obtain ⟨e, he⟩ := foldlM_mergeOp_error h.wellFormed hash
    rw [show ((⟨.empty, .empty, []⟩ : Merged)) = start from rfl, he]
    exact ⟨e, rfl⟩

/-- The edges of the LINK operations. -/
def linkEdges (ops : List PlanOp) : List (Json × Json) :=
  ops.filterMap fun op => if op.opType = .link then payloadEdge op.payload else none

/-- The types whose operations are all to be kept. -/
def Kept (type : OpType) : Prop := type = .annotate ∨ type = .requires ∨ type = .produces

/-- What a merge promises to keep is in its result. -/
structure Keeps (patches : List PlanPatch) (ops : List PlanOp) : Prop where
  acyclic : ¬Cyclic (successors (linkEdges ops))
  links : ∀ before i after, items patches = before ++ i :: after → i.type = .link →
    i.edge ∈ linkEdges ops ∨ Cyclic (successors (links (accepted before) ++ [i.edge]))
  kept : ∀ i ∈ items patches, Kept i.type →
    ∃ op ∈ ops, op.opType = i.type ∧ op.taskId = i.taskId ∧ op.payload = i.entry.op.getPayload

/-- No operation to be kept overwrites another one. -/
structure NoneOverwritten (patches : List PlanPatch) : Prop where
  hashable : ∀ i ∈ items patches, i.type = .link → HashableEdge i.edge
  kept : ∀ i ∈ items patches, ∀ j ∈ items patches, Kept i.type → j.type = i.type → j.taskId = i.taskId →
    j.entry.op.getPayload = i.entry.op.getPayload
  links : ∀ i ∈ accepted (items patches), i.type = .link → ∃ before j after,
    accepted (items patches) = before ++ j :: after ∧ j.type = .link ∧ j.edge = i.edge ∧
      ∀ k ∈ after, k.type = .link → k.taskId ≠ j.taskId

theorem mem_of_shown {ops : List PlanOp} {es : List (String × String × Entry)} (h : ops.map shown = es.map shownEntry)
    {type : OpType} {taskId : String} {payload : Table String Json} :
    (∃ op ∈ ops, op.opType = type ∧ op.taskId = taskId ∧ op.payload = payload) ↔
      ∃ entry, (taskId, type.value, entry) ∈ es ∧ entry.op.getPayload = payload := by
  constructor
  · rintro ⟨op, hop, rfl, rfl, rfl⟩
    have hmem : shown op ∈ es.map shownEntry := h ▸ List.mem_map_of_mem hop
    obtain ⟨⟨t, o, entry⟩, he, hshown⟩ := List.mem_map.mp hmem
    simp only [shown, shownEntry, Prod.mk.injEq] at hshown
    obtain ⟨rfl, rfl, _, hpayload⟩ := hshown
    exact ⟨entry, he, hpayload⟩
  · rintro ⟨entry, he, rfl⟩
    have hmem : shownEntry (taskId, type.value, entry) ∈ ops.map shown := h ▸ List.mem_map_of_mem he
    obtain ⟨op, hop, hshown⟩ := List.mem_map.mp hmem
    simp only [shown, shownEntry, Prod.mk.injEq] at hshown
    exact ⟨op, hop, value_injective hshown.2.1, hshown.1, hshown.2.2.2⟩

theorem getLast?_filter_eq_some {α : Type} {p : α → Bool} {l : List α} {a : α} :
    (l.filter p).getLast? = some a ↔
      ∃ before after, l = before ++ a :: after ∧ p a = true ∧ ∀ b ∈ after, p b = false := by
  rw [List.getLast?_filter, List.find?_eq_some_iff_append]
  constructor
  · rintro ⟨ha, front, rear, hl, hfront⟩
    refine ⟨rear.reverse, front.reverse, ?_, ha, ?_⟩
    · rw [← List.reverse_reverse l, hl]
      simp
    · intro b hb
      simpa using hfront b (List.mem_reverse.mp hb)
  · rintro ⟨before, after, rfl, ha, hafter⟩
    refine ⟨ha, after.reverse, before.reverse, by simp, ?_⟩
    intro b hb
    simpa using hafter b (List.mem_reverse.mp hb)

/-- What is accepted stays accepted. -/
theorem accepted_prefix (before after : List Item) : accepted before <+: accepted (before ++ after) := by
  induction after using List.reverseRecOn with
  | nil => simp
  | append_singleton after i ih =>
    rw [← List.append_assoc, accepted_concat, accept]
    split
    next => exact ih
    next => exact ih.trans (List.prefix_append _ _)

theorem mem_accepted_iff {items : List Item} {i : Item} (hlink : i.type = .link) : i ∈ accepted items ↔
    ∃ before after, items = before ++ i :: after ∧ ¬Cyclic (successors (links (accepted before) ++ [i.edge])) := by
  constructor
  · intro hi
    induction items using List.reverseRecOn with
    | nil => cases hi
    | append_singleton items j ih =>
      have hold : i ∈ accepted items → ∃ before after, items ++ [j] = before ++ i :: after ∧
          ¬Cyclic (successors (links (accepted before) ++ [i.edge])) := by
        intro hi
        obtain ⟨before, after, rfl, hacyclic⟩ := ih hi
        exact ⟨before, after ++ [j], by simp, hacyclic⟩
      rw [accepted_concat, accept] at hi
      split at hi
      next => exact hold hi
      next hj =>
        rcases List.mem_append.mp hi with hi | hi
        · exact hold hi
        · obtain rfl := List.mem_singleton.mp hi
          exact ⟨items, [], rfl, fun hc => hj ⟨hlink, hc⟩⟩
  · rintro ⟨before, after, rfl, hacyclic⟩
    have hstep : i ∈ accepted (before ++ [i]) := by
      rw [accepted_concat, accept, if_neg fun hc => hacyclic hc.2]
      exact List.mem_append_right _ List.mem_cons_self
    have hextends := accepted_prefix (before ++ [i]) after
    rw [List.append_assoc, List.singleton_append] at hextends
    exact hextends.subset hstep

/-- Only links are ever dropped. -/
theorem ofKey_accepted (items : List Item) (taskId : String) {type : OpType} (htype : type ≠ .link) :
    ofKey (accepted items) taskId type = ofKey items taskId type := by
  induction items using List.reverseRecOn with
  | nil => rfl
  | append_singleton items i ih =>
    rw [accepted_concat, accept, ofKey_concat]
    split
    next hc =>
      have hne : ¬(i.taskId = taskId ∧ i.type = type) := fun hk => htype (hk.2.symm.trans hc.1)
      rw [if_neg hne, List.append_nil, ih]
    next => rw [ofKey_concat, ih]

theorem mem_ofKey {items : List Item} {taskId : String} {type : OpType} {i : Item} :
    i ∈ ofKey items taskId type ↔ i ∈ items ∧ i.taskId = taskId ∧ i.type = type := by
  simp [ofKey]

theorem exists_last {items : List Item} {i : Item} (hi : i ∈ items) :
    ∃ j, (ofKey items i.taskId i.type).getLast? = some j := by
  have hne : ofKey items i.taskId i.type ≠ [] := List.ne_nil_of_mem (mem_ofKey.mpr ⟨hi, rfl, rfl⟩)
  exact ⟨_, List.getLast?_eq_some_getLast hne⟩

section Merged

variable {patches : List PlanPatch} {ops : List PlanOp} (h : AllValid patches)
  (hshown : ops.map shown = (entries (written (accepted (items patches)))).map shownEntry)

include h

theorem payloadEdge_of_link {i : Item} (hi : i ∈ items patches) (hlink : i.type = .link) :
    payloadEdge i.entry.op.getPayload = some i.edge := by
  obtain ⟨source, hsource, rfl⟩ := List.mem_map.mp hi
  obtain ⟨type, taskId, hop⟩ := h.wellFormed source hsource
  have htype : type = .link := by
    rw [← hlink]
    exact (@item_of_wellFormed source.1 _ _ _ hop).1.symm
  subst htype
  obtain ⟨_, _, _, _, _, _, hedge⟩ := linkEdge_of_link hop
  have hpayload : source.2.linkEdge = payloadEdge source.2.getPayload := by simp [OpData.linkEdge, hop.opType]
  have hitem : (item source).edge = source.2.linkEdge.getD (.null, .null) := rfl
  have hentry : (item source).entry.op = source.2 := rfl
  rw [hentry, ← hpayload, hitem, hedge, Option.getD_some]

include hshown

/-- What the result holds of one type, for one task. -/
theorem mem_result_iff {type : OpType} (hadd : type ≠ .addTask) (hstate : type ≠ .state) {taskId : String}
    {payload : Table String Json} :
    (∃ op ∈ ops, op.opType = type ∧ op.taskId = taskId ∧ op.payload = payload) ↔
      ∃ i, (ofKey (accepted (items patches)) taskId type).getLast? = some i ∧ i.entry.op.getPayload = payload := by
  rw [mem_of_shown hshown]
  have hvalue : type.value ≠ OpType.addTask.value := fun he => hadd (value_injective he)
  have hentry (entry : Entry) : (taskId, type.value, entry) ∈ entries (written (accepted (items patches))) ↔
      ∃ i, (ofKey (accepted (items patches)) taskId type).getLast? = some i ∧ i.entry = entry := by
    rw [mem_entries, ← Option.map_eq_some_iff, ← get?_written_last _ _ hadd hstate]
    constructor
    · rintro (⟨hget, htype⟩ | ⟨hget, _⟩)
      · obtain ⟨i, hi, _, rfl, hitype⟩ := addTaskOps_source hget
        have hop := opType_of_mem h.wellFormed (accepted_subset _ i hi)
        rw [hop, hitype] at htype
        exact absurd htype hvalue
      · exact hget
    · exact fun hget => Or.inr ⟨hget, hvalue⟩
  constructor
  · rintro ⟨entry, he, hpayload⟩
    obtain ⟨i, hi, rfl⟩ := (hentry entry).mp he
    exact ⟨i, hi, hpayload⟩
  · rintro ⟨i, hi, hpayload⟩
    exact ⟨i.entry, (hentry i.entry).mpr ⟨i, hi, rfl⟩, hpayload⟩

theorem mem_linkEdges_iff {edge : Json × Json} :
    edge ∈ linkEdges ops ↔ ∃ taskId i, (ofKey (accepted (items patches)) taskId .link).getLast? = some i ∧ i.edge = edge := by
  have hread {taskId : String} {i : Item} (hi : (ofKey (accepted (items patches)) taskId .link).getLast? = some i) :
      payloadEdge i.entry.op.getPayload = some i.edge := by
    obtain ⟨hmem, hkey⟩ := List.mem_filter.mp (List.mem_of_getLast? hi)
    exact payloadEdge_of_link h (accepted_subset _ i hmem) (of_decide_eq_true hkey).2
  have hresult (taskId : String) (payload : Table String Json) :=
    @mem_result_iff patches ops h hshown .link (by decide) (by decide) taskId payload
  simp only [linkEdges, List.mem_filterMap, Option.ite_none_right_eq_some]
  constructor
  · rintro ⟨op, hop, htype, hedge⟩
    obtain ⟨i, hi, hpayload⟩ := (hresult op.taskId op.payload).mp ⟨op, hop, htype, rfl, rfl⟩
    refine ⟨op.taskId, i, hi, ?_⟩
    rw [← hpayload, hread hi] at hedge
    exact Option.some.inj hedge
  · rintro ⟨taskId, i, hi, rfl⟩
    obtain ⟨op, hop, htype, _, hpayload⟩ := (hresult taskId _).mpr ⟨i, hi, rfl⟩
    exact ⟨op, hop, htype, by rw [hpayload, hread hi]⟩

theorem acyclic_result : ¬Cyclic (successors (linkEdges ops)) := by
  intro hcyclic
  refine accepted_acyclic (items patches) (hcyclic.mono ?_)
  intro a b hab
  rw [edge_successors] at hab ⊢
  obtain ⟨taskId, i, hi, hedge⟩ := (mem_linkEdges_iff h hshown).mp hab
  obtain ⟨hmem, hkey⟩ := List.mem_filter.mp (List.mem_of_getLast? hi)
  exact List.mem_map.mpr ⟨i, List.mem_filter.mpr ⟨hmem, decide_eq_true (of_decide_eq_true hkey).2⟩, hedge⟩

theorem kept_result_iff : (∀ i ∈ items patches, Kept i.type →
      ∃ op ∈ ops, op.opType = i.type ∧ op.taskId = i.taskId ∧ op.payload = i.entry.op.getPayload) ↔
    ∀ i ∈ items patches, ∀ j ∈ items patches, Kept i.type → j.type = i.type → j.taskId = i.taskId →
      j.entry.op.getPayload = i.entry.op.getPayload := by
  have hresult {i : Item} (hi : Kept i.type) (taskId : String) (payload : Table String Json) :
      (∃ op ∈ ops, op.opType = i.type ∧ op.taskId = taskId ∧ op.payload = payload) ↔
        ∃ j, (ofKey (items patches) taskId i.type).getLast? = some j ∧ j.entry.op.getPayload = payload := by
    have hadd : i.type ≠ .addTask := by rcases hi with hi | hi | hi <;> simp [hi]
    have hstate : i.type ≠ .state := by rcases hi with hi | hi | hi <;> simp [hi]
    have hlink : i.type ≠ .link := by rcases hi with hi | hi | hi <;> simp [hi]
    rw [mem_result_iff h hshown hadd hstate, ofKey_accepted _ _ hlink]
  constructor
  · intro hkept i hi j hj htype hjtype hjtask
    obtain ⟨last, hlast, hi'⟩ := (hresult htype _ _).mp (hkept i hi htype)
    have hj' := hkept j hj (hjtype ▸ htype)
    rw [hjtype, hjtask] at hj'
    obtain ⟨last', hlast', hj'⟩ := (hresult htype _ _).mp hj'
    obtain rfl : last = last' := Option.some.inj (hlast.symm.trans hlast')
    exact hj'.symm.trans hi'
  · intro hequal i hi htype
    obtain ⟨last, hlast⟩ := exists_last hi
    obtain ⟨hmem, htask, hlasttype⟩ := mem_ofKey.mp (List.mem_of_getLast? hlast)
    exact (hresult htype _ _).mpr ⟨last, hlast, hequal i hi last hmem htype hlasttype htask⟩

theorem links_result_iff : (∀ before i after, items patches = before ++ i :: after → i.type = .link →
      i.edge ∈ linkEdges ops ∨ Cyclic (successors (links (accepted before) ++ [i.edge]))) ↔
    ∀ i ∈ accepted (items patches), i.type = .link → ∃ before j after,
      accepted (items patches) = before ++ j :: after ∧ j.type = .link ∧ j.edge = i.edge ∧
        ∀ k ∈ after, k.type = .link → k.taskId ≠ j.taskId := by
  constructor
  · intro hlinks i hi hlink
    obtain ⟨before, after, hsplit, hacyclic⟩ := (mem_accepted_iff hlink).mp hi
    have hedge := (hlinks before i after hsplit hlink).resolve_right hacyclic
    obtain ⟨taskId, j, hlast, hedge⟩ := (mem_linkEdges_iff h hshown).mp hedge
    obtain ⟨before', after', hsplit', hj, hafter⟩ := getLast?_filter_eq_some.mp hlast
    obtain ⟨rfl, hjlink⟩ := of_decide_eq_true hj
    refine ⟨before', j, after', hsplit', hjlink, hedge, fun k hk hklink htask => ?_⟩
    exact of_decide_eq_false (hafter k hk) ⟨htask, hklink⟩
  · intro hsurvive before i after hsplit hlink
    by_cases hcyclic : Cyclic (successors (links (accepted before) ++ [i.edge]))
    · exact Or.inr hcyclic
    · have hi := (mem_accepted_iff hlink).mpr ⟨before, after, hsplit, hcyclic⟩
      obtain ⟨before', j, after', hsplit', hjlink, hedge, hafter⟩ := hsurvive i hi hlink
      refine Or.inl ((mem_linkEdges_iff h hshown).mpr ⟨j.taskId, j, ?_, hedge⟩)
      refine getLast?_filter_eq_some.mpr ⟨before', after', hsplit', decide_eq_true ⟨rfl, hjlink⟩, ?_⟩
      exact fun k hk => decide_eq_false fun hkey => hafter k hk hkey.2 hkey.1

end Merged

theorem allHashable_iff {patches : List PlanPatch} (h : AllValid patches) :
    AllHashable (sequence patches) ↔ ∀ i ∈ items patches, i.type = .link → HashableEdge i.edge := by
  refine ⟨fun hash => hashable_items h.wellFormed hash, ?_⟩
  intro hash source hsource edge hedge
  obtain ⟨type, taskId, hop⟩ := h.wellFormed source hsource
  obtain ⟨hlink, hitem⟩ := (@linkEdge_eq_some_iff source.1 _ _ _ hop _).mp hedge
  exact hitem ▸ hash _ (List.mem_map_of_mem hsource) hlink

end AgentNetwork.Plan.PatchValidator
