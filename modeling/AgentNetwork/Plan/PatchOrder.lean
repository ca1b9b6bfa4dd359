import AgentNetwork.Plan.PatchOutcome

namespace AgentNetwork.Plan.PatchValidator

open Relational StableSort DepthFirst Ties

/-- The items of a patch that pass the check against the accepted edges. -/
def keptItems (edges : List (Json × Json)) (patch : PlanPatch) : List Item :=
  effective edges (patch.ops.map fun op => item (patch, op))

/-- The items of patches in this order. -/
def arranged (edges : List (Json × Json)) (patches : List PlanPatch) : List Item := patches.flatMap (keptItems edges)

theorem effective_items (edges : List (Json × Json)) (patches : List PlanPatch) :
    effective edges (items patches) = arranged edges (sortOn sortKey patches) := by
  simp only [items, sequence, List.map_flatMap, List.map_map, effective, List.filter_flatMap, arranged]
  rfl

/-- Whether `r` comes before `p` in deciding a place. -/
def Overrides (type : OpType) (r p : PlanPatch) : Prop :=
  if type = .addTask ∨ type = .state then
    p.baseLamport < r.baseLamport ∨ p.baseLamport = r.baseLamport ∧ r.actorId < p.actorId
  else sortKey p < sortKey r

/-- Patches with the same lamport and actor agree: they bring the new places in
the same order and decide a place alike unless another patch decides it. -/
structure TiesAgree (edges : List (Json × Json)) (patches : List PlanPatch) : Prop where
  tasks : ∀ p ∈ patches, ∀ q ∈ patches, sortKey p = sortKey q →
    let earlier := addedTasks (arranged edges (patches.filter (sortKey · < sortKey p)))
    Comparable (fresh earlier (addedTasks (keptItems edges p))) (fresh earlier (addedTasks (keptItems edges q)))
  others : ∀ p ∈ patches, ∀ q ∈ patches, sortKey p = sortKey q →
    let earlier := otherKeys (arranged edges (patches.filter (sortKey · < sortKey p)))
    Comparable (fresh earlier (otherKeys (keptItems edges p))) (fresh earlier (otherKeys (keptItems edges q)))
  decided : ∀ p ∈ patches, ∀ q ∈ patches, sortKey p = sortKey q → ∀ taskId type i j,
    (∀ r ∈ patches, Overrides type r p → ofKey (keptItems edges r) taskId type = []) →
    decider (keptItems edges p) taskId type = some i → decider (keptItems edges q) taskId type = some j →
    i.entry.op.getPayload = j.entry.op.getPayload

theorem mem_arranged {edges : List (Json × Json)} {patches : List PlanPatch} {i : Item} :
    i ∈ arranged edges patches ↔ ∃ p ∈ patches, i ∈ keptItems edges p := List.mem_flatMap

/-- An item carries the lamport and the actor of its patch. -/
theorem entry_of_mem_keptItems {edges : List (Json × Json)} {p : PlanPatch} {i : Item} (h : i ∈ keptItems edges p) :
    i.entry.patchLamport = p.baseLamport ∧ i.entry.actor = p.actorId := by
  obtain ⟨op, _, rfl⟩ := List.mem_map.mp (List.mem_filter.mp h).1
  exact ⟨rfl, rfl⟩

theorem decider_mem {items : List Item} {taskId : String} {type : OpType} {i : Item}
    (h : decider items taskId type = some i) : i ∈ ofKey items taskId type := by
  unfold decider at h
  split at h
  next => exact List.argmax_mem h
  next => exact List.mem_of_getLast? h

theorem decider_eq_none_iff {items : List Item} {taskId : String} {type : OpType} :
    decider items taskId type = none ↔ ofKey items taskId type = [] := by
  unfold decider
  split
  next => exact firstGreatest_eq_none
  next => exact List.getLast?_eq_none_iff

/-- A deciding task or state has the greatest lamport of its place. -/
theorem decider_max {items : List Item} {taskId : String} {type : OpType} {i j : Item}
    (htype : type = .addTask ∨ type = .state) (h : decider items taskId type = some i)
    (hj : j ∈ ofKey items taskId type) : j.entry.patchLamport ≤ i.entry.patchLamport := by
  rw [decider, if_pos htype] at h
  exact @List.le_of_mem_argmax _ _ _ (fun i : Item => i.entry.patchLamport) _ _ _ hj h

theorem sortKey_eq_iff {p q : PlanPatch} :
    sortKey p = sortKey q ↔ p.baseLamport = q.baseLamport ∧ p.actorId = q.actorId := by
  simp [sortKey]

theorem sortKey_lt_iff {p q : PlanPatch} : sortKey p < sortKey q ↔
    p.baseLamport < q.baseLamport ∨ p.baseLamport = q.baseLamport ∧ p.actorId < q.actorId := by
  simp only [sortKey, Prod.Lex.toLex_lt_toLex]

section Swap

variable {edges : List (Json × Json)} {patches x y : List PlanPatch} {p q : PlanPatch}

theorem arranged_swap (edges : List (Json × Json)) (x y : List PlanPatch) (p q : PlanPatch) :
    arranged edges (x ++ p :: q :: y) =
      arranged edges x ++ keptItems edges p ++ keptItems edges q ++ arranged edges y := by
  simp [arranged]

/-- In a sorted order the patches with smaller keys stand before a patch. -/
theorem earlier_subset (hperm : (x ++ p :: q :: y).Perm patches)
    (hsorted : (x ++ p :: q :: y).Pairwise (sortKey · ≤ sortKey ·)) (hkey : sortKey p = sortKey q) :
    ∀ r ∈ patches, sortKey r < sortKey p → r ∈ x := by
  intro r hr hlt
  rcases List.mem_append.mp (hperm.symm.subset hr) with hx | hx
  · exact hx
  · have hle : sortKey p ≤ sortKey r := by
      rcases List.mem_cons.mp hx with rfl | hx
      · exact le_rfl
      · exact (List.pairwise_cons.mp (List.pairwise_append.mp hsorted).2.1).1 r hx
    exact absurd hlt (not_lt.mpr hle)

theorem ofKey_arranged_ne_nil {l : List PlanPatch} {r : PlanPatch} {taskId : String} {type : OpType} (hr : r ∈ l)
    (h : ofKey (keptItems edges r) taskId type ≠ []) :
    ∃ i, decider (arranged edges l) taskId type = some i ∧
      (type = .addTask ∨ type = .state → r.baseLamport ≤ i.entry.patchLamport) := by
  obtain ⟨j, hj⟩ := List.exists_mem_of_ne_nil _ h
  obtain ⟨hmem, hkey⟩ := mem_ofKey.mp hj
  have hj' : j ∈ ofKey (arranged edges l) taskId type := mem_ofKey.mpr ⟨mem_arranged.mpr ⟨r, hr, hmem⟩, hkey⟩
  cases hd : decider (arranged edges l) taskId type with
  | none => exact absurd (decider_eq_none_iff.mp hd) (List.ne_nil_of_mem hj')
  | some i =>
    refine ⟨i, rfl, fun htype => ?_⟩
    rw [← (entry_of_mem_keptItems hmem).1]
    exact decider_max htype hd hj'

/-- Who does not decide before or after tied patches does not override them. -/
theorem not_overridden {taskId : String} {type : OpType} (hperm : (x ++ p :: q :: y).Perm patches)
    (hsorted : (x ++ p :: q :: y).Pairwise (sortKey · ≤ sortKey ·)) (hkey : sortKey p = sortKey q)
    (hfirst : type = .addTask ∨ type = .state →
      (∀ a, decider (arranged edges x) taskId type = some a → a.entry.patchLamport < p.baseLamport) ∧
        ∀ b, decider (arranged edges y) taskId type = some b → b.entry.patchLamport ≤ p.baseLamport)
    (hlast : ¬(type = .addTask ∨ type = .state) → decider (arranged edges y) taskId type = none) :
    ∀ r ∈ patches, Overrides type r p → ofKey (keptItems edges r) taskId type = [] := by
  intro r hr hover
  by_contra hne
  have hafter : ∀ r ∈ y, sortKey p ≤ sortKey r := by
    intro r hr
    have htail := (List.pairwise_cons.mp (List.pairwise_append.mp hsorted).2.1).1
    exact htail r (List.mem_cons_of_mem _ hr)
  have hplace : r ∈ x ∨ sortKey r = sortKey p ∨ r ∈ y := by
    rcases List.mem_append.mp (hperm.symm.subset hr) with hx | hx
    · exact Or.inl hx
    · rcases List.mem_cons.mp hx with rfl | hx
      · exact Or.inr (Or.inl rfl)
      · rcases List.mem_cons.mp hx with rfl | hx
        · exact Or.inr (Or.inl hkey.symm)
        · exact Or.inr (Or.inr hx)
  unfold Overrides at hover
  split at hover
  next htype =>
    obtain ⟨hbefore, hbehind⟩ := hfirst htype
    have hge : p.baseLamport ≤ r.baseLamport := hover.elim le_of_lt fun h => h.1.le
    rcases hplace with hx | htied | hy
    · obtain ⟨a, ha, hle⟩ := ofKey_arranged_ne_nil hx hne
      exact absurd (hge.trans (hle htype)) (not_le.mpr (hbefore a ha))
    · obtain ⟨hbase, hactor⟩ := sortKey_eq_iff.mp htied
      rcases hover with hlt | ⟨_, hlt⟩
      · exact absurd hbase hlt.ne'
      · exact absurd hactor hlt.ne
    · obtain ⟨b, hb, hle⟩ := ofKey_arranged_ne_nil hy hne
      have hlamport := (hle htype).trans (hbehind b hb)
      rcases hover with hlt | ⟨hbase, hlt⟩
      · exact absurd hlamport (not_le.mpr hlt)
      · exact absurd (hafter r hy) (not_le.mpr (sortKey_lt_iff.mpr (Or.inr ⟨hbase.symm, hlt⟩)))
  next htype =>
    rcases hplace with hx | htied | hy
    · exact absurd hover (not_lt.mpr ((List.pairwise_append.mp hsorted).2.2 r hx p List.mem_cons_self))
    · exact absurd htied.symm hover.ne
    · obtain ⟨b, hb, _⟩ := ofKey_arranged_ne_nil hy hne
      rw [hlast htype] at hb
      cases hb

/-- Tied patches that agree may be swapped. -/
theorem decider_swap (hagree : TiesAgree edges patches) (hperm : (x ++ p :: q :: y).Perm patches)
    (hsorted : (x ++ p :: q :: y).Pairwise (sortKey · ≤ sortKey ·)) (hkey : sortKey p = sortKey q)
    (taskId : String) (type : OpType) :
    (decider (arranged edges (x ++ p :: q :: y)) taskId type).map seen =
      (decider (arranged edges (x ++ q :: p :: y)) taskId type).map seen := by
  rw [arranged_swap, arranged_swap]
  simp only [decider_append]
  cases hp : decider (keptItems edges p) taskId type with
  | none => simp
  | some i =>
    cases hq : decider (keptItems edges q) taskId type with
    | none => simp
    | some j =>
      obtain ⟨hilamport, hiactor⟩ := entry_of_mem_keptItems (mem_ofKey.mp (decider_mem hp)).1
      obtain ⟨hjlamport, hjactor⟩ := entry_of_mem_keptItems (mem_ofKey.mp (decider_mem hq)).1
      obtain ⟨hbase, hactor⟩ := sortKey_eq_iff.mp hkey
      have hpmem : p ∈ patches := hperm.subset (by simp)
      have hqmem : q ∈ patches := hperm.subset (by simp)
      -- the two decide alike where nobody overrides them
      have hseen (hnone : ∀ r ∈ patches, Overrides type r p → ofKey (keptItems edges r) taskId type = []) :
          seen i = seen j := by
        have hpayload := hagree.decided p hpmem q hqmem hkey taskId type i j hnone hp hq
        rw [seen, seen, hpayload, hiactor, hjactor, hactor]
      have hno := @not_overridden edges patches x y p q taskId type hperm hsorted hkey
      by_cases htype : type = .addTask ∨ type = .state
      · cases hx : decider (arranged edges x) taskId type with
        | none =>
          cases hy : decider (arranged edges y) taskId type with
          | none =>
            have := hseen (hno (by simp [hx, hy]) fun h => absurd htype h)
            simp [later, htype, hilamport, hjlamport, hbase, this]
          | some b =>
            by_cases hlt : p.baseLamport < b.entry.patchLamport
            · simp [later, htype, hilamport, hjlamport, ← hbase, hlt]
            · have := hseen (hno (by simp [hx, hy, not_lt.mp hlt]) fun h => absurd htype h)
              simp [later, htype, hilamport, hjlamport, ← hbase, hlt, this]
        | some a =>
          by_cases hla : a.entry.patchLamport < p.baseLamport
          · cases hy : decider (arranged edges y) taskId type with
            | none =>
              have := hseen (hno (by simp [hx, hy, hla]) fun h => absurd htype h)
              simp [later, htype, hilamport, hjlamport, ← hbase, hla, this]
            | some b =>
              by_cases hlt : p.baseLamport < b.entry.patchLamport
              · simp [later, htype, hilamport, hjlamport, ← hbase, hlt, hla]
              · have := hseen (hno (by simp [hx, hy, hla, not_lt.mp hlt]) fun h => absurd htype h)
                simp [later, htype, hilamport, hjlamport, ← hbase, hlt, hla, this]
          · simp [later, htype, hilamport, hjlamport, ← hbase, hla]
      · have hlast (a b : Option Item) : later type a b = b.or a := by
          cases a <;> cases b <;> simp [later, htype]
        simp only [hlast]
        cases hy : decider (arranged edges y) taskId type with
        | none =>
          have := hseen (hno (fun h => absurd h htype) fun _ => hy)
          simp [this]
        | some b => simp

theorem addedTasks_swap (edges : List (Json × Json)) (x y : List PlanPatch) (p q : PlanPatch) :
    addedTasks (arranged edges (x ++ p :: q :: y)) =
      addedTasks (arranged edges x) ++ addedTasks (keptItems edges p) ++ addedTasks (keptItems edges q) ++
        addedTasks (arranged edges y) := by
  simp [arranged_swap, addedTasks]

theorem otherKeys_swap (edges : List (Json × Json)) (x y : List PlanPatch) (p q : PlanPatch) :
    otherKeys (arranged edges (x ++ p :: q :: y)) =
      otherKeys (arranged edges x) ++ otherKeys (keptItems edges p) ++ otherKeys (keptItems edges q) ++
        otherKeys (arranged edges y) := by
  simp [arranged_swap, otherKeys]

end Swap

section Orders

variable {edges : List (Json × Json)} {patches : List PlanPatch}

theorem arranged_mono {l l' : List PlanPatch} (h : ∀ r ∈ l, r ∈ l') :
    ∀ i ∈ arranged edges l, i ∈ arranged edges l' := by
  intro i hi
  obtain ⟨r, hr, hir⟩ := mem_arranged.mp hi
  exact mem_arranged.mpr ⟨r, h r hr, hir⟩

theorem addedTasks_mono {items items' : List Item} (h : ∀ i ∈ items, i ∈ items') :
    ∀ t ∈ addedTasks items, t ∈ addedTasks items' := by
  intro t ht
  obtain ⟨i, hi, rfl⟩ := List.mem_map.mp ht
  obtain ⟨hmem, htype⟩ := List.mem_filter.mp hi
  exact List.mem_map_of_mem (List.mem_filter.mpr ⟨h i hmem, htype⟩)

theorem otherKeys_mono {items items' : List Item} (h : ∀ i ∈ items, i ∈ items') :
    ∀ k ∈ otherKeys items, k ∈ otherKeys items' := by
  intro k hk
  obtain ⟨i, hi, rfl⟩ := List.mem_map.mp hk
  obtain ⟨hmem, htype⟩ := List.mem_filter.mp hi
  exact List.mem_map_of_mem (List.mem_filter.mpr ⟨h i hmem, htype⟩)

/-- Where tied patches agree all sorted orders have the same outcome. -/
theorem sameOutcome_of_agree (hagree : TiesAgree edges patches) {l l' : List PlanPatch} (hl : l.Perm patches)
    (hl' : l'.Perm patches) (hs : l.Pairwise (sortKey · ≤ sortKey ·)) (hs' : l'.Pairwise (sortKey · ≤ sortKey ·)) :
    SameOutcome (arranged edges l) (arranged edges l') := by
  have hearlier {x y : List PlanPatch} {p q : PlanPatch} (hperm : (x ++ p :: q :: y).Perm l)
      (hsorted : (x ++ p :: q :: y).Pairwise (sortKey · ≤ sortKey ·)) (hkey : sortKey p = sortKey q) :
      ∀ i ∈ arranged edges (patches.filter (sortKey · < sortKey p)), i ∈ arranged edges x := by
    refine arranged_mono fun r hr => ?_
    obtain ⟨hmem, hlt⟩ := List.mem_filter.mp hr
    exact earlier_subset (hperm.trans hl) hsorted hkey r hmem (of_decide_eq_true hlt)
  refine ⟨?_, ?_, fun taskId type => ?_⟩
  · refine @eq_of_swaps _ _ _ _ sortKey (fun l => firsts (addedTasks (arranged edges l))) l l' (hl.trans hl'.symm)
      hs hs' ?_
    intro x p q y hperm hsorted hkey
    have hmem : ∀ r ∈ [p, q], r ∈ patches := fun r hr => (hperm.trans hl).subset (by simp at hr ⊢; tauto)
    have hties := hagree.tasks p (hmem p (by simp)) q (hmem q (by simp)) hkey
    simp only [addedTasks_swap]
    exact firsts_swap _ _ (comparable_fresh (addedTasks_mono (hearlier hperm hsorted hkey)) hties)
  · refine @eq_of_swaps _ _ _ _ sortKey (fun l => firsts (otherKeys (arranged edges l))) l l' (hl.trans hl'.symm)
      hs hs' ?_
    intro x p q y hperm hsorted hkey
    have hmem : ∀ r ∈ [p, q], r ∈ patches := fun r hr => (hperm.trans hl).subset (by simp at hr ⊢; tauto)
    have hties := hagree.others p (hmem p (by simp)) q (hmem q (by simp)) hkey
    simp only [otherKeys_swap]
    exact firsts_swap _ _ (comparable_fresh (otherKeys_mono (hearlier hperm hsorted hkey)) hties)
  · refine @eq_of_swaps _ _ _ _ sortKey (fun l => (decider (arranged edges l) taskId type).map seen) l l'
      (hl.trans hl'.symm) hs hs' ?_
    intro x p q y hperm hsorted hkey
    exact decider_swap hagree (hperm.trans hl) hsorted hkey taskId type

/-- A task or state that nothing overrides is decided by the first of its tied patches. -/
theorem decider_first {smaller rest : List PlanPatch} {p : PlanPatch} {taskId : String} {type : OpType} {i : Item}
    (htype : type = .addTask ∨ type = .state) (hi : decider (keptItems edges p) taskId type = some i)
    (hsmaller : ∀ r ∈ smaller, sortKey r < sortKey p)
    (hnone : ∀ r ∈ smaller ++ rest, Overrides type r p → ofKey (keptItems edges r) taskId type = []) :
    decider (arranged edges (smaller ++ p :: rest)) taskId type = some i := by
  have hlamport := (entry_of_mem_keptItems (mem_ofKey.mp (decider_mem hi)).1).1
  have hshape : arranged edges (smaller ++ p :: rest) =
      arranged edges smaller ++ keptItems edges p ++ arranged edges rest := by simp [arranged]
  have hof {l : List PlanPatch} {a : Item} (ha : decider (arranged edges l) taskId type = some a) :
      ∃ r ∈ l, a.entry.patchLamport = r.baseLamport ∧ ofKey (keptItems edges r) taskId type ≠ [] := by
    obtain ⟨hmem, hkey⟩ := mem_ofKey.mp (decider_mem ha)
    obtain ⟨r, hr, har⟩ := mem_arranged.mp hmem
    exact ⟨r, hr, (entry_of_mem_keptItems har).1, List.ne_nil_of_mem (mem_ofKey.mpr ⟨har, hkey⟩)⟩
  have hbefore : later type (decider (arranged edges smaller) taskId type) (some i) = some i := by
    cases ha : decider (arranged edges smaller) taskId type with
    | none => rfl
    | some a =>
      obtain ⟨r, hr, har, hne⟩ := hof ha
      have hlt : r.baseLamport < p.baseLamport := by
        rcases sortKey_lt_iff.mp (hsmaller r hr) with hlt | ⟨hbase, hactor⟩
        · exact hlt
        · have hover : Overrides type r p := by
            rw [Overrides, if_pos htype]
            exact Or.inr ⟨hbase.symm, hactor⟩
          exact absurd (hnone r (List.mem_append_left _ hr) hover) hne
      simp [later, har, hlamport, hlt]
  rw [hshape, decider_append, decider_append, hi, hbefore]
  cases hb : decider (arranged edges rest) taskId type with
  | none => rfl
  | some b =>
    obtain ⟨r, hr, hbr, hne⟩ := hof hb
    have hle : ¬p.baseLamport < r.baseLamport := by
      intro hlt
      have hover : Overrides type r p := by
        rw [Overrides, if_pos htype]
        exact Or.inl hlt
      exact hne (hnone r (List.mem_append_right _ hr) hover)
    simp [later, htype, hlamport, hbr, hle]

/-- Of the other types the last of the tied patches decides. -/
theorem decider_last {before greater : List PlanPatch} {p : PlanPatch} {taskId : String} {type : OpType} {i : Item}
    (htype : ¬(type = .addTask ∨ type = .state)) (hi : decider (keptItems edges p) taskId type = some i)
    (hgreater : ∀ r ∈ greater, sortKey p < sortKey r)
    (hnone : ∀ r ∈ greater, Overrides type r p → ofKey (keptItems edges r) taskId type = []) :
    decider (arranged edges (before ++ p :: greater)) taskId type = some i := by
  have hshape : arranged edges (before ++ p :: greater) =
      arranged edges before ++ keptItems edges p ++ arranged edges greater := by simp [arranged]
  have hafter : decider (arranged edges greater) taskId type = none := by
    rw [decider_eq_none_iff]
    apply List.filter_eq_nil_iff.mpr
    intro b hb hkey
    obtain ⟨r, hr, hbr⟩ := mem_arranged.mp hb
    have hover : Overrides type r p := by
      rw [Overrides, if_neg htype]
      exact hgreater r hr
    have hmem : b ∈ ofKey (keptItems edges r) taskId type := List.mem_filter.mpr ⟨hbr, hkey⟩
    rw [hnone r hr hover] at hmem
    cases hmem
  rw [hshape, decider_append, decider_append, hi, hafter, later_none_right]
  cases decider (arranged edges before) taskId type with
  | none => rfl
  | some a => simp [later, htype]

/-- The patches with a smaller key, in any order, bring the same places. -/
theorem arranged_earlier {l : List PlanPatch} {p : PlanPatch} (hl : l.Perm patches) {smaller rest : List PlanPatch}
    (hsplit : l = smaller ++ rest) (hsmaller : ∀ r ∈ smaller, sortKey r < sortKey p)
    (hrest : ∀ r ∈ rest, ¬sortKey r < sortKey p) (i : Item) :
    i ∈ arranged edges (patches.filter (sortKey · < sortKey p)) ↔ i ∈ arranged edges smaller := by
  constructor
  · refine fun hi => arranged_mono (fun r hr => ?_) i hi
    obtain ⟨hmem, hlt⟩ := List.mem_filter.mp hr
    rcases List.mem_append.mp (hsplit ▸ hl.symm.subset hmem) with hr | hr
    · exact hr
    · exact absurd (of_decide_eq_true hlt) (hrest r hr)
  · refine fun hi => arranged_mono (fun r hr => ?_) i hi
    have hmem : r ∈ patches := hl.subset (hsplit ▸ List.mem_append_left _ hr)
    exact List.mem_filter.mpr ⟨hmem, decide_eq_true (hsmaller r hr)⟩

/-- Where all sorted orders have the same outcome tied patches agree. -/
theorem agree_of_sameOutcome (h : ∀ l l', l.Perm patches → l'.Perm patches → l.Pairwise (sortKey · ≤ sortKey ·) →
    l'.Pairwise (sortKey · ≤ sortKey ·) → SameOutcome (arranged edges l) (arranged edges l')) :
    TiesAgree edges patches := by
  -- two tied patches can stand first, and last, among those with their key
  have hblocks {p q : PlanPatch} (hp : p ∈ patches) (hq : q ∈ patches) (hne : p ≠ q) (hkey : sortKey p = sortKey q) :
      ∃ smaller tied greater, (∀ r ∈ smaller, sortKey r < sortKey p) ∧ (∀ r ∈ greater, sortKey p < sortKey r) ∧
        (∀ r ∈ smaller ++ (tied ++ greater), r ∈ patches) ∧ (∀ r ∈ tied, sortKey r = sortKey p) ∧
        ∀ mid : List PlanPatch, mid.Perm (p :: q :: tied) → (smaller ++ mid ++ greater).Perm patches ∧
          (smaller ++ mid ++ greater).Pairwise (sortKey · ≤ sortKey ·) := by
    obtain ⟨smaller, tied, greater, hsmaller, htied, hgreater, hs, hg, hperm⟩ := @exists_blocks _ _ _ sortKey _ _ _ hp hq hne
    refine ⟨smaller, tied, greater, hsmaller, hgreater, ?_, htied, fun mid hmid => ⟨?_, ?_⟩⟩
    · intro r hr
      apply hperm.subset
      simp only [List.mem_append, List.mem_cons] at hr ⊢
      tauto
    · exact ((hmid.append_left smaller).append_right greater).trans hperm
    · refine pairwise_blocks hsmaller (fun r hr => ?_) hgreater hs hg
      have hr' := hmid.subset hr
      simp only [List.mem_cons] at hr'
      rcases hr' with rfl | rfl | hr'
      · rfl
      · exact hkey.symm
      · exact htied r hr'
  -- the places that the smaller ones bring come first in both orders
  have hfirst {p q : PlanPatch} (hp : p ∈ patches) (hq : q ∈ patches) (hne : p ≠ q) (hkey : sortKey p = sortKey q) :
      ∃ smaller rest rest', (∀ i, i ∈ arranged edges (patches.filter (sortKey · < sortKey p)) ↔ i ∈ arranged edges smaller) ∧
        SameOutcome (arranged edges smaller ++ (keptItems edges p ++ rest))
          (arranged edges smaller ++ (keptItems edges q ++ rest')) := by
    obtain ⟨smaller, tied, greater, hsmaller, hgreater, _, htied, hmid⟩ := hblocks hp hq hne hkey
    obtain ⟨hperm, hsorted⟩ := hmid (p :: q :: tied) (List.Perm.refl _)
    obtain ⟨hperm', hsorted'⟩ := hmid (q :: p :: tied) (List.Perm.swap p q tied)
    refine ⟨smaller, arranged edges (q :: tied ++ greater), arranged edges (p :: tied ++ greater), ?_, ?_⟩
    · refine arranged_earlier hperm (List.append_assoc _ _ _) hsmaller fun r hr => ?_
      simp only [List.mem_append, List.mem_cons] at hr
      rcases hr with (rfl | rfl | hr) | hr
      · exact lt_irrefl _
      · exact hkey ▸ lt_irrefl _
      · exact htied r hr ▸ lt_irrefl _
      · exact (hgreater r hr).not_gt
    · have hsame := h _ _ hperm hperm' hsorted hsorted'
      have hshape (p q : PlanPatch) : arranged edges (smaller ++ (p :: q :: tied) ++ greater) =
          arranged edges smaller ++ (keptItems edges p ++ arranged edges (q :: tied ++ greater)) := by
        simp [arranged]
      rwa [hshape, hshape] at hsame
  refine ⟨?_, ?_, ?_⟩
  · intro p hp q hq hkey
    by_cases hne : p = q
    · exact hne ▸ Or.inl (List.prefix_refl _)
    · obtain ⟨smaller, rest, rest', hearlier, hsame⟩ := hfirst hp hq hne hkey
      have heq := hsame.tasks
      simp only [addedTasks, List.filter_append, List.map_append] at heq
      have hcongr (l : List String) := @fresh_congr _ _ (addedTasks (arranged edges (patches.filter (sortKey · < sortKey p))))
        (addedTasks (arranged edges smaller)) l fun t _ =>
          ⟨addedTasks_mono (fun i => (hearlier i).mp) t, addedTasks_mono (fun i => (hearlier i).mpr) t⟩
      simp only [hcongr]
      exact comparable_of_firsts_eq heq
  · intro p hp q hq hkey
    by_cases hne : p = q
    · exact hne ▸ Or.inl (List.prefix_refl _)
    · obtain ⟨smaller, rest, rest', hearlier, hsame⟩ := hfirst hp hq hne hkey
      have heq := hsame.others
      simp only [otherKeys, List.filter_append, List.map_append] at heq
      have hcongr (l : List (String × String)) :=
        @fresh_congr _ _ (otherKeys (arranged edges (patches.filter (sortKey · < sortKey p))))
          (otherKeys (arranged edges smaller)) l fun k _ =>
            ⟨otherKeys_mono (fun i => (hearlier i).mp) k, otherKeys_mono (fun i => (hearlier i).mpr) k⟩
      simp only [hcongr]
      exact comparable_of_firsts_eq heq
  · intro p hp q hq hkey taskId type i j hnone hi hj
    by_cases hne : p = q
    · subst hne
      rw [Option.some.inj (hi.symm.trans hj)]
    · obtain ⟨smaller, tied, greater, hsmaller, hgreater, hmem, _, hmid⟩ := hblocks hp hq hne hkey
      have hnone' : ∀ r ∈ patches, Overrides type r q → ofKey (keptItems edges r) taskId type = [] := by
        intro r hr hover
        refine hnone r hr ?_
        obtain ⟨hbase, hactor⟩ := sortKey_eq_iff.mp hkey
        unfold Overrides at hover ⊢
        rwa [hbase, hactor, hkey]
      have hsmaller' : ∀ r ∈ smaller, sortKey r < sortKey q := fun r hr => hkey ▸ hsmaller r hr
      have hgreater' : ∀ r ∈ greater, sortKey q < sortKey r := fun r hr => hkey ▸ hgreater r hr
      by_cases htype : type = .addTask ∨ type = .state
      · obtain ⟨hperm, hsorted⟩ := hmid (p :: q :: tied) (List.Perm.refl _)
        obtain ⟨hperm', hsorted'⟩ := hmid (q :: p :: tied) (List.Perm.swap p q tied)
        have hsame := (h _ _ hperm hperm' hsorted hsorted').decided taskId type
        have hshape (p q : PlanPatch) : smaller ++ (p :: q :: tied) ++ greater = smaller ++ p :: (q :: tied ++ greater) := by
          simp
        rw [hshape p q, hshape q p, decider_first htype hi hsmaller, decider_first htype hj hsmaller'] at hsame
        · exact congrArg Prod.snd (Option.some.inj hsame)
        · intro r hr
          refine hnone' r (hperm'.subset ?_)
          simp only [List.mem_append, List.mem_cons] at hr ⊢
          tauto
        · intro r hr
          refine hnone r (hperm.subset ?_)
          simp only [List.mem_append, List.mem_cons] at hr ⊢
          tauto
      · have hend : (tied ++ [q, p]).Perm (p :: q :: tied) :=
          List.perm_append_comm.trans (List.Perm.swap p q tied)
        have hend' : (tied ++ [p, q]).Perm (p :: q :: tied) := List.perm_append_comm
        obtain ⟨hperm, hsorted⟩ := hmid _ hend
        obtain ⟨hperm', hsorted'⟩ := hmid _ hend'
        have hsame := (h _ _ hperm hperm' hsorted hsorted').decided taskId type
        have hshape (p q : PlanPatch) : smaller ++ (tied ++ [q, p]) ++ greater = (smaller ++ tied ++ [q]) ++ p :: greater := by
          simp
        have hgreaterMem : ∀ r ∈ greater, r ∈ patches := fun r hr =>
          hmem r (List.mem_append_right _ (List.mem_append_right _ hr))
        rw [hshape p q, hshape q p, decider_last htype hi hgreater fun r hr => hnone r (hgreaterMem r hr),
          decider_last htype hj hgreater' fun r hr => hnone' r (hgreaterMem r hr)] at hsame
        exact congrArg Prod.snd (Option.some.inj hsame)

end Orders

/-- An operation of the result without its generated id. -/
def unnamed (op : PlanOp) : PlanOp := { op with opId := "" }

theorem toOps_unnamed {uuid4 uuid4' : Nat → String} {count : Nat} {lamport : Int}
    {es es' : List (String × String × Entry)} {ops ops' : List PlanOp} (h : toOps uuid4 count lamport es = .ok ops)
    (h' : toOps uuid4' count lamport es' = .ok ops') (htypes : ∀ e ∈ es, ∃ type : OpType, e.2.1 = type.value)
    (hshown : es.map shownEntry = es'.map shownEntry) : ops.map unnamed = ops'.map unnamed := by
  induction es generalizing count lamport es' ops ops' with
  | nil =>
    obtain rfl := List.map_eq_nil_iff.mp hshown.symm
    cases h
    cases h'
    rfl
  | cons e rest ih =>
    cases es' with
    | nil => cases hshown
    | cons e' rest' =>
      obtain ⟨hhead, htail⟩ := List.cons.inj hshown
      obtain ⟨⟨type, htype⟩, hrest⟩ := List.forall_mem_cons.mp htypes
      obtain ⟨taskId, opType, entry⟩ := e
      obtain ⟨taskId', opType', entry'⟩ := e'
      simp only [shownEntry, Prod.mk.injEq] at hhead
      obtain ⟨rfl, rfl, hactor, hpayload⟩ := hhead
      obtain rfl : opType = type.value := htype
      simp only [toOps, ofValue_value, Except.mapError, bind, Except.bind] at h h'
      cases hops : toOps uuid4 (count + 1) (lamport + 1) rest with
      | error err =>
        rw [hops] at h
        cases h
      | ok ops₁ =>
        cases hops' : toOps uuid4' (count + 1) (lamport + 1) rest' with
        | error err =>
          rw [hops'] at h'
          cases h'
        | ok ops₁' =>
          rw [hops] at h
          rw [hops'] at h'
          cases h
          cases h'
          simp [unnamed, ih hops hops' hrest htail, hactor, hpayload]

theorem maxLamport_eq (patches : List PlanPatch) :
    maxLamport patches = ((patches.map PlanPatch.baseLamport).max?).getD 0 := by
  cases patches with
  | nil => rfl
  | cons p rest =>
    rw [maxLamport, List.map_cons, List.max?_cons', List.foldl_map]
    rfl

theorem maxLamport_perm {patches patches' : List PlanPatch} (h : patches.Perm patches') :
    maxLamport patches = maxLamport patches' := by
  rw [maxLamport_eq, maxLamport_eq]
  have hmem (n : Int) : n ∈ patches.map PlanPatch.baseLamport ↔ n ∈ patches'.map PlanPatch.baseLamport :=
    (h.map _).mem_iff
  congr 1
  cases hm : (patches.map PlanPatch.baseLamport).max? with
  | none =>
    rw [List.max?_eq_none_iff] at hm
    rw [eq_comm, List.max?_eq_none_iff]
    have hnil := (h.map PlanPatch.baseLamport)
    rw [hm] at hnil
    exact hnil.nil_eq.symm
  | some n =>
    obtain ⟨hn, hle⟩ := List.max?_eq_some_iff.mp hm
    exact (List.max?_eq_some_iff.mpr ⟨(hmem n).mp hn, fun k hk => hle k ((hmem k).mpr hk)⟩).symm

theorem mergePatches_eq (uuid4 : Nat → String) {patches : List PlanPatch} (h : AllValid patches)
    (hash : AllHashable (sequence patches)) : mergePatches uuid4 patches =
      toOps uuid4 0 (maxLamport patches + 1) (entries (written (accepted (items patches)))) := by
  unfold mergePatches
  split
  next hempty =>
    subst hempty
    rfl
  next =>
    rw [show ((⟨.empty, .empty, []⟩ : Merged)) = start from rfl, foldlM_mergeOp h.wellFormed hash]
    rfl

/-- The result does not depend on the order of the patches, the generated ids aside. -/
def OrderIndependent (patches : List PlanPatch) : Prop :=
  ∀ patches', patches'.Perm patches → ∀ uuid4 uuid4', ∃ ops ops', mergePatches uuid4 patches = .ok ops ∧
    mergePatches uuid4' patches' = .ok ops' ∧ ops.map unnamed = ops'.map unnamed

/-- Which edges are accepted does not depend on the order of the patches. -/
def LinksSettled (patches : List PlanPatch) : Prop :=
  ∀ patches', patches'.Perm patches → ∀ edge,
    edge ∈ links (accepted (items patches')) ↔ edge ∈ links (accepted (items patches))

/-- The links of one task name one edge. -/
def OneEdge (patches : List PlanPatch) : Prop :=
  ∀ i ∈ items patches, ∀ j ∈ items patches, i.type = .link → j.type = .link → i.taskId = j.taskId → i.edge = j.edge

theorem mem_items {patches : List PlanPatch} {i : Item} :
    i ∈ items patches ↔ ∃ p ∈ patches, ∃ op ∈ p.ops, item (p, op) = i := by
  simp only [items, List.mem_map, mem_sequence]
  constructor
  · rintro ⟨⟨p, op⟩, ⟨hp, hop⟩, rfl⟩
    exact ⟨p, hp, op, hop, rfl⟩
  · rintro ⟨p, hp, op, hop, rfl⟩
    exact ⟨(p, op), ⟨hp, hop⟩, rfl⟩

theorem mem_items_perm {patches patches' : List PlanPatch} (h : patches'.Perm patches) {i : Item} :
    i ∈ items patches' ↔ i ∈ items patches := by
  rw [mem_items, mem_items]
  simp only [h.mem_iff]

/-- Two orders give the same result exactly if they have the same outcome. -/
theorem merge_same_iff {patches patches' : List PlanPatch} (hperm : patches'.Perm patches) (h : AllValid patches)
    (hash : AllHashable (sequence patches)) {uuid4 uuid4' : Nat → String} :
    (∃ ops ops', mergePatches uuid4 patches = .ok ops ∧ mergePatches uuid4' patches' = .ok ops' ∧
      ops.map unnamed = ops'.map unnamed) ↔ SameOutcome (accepted (items patches)) (accepted (items patches')) := by
  have h' : AllValid patches' := fun p hp => h p (hperm.subset hp)
  have hash' : AllHashable (sequence patches') := by
    rw [allHashable_iff h']
    exact fun i hi => (allHashable_iff h).mp hash i ((mem_items_perm hperm).mp hi)
  have htypes : ∀ i ∈ accepted (items patches), i.entry.op.opType = some i.type.value :=
    fun i hi => opType_of_mem h.wellFormed (accepted_subset _ i hi)
  have htypes' : ∀ i ∈ accepted (items patches'), i.entry.op.opType = some i.type.value :=
    fun i hi => opType_of_mem h'.wellFormed (accepted_subset _ i hi)
  rw [← sameOutcome_iff htypes htypes']
  obtain ⟨ops, hops, hshown⟩ := mergePatches_ok uuid4 h hash
  obtain ⟨ops', hops', hshown'⟩ := mergePatches_ok uuid4' h' hash'
  constructor
  · rintro ⟨ops₁, ops₁', hops₁, hops₁', hsame⟩
    obtain rfl := Except.ok.inj (hops.symm.trans hops₁)
    obtain rfl := Except.ok.inj (hops'.symm.trans hops₁')
    have hmap (ops : List PlanOp) : (ops.map unnamed).map shown = ops.map shown := by
      rw [List.map_map]
      rfl
    rw [← hshown, ← hshown', ← hmap ops, ← hmap ops', hsame]
  · intro hsame
    refine ⟨ops, ops', hops, hops', ?_⟩
    rw [mergePatches_eq uuid4 h hash] at hops
    rw [mergePatches_eq uuid4' h' hash', maxLamport_perm hperm] at hops'
    exact toOps_unnamed hops hops' (entries_types h) hsame

theorem accepted_arranged {patches patches' : List PlanPatch} (hlinks : LinksSettled patches)
    (hperm : patches'.Perm patches) :
    accepted (items patches') = arranged (links (accepted (items patches))) (sortOn sortKey patches') := by
  rw [accepted_eq_effective, ← effective_items]
  apply List.filter_congr
  intro i _
  rw [decide_eq_decide]
  exact forall_congr' fun _ => hlinks patches' hperm i.edge

/-- Equal outcomes show the accepted edges of tasks with one edge. -/
theorem linksSettled_of_sameOutcome {patches : List PlanPatch} (h : AllValid patches) (hone : OneEdge patches)
    (hsame : ∀ patches', patches'.Perm patches → SameOutcome (accepted (items patches)) (accepted (items patches'))) :
    LinksSettled patches := by
  -- an accepted edge is the edge of the link that decides its task
  have hshow {l l' : List PlanPatch} (hl : l.Perm patches) (hl' : l'.Perm patches)
      (hdecided : ∀ taskId, (decider (accepted (items l)) taskId .link).map seen =
        (decider (accepted (items l')) taskId .link).map seen) :
      ∀ edge ∈ links (accepted (items l)), edge ∈ links (accepted (items l')) := by
    intro edge hedge
    obtain ⟨i, hi, rfl⟩ := List.mem_map.mp hedge
    obtain ⟨hmem, hlink⟩ := List.mem_filter.mp hi
    have hilink : i.type = .link := of_decide_eq_true hlink
    cases hj : decider (accepted (items l)) i.taskId .link with
    | none =>
      have hnil := decider_eq_none_iff.mp hj
      exact absurd hnil (List.ne_nil_of_mem (mem_ofKey.mpr ⟨hmem, rfl, hilink⟩))
    | some j =>
      cases hj' : decider (accepted (items l')) i.taskId .link with
      | none =>
        have := hdecided i.taskId
        rw [hj, hj'] at this
        cases this
      | some j' =>
        have hseen := hdecided i.taskId
        rw [hj, hj'] at hseen
        have hpayload : j.entry.op.getPayload = j'.entry.op.getPayload := congrArg Prod.snd (Option.some.inj hseen)
        obtain ⟨hjmem, hjtask, hjlink⟩ := mem_ofKey.mp (decider_mem hj)
        obtain ⟨hjmem', hjtask', hjlink'⟩ := mem_ofKey.mp (decider_mem hj')
        have hvalid {l : List PlanPatch} (hl : l.Perm patches) : AllValid l := fun p hp => h p (hl.subset hp)
        have hedge := payloadEdge_of_link (hvalid hl) (accepted_subset _ j hjmem) hjlink
        have hedge' := payloadEdge_of_link (hvalid hl') (accepted_subset _ j' hjmem') hjlink'
        rw [← hpayload, hedge] at hedge'
        have hi' := (mem_items_perm hl).mp (accepted_subset _ i hmem)
        have hj'' := (mem_items_perm hl).mp (accepted_subset _ j hjmem)
        rw [hone i hi' j hj'' hilink hjlink hjtask.symm, Option.some.inj hedge']
        exact List.mem_map_of_mem (List.mem_filter.mpr ⟨hjmem', decide_eq_true hjlink'⟩)
  intro patches' hperm edge
  have hdecided := (hsame patches' hperm).decided
  exact ⟨hshow hperm (List.Perm.refl _) (fun t => (hdecided t .link).symm) edge,
    hshow (List.Perm.refl _) hperm (fun t => hdecided t .link) edge⟩

/-- What a merge needs in order not to depend on the order of the patches. -/
structure Settled (patches : List PlanPatch) : Prop where
  hashable : ∀ i ∈ items patches, i.type = .link → HashableEdge i.edge
  edges : LinksSettled patches
  ties : TiesAgree (links (accepted (items patches))) patches

theorem sameOutcome_iff_agree {patches : List PlanPatch} (hlinks : LinksSettled patches) :
    (∀ patches', patches'.Perm patches → SameOutcome (accepted (items patches)) (accepted (items patches'))) ↔
      TiesAgree (links (accepted (items patches))) patches := by
  constructor
  · intro hsame
    refine agree_of_sameOutcome fun l l' hl hl' hs hs' => ?_
    have hleft := hsame l hl
    have hright := hsame l' hl'
    rw [accepted_arranged hlinks hl, sortOn_eq_self sortKey hs] at hleft
    rw [accepted_arranged hlinks hl', sortOn_eq_self sortKey hs'] at hright
    exact ⟨hleft.tasks.symm.trans hright.tasks, hleft.others.symm.trans hright.others,
      fun t type => (hleft.decided t type).symm.trans (hright.decided t type)⟩
  · intro hagree patches' hperm
    have hself := accepted_arranged hlinks (List.Perm.refl patches)
    rw [accepted_arranged hlinks hperm]
    have hsame := sameOutcome_of_agree hagree (perm_sortOn sortKey patches) ((perm_sortOn sortKey patches').trans hperm)
      (pairwise_sortOn sortKey patches) (pairwise_sortOn sortKey patches')
    rwa [← hself] at hsame

/-- Patches without ties are settled. -/
theorem settled_of_nodup {patches : List PlanPatch} (hkeys : (patches.map sortKey).Nodup)
    (hash : ∀ i ∈ items patches, i.type = .link → HashableEdge i.edge) : Settled patches := by
  refine ⟨hash, fun patches' hperm edge => ?_, ?_⟩
  · have hsame : sortOn sortKey patches' = sortOn sortKey patches :=
      (sortOn_eq_of_perm sortKey hperm.symm hkeys).symm
    rw [items, sequence, hsame]
    rfl
  · have heq : ∀ p ∈ patches, ∀ q ∈ patches, sortKey p = sortKey q → p = q :=
      fun p hp q hq => (List.inj_on_of_nodup_map hkeys) hp hq
    refine ⟨?_, ?_, ?_⟩
    · intro p hp q hq hkey
      exact heq p hp q hq hkey ▸ Or.inl (List.prefix_refl _)
    · intro p hp q hq hkey
      exact heq p hp q hq hkey ▸ Or.inl (List.prefix_refl _)
    · intro p hp q hq hkey taskId type i j _ hi hj
      obtain rfl := heq p hp q hq hkey
      rw [Option.some.inj (hi.symm.trans hj)]

/-- An actor's patch that adds a task. -/
def addPatch (patchId actorId taskId : String) : PlanPatch :=
  ⟨patchId, actorId, 3, [⟨some "ADD_TASK", some taskId, none⟩], 0⟩

end AgentNetwork.Plan.PatchValidator
