import AgentNetwork.Sharding.Cascade

namespace AgentNetwork.Sharding

open Relational Relation Grounding

namespace CommitmentProtocol

section Publication

variable {p p' : CommitmentProtocol} {k : CommitmentArtifact}

theorem mem_pendingDeps {d : String} : d ∈ pendingDeps k p ↔ d ∈ k.dependencies ∧ d ∉ p.finalized := by
  have hfold (deps : List String) (s : ListSet String) :
      d ∈ deps.foldl (fun s d => if d ∈ p.finalized then s else s.add d) s ↔ d ∈ s ∨ d ∈ deps ∧ d ∉ p.finalized := by
    induction deps generalizing s with
    | nil => simp
    | cons a rest ih =>
      rw [List.foldl_cons, ih]
      by_cases ha : a ∈ p.finalized
      · rw [if_pos ha, List.mem_cons]
        constructor
        · intro h
          exact h.imp_right fun hboth => ⟨Or.inr hboth.1, hboth.2⟩
        · intro h
          refine h.imp_right fun hboth => ⟨hboth.1.resolve_left ?_, hboth.2⟩
          intro hd
          exact hboth.2 (hd ▸ ha)
      · rw [if_neg ha, ListSet.mem_add, List.mem_cons]
        grind
  have h := hfold k.dependencies .empty
  simp only [ListSet.not_mem_empty, false_or] at h
  exact h

theorem get?_byHash_register (y : String) :
    (register k p).commitmentByHash.get? y = if y = k.commitmentHash then some k else p.commitmentByHash.get? y :=
  Table.get?_upsert _ _ _ _

theorem get?_byHash_self : (register k p).commitmentByHash.get? k.commitmentHash = some k := by
  rw [get?_byHash_register, if_pos rfl]

theorem get?_pending_register (y : String) : (register k p).pending.get? y =
    if (∃ d ∈ k.dependencies, d ∉ p.finalized) ∧ y = k.commitmentHash then some (pendingDeps k p) else p.pending.get? y := by
  by_cases hex : ∃ d ∈ k.dependencies, d ∉ p.finalized
  · obtain ⟨d, hd⟩ := hex
    have hne : (pendingDeps k p).elems ≠ [] := List.ne_nil_of_mem (mem_pendingDeps.mpr hd)
    have hex : ∃ d ∈ k.dependencies, d ∉ p.finalized := ⟨d, hd⟩
    simp only [register, if_neg hne, Table.get?_upsert, hex, true_and]
  · have hnil : (pendingDeps k p).elems = [] := by
      rw [List.eq_nil_iff_forall_not_mem]
      intro d hd
      exact hex ⟨d, mem_pendingDeps.mp hd⟩
    rw [if_neg fun hboth => hex hboth.1, register, if_pos hnil]

theorem Published.ne {y h : String} (hy : p.Published y) (hfresh : p.commitmentByHash.get? h = none) : y ≠ h := by
  intro heq
  obtain ⟨k, hk⟩ := hy
  rw [heq, hfresh] at hk
  cases hk

theorem Tracks.notFinalized {y : String} (ht : Tracks p fun _ _ => False) (hfresh : p.commitmentByHash.get? y = none) :
    y ∉ p.finalized := by
  intro hy
  exact (ht.grounded y hy).present.ne hfresh rfl

theorem Tracks.notPending {y : String} (ht : Tracks p fun _ _ => False) (hfresh : p.commitmentByHash.get? y = none) :
    p.pending.get? y = none := by
  cases hs : p.pending.get? y with
  | none => rfl
  | some s =>
    have hy := ((ht.waits y).mp ⟨s, hs⟩).1
    exact absurd rfl (hy.ne hfresh)

theorem dependsOn_register {y d : String} (hy : y ≠ k.commitmentHash) : (register k p).DependsOn y d ↔ p.DependsOn y d := by
  rw [DependsOn, get?_byHash_register, if_neg hy, DependsOn]

theorem dependsOn_register_self {d : String} : (register k p).DependsOn k.commitmentHash d ↔ d ∈ k.dependencies := by
  rw [DependsOn, get?_byHash_register, if_pos rfl]
  constructor
  · intro h
    obtain ⟨k', hk', hd⟩ := h
    rw [Option.some.inj hk']
    exact hd
  · intro hd
    exact ⟨k, rfl, hd⟩

theorem published_register {y : String} : (register k p).Published y ↔ y = k.commitmentHash ∨ p.Published y := by
  rw [Published, get?_byHash_register]
  by_cases hy : y = k.commitmentHash
  · simp [hy]
  · simp [hy, Published]

/-- The registration of a commitment that has to wait. -/
theorem Tracks.registerBlocked (ht : Tracks p fun _ _ => False) (hfresh : p.commitmentByHash.get? k.commitmentHash = none)
    (hblocked : ∃ d ∈ k.dependencies, d ∉ p.finalized) : Tracks (register k p) fun _ _ => False := by
  have hpending (y : String) : (register k p).pending.get? y =
      if y = k.commitmentHash then some (pendingDeps k p) else p.pending.get? y := by
    rw [get?_pending_register]
    simp only [hblocked, true_and]
  refine ⟨?_, fun _ _ hdue => hdue.elim, ?_, ?_, ?_⟩
  · intro y hy
    refine (ht.grounded y hy).mono (fun x hx => published_register.mpr (Or.inr hx)) ?_
    intro x b hx hb
    exact (dependsOn_register (hx.ne hfresh)).mp hb
  · intro y
    rw [hpending, published_register]
    by_cases hy : y = k.commitmentHash
    · rw [if_pos hy]
      have hnot := ht.notFinalized hfresh
      rw [← hy] at hnot
      exact ⟨fun _ => ⟨Or.inl hy, hnot⟩, fun _ => ⟨_, rfl⟩⟩
    · rw [if_neg hy, ht.waits y]
      simp only [hy, false_or]
      exact Iff.rfl
  · intro y s hs d
    rw [hpending] at hs
    by_cases hy : y = k.commitmentHash
    · rw [if_pos hy] at hs
      obtain rfl := Option.some.inj hs
      subst hy
      rw [mem_pendingDeps, dependsOn_register_self, or_false]
      exact Iff.rfl
    · rw [if_neg hy] at hs
      rw [ht.deps y s hs d, dependsOn_register hy]
      exact Iff.rfl
  · intro y s hs hall
    rw [hpending] at hs
    by_cases hy : y = k.commitmentHash
    · obtain ⟨d, hd, hnot⟩ := hblocked
      subst hy
      exact absurd (hall d (dependsOn_register_self.mpr hd)) hnot
    · rw [if_neg hy] at hs
      obtain ⟨_, hdue, _⟩ := ht.last y s hs fun d hd => hall d ((dependsOn_register hy).mpr hd)
      exact hdue.elim

/-- The state in which the cascade of a commitment starts that need not wait. -/
theorem Tracks.registerFinal (ht : Tracks p fun _ _ => False) (hfresh : p.commitmentByHash.get? k.commitmentHash = none)
    (hready : ∀ d ∈ k.dependencies, d ∈ p.finalized) :
    Tracks (finish k.commitmentHash (register k p)) fun d y =>
      False ∨ (d = k.commitmentHash ∧ y ∈ waiting k.commitmentHash (finish k.commitmentHash (register k p))) := by
  have hc := ht.notFinalized hfresh
  have hfinishes : Finishes p (finish k.commitmentHash (register k p)) k.commitmentHash k := by
    refine ⟨hc, get?_byHash_self, hready, ListSet.elems_add_of_not_mem hc, ?_, ?_, ?_⟩
    · intro y k' hk'
      have hy : y ≠ k.commitmentHash := Published.ne ⟨k', hk'⟩ hfresh
      exact (get?_byHash_register y).trans ((if_neg hy).trans hk')
    · intro y hy
      exact (get?_byHash_register y).trans (if_neg hy)
    · intro y
      rw [finish, Table.get?_erase]
      split
      next => rfl
      next hy => rw [get?_pending_register, if_neg fun hboth => hy hboth.2]
  exact ht.finalize hfinishes (fun _ _ hdue => hdue) fun _ _ _ hdue => hdue

theorem tryFinalize_register (ht : Tracks p fun _ _ => False) (hfresh : p.commitmentByHash.get? k.commitmentHash = none)
    {depth : Nat} (hdepth : (register k p).pending.entries.length < depth) :
    Ends (register k p) (fun _ _ => False) (fun _ => True)
      (tryFinalize (cascadeFinalize depth) k.commitmentHash (register k p)) := by
  have hc : k.commitmentHash ∉ (register k p).finalized := ht.notFinalized hfresh
  have hk := get?_byHash_self (p := p) (k := k)
  have hiff := allFinalized_iff hk
  rw [tryFinalize_of_published hc hk]
  split
  next hall =>
    have hready : ∀ d ∈ k.dependencies, d ∈ p.finalized := fun d hd => hiff.mp hall d (dependsOn_register_self.mpr hd)
    have hless := Table.length_erase_le (register k p).pending k.commitmentHash
    have hend := cascadeFinalize_sound depth (finish k.commitmentHash (register k p)) _ k.commitmentHash
      (Nat.lt_of_le_of_lt hless hdepth) (visits_waiting (ht.registerFinal hfresh hready) fun _ hdue => hdue)
    exact hend.extend ⟨rfl, rfl, ⟨_, ListSet.elems_add_of_not_mem hc⟩, hless⟩ (fun _ _ => Or.inr trivial) fun _ _ => trivial
  next hall =>
    have hblocked : ∃ d ∈ k.dependencies, d ∉ p.finalized := by
      by_contra hnone
      push Not at hnone
      exact hall (hiff.mpr fun d hd => hnone d (dependsOn_register_self.mp hd))
    exact ⟨ht.registerBlocked hfresh hblocked, Extends.refl _, fun _ hz => Or.inl hz⟩

end Publication

/-- The registry after the commitments of a list have been published. -/
structure Registry (published : List CommitmentArtifact) (p : CommitmentProtocol) : Prop where
  keys : ∀ key k, p.commitments.get? key = some k → ∃ k ∈ published, (k.shardId, k.needId) = key
  byHash : ∀ h k, p.commitmentByHash.get? h = some k ↔ k ∈ published ∧ k.commitmentHash = h
  tracks : Tracks p fun _ _ => False

/-- A commitment with a key and a hash of its own joins those published. -/
structure Fresh (published : List CommitmentArtifact) (k : CommitmentArtifact) : Prop where
  key : ∀ k' ∈ published, (k'.shardId, k'.needId) ≠ (k.shardId, k.needId)
  hash : ∀ k' ∈ published, k'.commitmentHash ≠ k.commitmentHash

section Registries

variable {published : List CommitmentArtifact} {p p' : CommitmentProtocol} {k : CommitmentArtifact}

theorem registry_init : Registry [] init := by
  refine ⟨?_, ?_, ?_, fun _ _ hdue => hdue.elim, ?_, ?_, ?_⟩
  · intro key k hget
    cases hget
  · intro h k
    constructor
    · intro hget
      cases hget
    · intro hboth
      exact absurd hboth.1 List.not_mem_nil
  · intro y hy
    exact absurd hy (ListSet.not_mem_empty y)
  · intro y
    constructor
    · intro hs
      obtain ⟨s, hs⟩ := hs
      cases hs
    · intro hy
      obtain ⟨⟨k, hk⟩, _⟩ := hy
      cases hk
  · intro y s hs
    cases hs
  · intro y s hs
    cases hs

theorem Registry.freshKey (hr : Registry published p) (hk : Fresh published k) :
    p.commitments.contains (k.shardId, k.needId) = false := by
  rw [Table.contains_eq_false_iff]
  cases hget : p.commitments.get? (k.shardId, k.needId) with
  | none => rfl
  | some k' =>
    obtain ⟨k', hk', hkey⟩ := hr.keys _ k' hget
    exact absurd hkey (hk.key k' hk')

theorem Registry.freshHash (hr : Registry published p) (hk : Fresh published k) :
    p.commitmentByHash.get? k.commitmentHash = none := by
  cases hget : p.commitmentByHash.get? k.commitmentHash with
  | none => rfl
  | some k' =>
    obtain ⟨hk', hhash⟩ := (hr.byHash _ k').mp hget
    exact absurd hhash (hk.hash k' hk')

theorem Registry.byHash_register (hr : Registry published p) (hk : Fresh published k) (h : String) (k' : CommitmentArtifact) :
    (register k p).commitmentByHash.get? h = some k' ↔ k' ∈ published ++ [k] ∧ k'.commitmentHash = h := by
  rw [get?_byHash_register, List.mem_append, List.mem_singleton]
  by_cases hh : h = k.commitmentHash
  · rw [if_pos hh]
    constructor
    · intro heq
      rw [← Option.some.inj heq]
      exact ⟨Or.inr rfl, hh.symm⟩
    · intro hboth
      obtain ⟨hmem | rfl, hhash⟩ := hboth
      · exact absurd (hhash.trans hh) (hk.hash k' hmem)
      · rfl
  · rw [if_neg hh, hr.byHash]
    constructor
    · intro hboth
      exact ⟨Or.inl hboth.1, hboth.2⟩
    · intro hboth
      obtain ⟨hmem | rfl, hhash⟩ := hboth
      · exact ⟨hmem, hhash⟩
      · exact absurd hhash.symm hh

theorem Registry.extends (hr : Registry published p) (hk : Fresh published k) (he : Extends (register k p) p')
    (ht : Tracks p' fun _ _ => False) : Registry (published ++ [k]) p' := by
  refine ⟨?_, ?_, ht⟩
  · intro key k' hget
    rw [he.commitments, register, Table.get?_upsert] at hget
    split at hget
    next hkey => exact ⟨k, List.mem_append_right _ List.mem_cons_self, hkey.symm⟩
    next =>
      obtain ⟨k', hk', hkey⟩ := hr.keys key k' hget
      exact ⟨k', List.mem_append_left _ hk', hkey⟩
  · intro h k'
    rw [he.byHash]
    exact hr.byHash_register hk h k'

/-- A publication goes through, or a tangled commitment stops its cascade. -/
theorem Registry.publish (hr : Registry published p) (hk : Fresh published k) :
    ((publishCommitment k p).1 = .ok true ∧ Registry (published ++ [k]) (publishCommitment k p).2) ∨
      ∃ c, (publishCommitment k p).1 = .error (.keyError c) ∧ (register k p).Tangled c := by
  have hend := tryFinalize_register hr.tracks (hr.freshHash hk) (Nat.lt_succ_self _)
  rw [publishCommitment, if_neg (Bool.eq_false_iff.mp (hr.freshKey hk))]
  dsimp only
  generalize tryFinalize _ _ _ = r at hend ⊢
  obtain ⟨r, p'⟩ := r
  cases r with
  | ok u =>
    obtain ⟨ht, he, _⟩ := hend
    exact Or.inl ⟨rfl, hr.extends hk he ht⟩
  | error e =>
    obtain ⟨c, rfl, htangled⟩ := hend
    exact Or.inr ⟨c, rfl, htangled⟩

end Registries

end CommitmentProtocol

end AgentNetwork.Sharding
