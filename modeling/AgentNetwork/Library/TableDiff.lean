import AgentNetwork.Library.Table
import Mathlib.Data.List.Perm.Subperm

/-! What changed between two tables, and how a change is applied and undone. -/

namespace Relational

structure TableDiff (κ ρ : Type) where
  added : List (κ × ρ)
  removed : List (κ × ρ)
  modified : List (κ × ρ × ρ)

namespace TableDiff

variable {κ ρ : Type} [DecidableEq κ]

/-- The keys are visited in some order; a row in both tables counts when `differ` says so. -/
def between (visit : List κ → List κ) (differ : ρ → ρ → Bool) (a b : Table κ ρ) : TableDiff κ ρ where
  added := (visit (b.keys.filter fun k => ¬a.contains k)).filterMap fun k => (b.get? k).map fun row => (k, row)
  removed := (visit (a.keys.filter fun k => ¬b.contains k)).filterMap fun k => (a.get? k).map fun row => (k, row)
  modified := (visit (a.keys.filter fun k => b.contains k)).filterMap fun k =>
    match a.get? k, b.get? k with
    | some old, some new => if differ old new then some (k, old, new) else none
    | _, _ => none

def keys (d : TableDiff κ ρ) : List κ := d.added.map Prod.fst ++ d.removed.map Prod.fst ++ d.modified.map Prod.fst

def apply (d : TableDiff κ ρ) (t : Table κ ρ) : Table κ ρ :=
  let kept := d.removed.foldl (fun t e => t.erase e.1) t
  let extended := d.added.foldl (fun t e => t.upsert e.1 e.2) kept
  d.modified.foldl (fun t e => t.upsert e.1 e.2.2) extended

def undo (d : TableDiff κ ρ) : TableDiff κ ρ := ⟨d.removed, d.added, d.modified.map fun e => (e.1, e.2.2, e.2.1)⟩

/-- The same changes, in any order. -/
structure Same (d d' : TableDiff κ ρ) : Prop where
  added : d.added.Perm d'.added
  removed : d.removed.Perm d'.removed
  modified : d.modified.Perm d'.modified

section Between

variable {visit : List κ → List κ} {differ : ρ → ρ → Bool} {a b : Table κ ρ} {k : κ} {old new row : ρ}

theorem mem_added (hvisit : ∀ l, (visit l).Perm l) :
    (k, row) ∈ (between visit differ a b).added ↔ a.get? k = none ∧ b.get? k = some row := by
  simp only [between, List.mem_filterMap, (hvisit _).mem_iff, List.mem_filter, decide_eq_true_eq, Bool.not_eq_true,
    Table.contains_eq_false_iff, Option.map_eq_some_iff]
  constructor
  · rintro ⟨k', ⟨-, hnone⟩, row', hget, heq⟩
    obtain ⟨rfl, rfl⟩ := Prod.mk.inj heq
    exact ⟨hnone, hget⟩
  · intro ⟨hnone, hget⟩
    exact ⟨k, ⟨Table.mem_keys_iff.mpr ⟨row, hget⟩, hnone⟩, row, hget, rfl⟩

theorem mem_removed (hvisit : ∀ l, (visit l).Perm l) :
    (k, row) ∈ (between visit differ a b).removed ↔ a.get? k = some row ∧ b.get? k = none := by
  change (k, row) ∈ (between visit differ b a).added ↔ _
  rw [mem_added hvisit, and_comm]

theorem mem_modified (hvisit : ∀ l, (visit l).Perm l) : (k, old, new) ∈ (between visit differ a b).modified ↔
    a.get? k = some old ∧ b.get? k = some new ∧ differ old new = true := by
  simp only [between, List.mem_filterMap, (hvisit _).mem_iff, List.mem_filter, Table.contains_eq_true_iff]
  constructor
  · rintro ⟨k', -, hpick⟩
    split at hpick
    next old' new' hold hnew =>
      split at hpick
      next hdiffer =>
        obtain ⟨rfl, hrest⟩ := Prod.mk.inj (Option.some.inj hpick)
        obtain ⟨rfl, rfl⟩ := Prod.mk.inj hrest
        exact ⟨hold, hnew, hdiffer⟩
      next => cases hpick
    next => cases hpick
  · intro ⟨hold, hnew, hdiffer⟩
    refine ⟨k, ⟨Table.mem_keys_iff.mpr ⟨old, hold⟩, new, hnew⟩, ?_⟩
    simp only [hold, hnew, hdiffer, if_true]

theorem key_added (hvisit : ∀ l, (visit l).Perm l) :
    k ∈ (between visit differ a b).added.map Prod.fst ↔ a.get? k = none ∧ ∃ row, b.get? k = some row := by
  rw [List.mem_map]
  constructor
  · rintro ⟨⟨k', row⟩, he, rfl⟩
    obtain ⟨hold, hnew⟩ := (mem_added hvisit).mp he
    exact ⟨hold, row, hnew⟩
  · intro ⟨hold, row, hnew⟩
    exact ⟨(k, row), (mem_added hvisit).mpr ⟨hold, hnew⟩, rfl⟩

theorem key_removed (hvisit : ∀ l, (visit l).Perm l) :
    k ∈ (between visit differ a b).removed.map Prod.fst ↔ b.get? k = none ∧ ∃ row, a.get? k = some row := by
  change k ∈ (between visit differ b a).added.map Prod.fst ↔ _
  exact key_added hvisit

theorem key_modified (hvisit : ∀ l, (visit l).Perm l) : k ∈ (between visit differ a b).modified.map Prod.fst ↔
    ∃ old new, a.get? k = some old ∧ b.get? k = some new ∧ differ old new = true := by
  rw [List.mem_map]
  constructor
  · rintro ⟨⟨k', old, new⟩, he, rfl⟩
    exact ⟨old, new, (mem_modified hvisit).mp he⟩
  · intro ⟨old, new, h⟩
    exact ⟨(k, old, new), (mem_modified hvisit).mpr h, rfl⟩

omit [DecidableEq κ] in
theorem nodup_picked {σ : Type} {l : List κ} {pick : κ → Option (κ × σ)} (hl : l.Nodup)
    (hpick : ∀ k e, pick k = some e → e.1 = k) : ((l.filterMap pick).map Prod.fst).Nodup := by
  induction l with
  | nil => exact List.nodup_nil
  | cons k rest ih =>
    obtain ⟨hfresh, hrest⟩ := List.nodup_cons.mp hl
    cases hk : pick k with
    | none =>
      rw [List.filterMap_cons_none hk]
      exact ih hrest
    | some e =>
      rw [List.filterMap_cons_some hk, List.map_cons, List.nodup_cons]
      refine ⟨fun hmem => hfresh ?_, ih hrest⟩
      obtain ⟨e', he', heq⟩ := List.mem_map.mp hmem
      obtain ⟨k', hk', hpicked⟩ := List.mem_filterMap.mp he'
      rw [← hpick k e hk, ← heq, hpick k' e' hpicked]
      exact hk'

theorem nodup_added (hvisit : ∀ l, (visit l).Perm l) : ((between visit differ a b).added.map Prod.fst).Nodup := by
  refine nodup_picked ((hvisit _).nodup_iff.mpr (b.keysNodup.filter _)) fun k e he => ?_
  obtain ⟨row, -, rfl⟩ := Option.map_eq_some_iff.mp he
  rfl

theorem nodup_removed (hvisit : ∀ l, (visit l).Perm l) : ((between visit differ a b).removed.map Prod.fst).Nodup := by
  change ((between visit differ b a).added.map Prod.fst).Nodup
  exact nodup_added hvisit

theorem nodup_modified (hvisit : ∀ l, (visit l).Perm l) : ((between visit differ a b).modified.map Prod.fst).Nodup := by
  refine nodup_picked ((hvisit _).nodup_iff.mpr (a.keysNodup.filter _)) fun k e he => ?_
  split at he
  next =>
    split at he
    next => rw [← Option.some.inj he]
    next => cases he
  next => cases he

/-- No key is named twice. -/
theorem nodup_keys (hvisit : ∀ l, (visit l).Perm l) : (between visit differ a b).keys.Nodup := by
  refine List.Nodup.append (List.Nodup.append (nodup_added hvisit) (nodup_removed hvisit) ?_) (nodup_modified hvisit) ?_
  · intro k hadded hremoved
    obtain ⟨hold, -⟩ := (key_added hvisit).mp hadded
    obtain ⟨-, row, hrow⟩ := (key_removed hvisit).mp hremoved
    rw [hold] at hrow
    cases hrow
  · intro k hearlier hmodified
    obtain ⟨old, new, hold, hnew, -⟩ := (key_modified hvisit).mp hmodified
    rcases List.mem_append.mp hearlier with hadded | hremoved
    · obtain ⟨hnone, -⟩ := (key_added hvisit).mp hadded
      rw [hold] at hnone
      cases hnone
    · obtain ⟨hnone, -⟩ := (key_removed hvisit).mp hremoved
      rw [hnew] at hnone
      cases hnone

/-- The changes back are the changes there, undone. -/
theorem between_swap (hvisit : ∀ l, (visit l).Perm l)
    (hdiffer : ∀ k old new, a.get? k = some old → b.get? k = some new → differ old new = differ new old) :
    (between visit differ b a).Same (between visit differ a b).undo := by
  refine ⟨List.Perm.refl _, List.Perm.refl _, ?_⟩
  have hleft : (between visit differ b a).modified.Nodup := List.Nodup.of_map _ (nodup_modified hvisit)
  have hright : (between visit differ a b).undo.modified.Nodup := by
    refine (List.Nodup.of_map _ (nodup_modified hvisit)).map fun e e' heq => ?_
    obtain ⟨hkey, hrest⟩ := Prod.mk.inj heq
    obtain ⟨hnew, hold⟩ := Prod.mk.inj hrest
    exact Prod.ext hkey (Prod.ext hold hnew)
  rw [List.perm_ext_iff_of_nodup hleft hright]
  rintro ⟨k, new, old⟩
  have hundone : (k, new, old) ∈ (between visit differ a b).undo.modified ↔ (k, old, new) ∈ (between visit differ a b).modified := by
    change (k, new, old) ∈ List.map _ _ ↔ _
    constructor
    · intro h
      obtain ⟨e, he, heq⟩ := List.mem_map.mp h
      cases heq
      exact he
    · exact fun h => List.mem_map.mpr ⟨_, h, rfl⟩
  rw [hundone, mem_modified hvisit, mem_modified hvisit]
  constructor
  · intro ⟨hnew, hold, hd⟩
    exact ⟨hold, hnew, (hdiffer k old new hold hnew).trans hd⟩
  · intro ⟨hold, hnew, hd⟩
    exact ⟨hnew, hold, (hdiffer k old new hold hnew).symm.trans hd⟩

end Between

section Apply

variable {visit : List κ → List κ} {differ : ρ → ρ → Bool} {a b t : Table κ ρ} {k : κ}

theorem get?_foldl_erase (l : List (κ × ρ)) :
    (l.foldl (fun t e => t.erase e.1) t).get? k = if k ∈ l.map Prod.fst then none else t.get? k := by
  induction l generalizing t with
  | nil => rfl
  | cons e rest ih =>
    rw [List.foldl_cons, ih, Table.get?_erase, List.map_cons]
    by_cases hrest : k ∈ rest.map Prod.fst
    · rw [if_pos hrest, if_pos (List.mem_cons_of_mem _ hrest)]
    · by_cases hk : k = e.1
      · rw [if_neg hrest, if_pos hk, if_pos (List.mem_cons.mpr (.inl hk))]
      · rw [if_neg hrest, if_neg hk, if_neg (by simp only [List.mem_cons, hk, hrest, or_self, not_false_eq_true])]

theorem get?_foldl_upsert_of_not_mem {σ : Type} {l : List (κ × σ)} (value : σ → ρ) (h : k ∉ l.map Prod.fst) :
    (l.foldl (fun t e => t.upsert e.1 (value e.2)) t).get? k = t.get? k := by
  induction l generalizing t with
  | nil => rfl
  | cons e rest ih =>
    rw [List.map_cons, List.mem_cons, not_or] at h
    rw [List.foldl_cons, ih h.2, Table.get?_upsert, if_neg h.1]

theorem get?_foldl_upsert_of_mem {σ : Type} {l : List (κ × σ)} (value : σ → ρ) {s : σ} (hn : (l.map Prod.fst).Nodup)
    (h : (k, s) ∈ l) : (l.foldl (fun t e => t.upsert e.1 (value e.2)) t).get? k = some (value s) := by
  induction l generalizing t with
  | nil => cases h
  | cons e rest ih =>
    obtain ⟨hfresh, hrest⟩ := List.nodup_cons.mp hn
    rw [List.foldl_cons]
    rcases List.mem_cons.mp h with rfl | h
    · rw [get?_foldl_upsert_of_not_mem value hfresh, Table.get?_upsert, if_pos rfl]
    · exact ih hrest h

/-- Applied to the first table, the changes give the second, but for the rows that
do not count as different. -/
theorem get?_apply_between (hvisit : ∀ l, (visit l).Perm l) : ((between visit differ a b).apply a).get? k =
    (b.get? k).map fun new => ((a.get? k).filter fun old => ¬differ old new).getD new := by
  let d := between visit differ a b
  let kept := d.removed.foldl (fun t e => t.erase e.1) a
  let extended := d.added.foldl (fun t e => t.upsert e.1 (id e.2)) kept
  change (d.modified.foldl (fun t e => t.upsert e.1 (e.2.2)) extended).get? k = _
  have hkept : kept.get? k = if k ∈ d.removed.map Prod.fst then none else a.get? k := get?_foldl_erase d.removed
  cases hb : b.get? k with
  | none =>
    have hmodified : k ∉ d.modified.map Prod.fst := by simp [d, key_modified hvisit, hb, -List.mem_map]
    have hadded : k ∉ d.added.map Prod.fst := by simp [d, key_added hvisit, hb, -List.mem_map]
    rw [get?_foldl_upsert_of_not_mem Prod.snd hmodified, get?_foldl_upsert_of_not_mem id hadded, hkept]
    cases ha : a.get? k with
    | none => exact ite_self none
    | some old => exact if_pos ((key_removed hvisit).mpr ⟨hb, old, ha⟩)
  | some new =>
    have hremoved : k ∉ d.removed.map Prod.fst := by simp [d, key_removed hvisit, hb, -List.mem_map]
    cases ha : a.get? k with
    | none =>
      have hmodified : k ∉ d.modified.map Prod.fst := by simp [d, key_modified hvisit, ha, -List.mem_map]
      have hadded : (k, new) ∈ d.added := (mem_added hvisit).mpr ⟨ha, hb⟩
      rw [get?_foldl_upsert_of_not_mem Prod.snd hmodified, get?_foldl_upsert_of_mem id (nodup_added hvisit) hadded]
      rfl
    | some old =>
      have hadded : k ∉ d.added.map Prod.fst := by simp [d, key_added hvisit, ha, -List.mem_map]
      cases hd : differ old new with
      | true =>
        have hmodified : (k, old, new) ∈ d.modified := (mem_modified hvisit).mpr ⟨ha, hb, hd⟩
        rw [get?_foldl_upsert_of_mem Prod.snd (nodup_modified hvisit) hmodified]
        simp [Option.filter, hd]
      | false =>
        have hmodified : k ∉ d.modified.map Prod.fst := by simp [d, key_modified hvisit, ha, hb, hd, -List.mem_map]
        rw [get?_foldl_upsert_of_not_mem Prod.snd hmodified, get?_foldl_upsert_of_not_mem id hadded, hkept,
          if_neg hremoved, ha]
        simp [Option.filter, hd]

end Apply

end TableDiff

end Relational
