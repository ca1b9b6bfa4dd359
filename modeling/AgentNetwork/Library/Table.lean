import Mathlib.Algebra.BigOperators.Group.List.Basic
import Mathlib.Algebra.Order.BigOperators.Group.List
import Mathlib.Data.List.Induction
import Mathlib.Data.List.Nodup

namespace Relational

/-- Rows under pairwise distinct keys, in insertion order: a table with a
primary key, or a dictionary. -/
structure Table (κ ρ : Type) where
  entries : List (κ × ρ)
  keysNodup : (entries.map Prod.fst).Nodup
  deriving DecidableEq

namespace Table

variable {κ ρ : Type}

def empty : Table κ ρ := ⟨[], List.nodup_nil⟩

def keys (t : Table κ ρ) : List κ := t.entries.map Prod.fst

variable [DecidableEq κ]

def get? (t : Table κ ρ) (k : κ) : Option ρ := t.entries.lookup k

def contains (t : Table κ ρ) (k : κ) : Bool := (t.get? k).isSome

theorem get?_eq_none_iff {t : Table κ ρ} {k : κ} : t.get? k = none ↔ k ∉ t.keys := by
  simp only [get?, keys, List.lookup_eq_none_iff, List.mem_map, not_exists, not_and]
  constructor
  · intro h entry hm he
    have := h entry hm
    simp [he] at this
  · intro h entry hm
    simpa using fun he => h entry hm he.symm

theorem contains_eq_false_iff {t : Table κ ρ} {k : κ} : t.contains k = false ↔ t.get? k = none := by
  simp [contains]

theorem contains_eq_true_iff {t : Table κ ρ} {k : κ} : t.contains k = true ↔ ∃ r, t.get? k = some r := by
  simp [contains, Option.isSome_iff_exists]

theorem lookup_eq_some_iff_mem {entries : List (κ × ρ)} (hn : (entries.map Prod.fst).Nodup) {k : κ} {r : ρ} :
    entries.lookup k = some r ↔ (k, r) ∈ entries := by
  induction entries with
  | nil => simp
  | cons entry rest ih =>
    obtain ⟨j, v⟩ := entry
    simp only [List.map_cons, List.nodup_cons] at hn
    by_cases hj : k = j
    · subst j
      simp only [List.lookup_cons_self, Option.some.injEq, List.mem_cons, Prod.mk.injEq, true_and]
      constructor
      · exact fun h => Or.inl h.symm
      · rintro (h | h)
        · exact h.symm
        · exact absurd (List.mem_map.mpr ⟨(k, r), h, rfl⟩) hn.1
    · have hb : (k == j) = false := by simpa using hj
      simp only [List.lookup_cons, hb, List.mem_cons, Prod.mk.injEq, hj, false_and, false_or]
      exact ih hn.2

theorem get?_eq_some_iff {t : Table κ ρ} {k : κ} {r : ρ} :
    t.get? k = some r ↔ (k, r) ∈ t.entries :=
  lookup_eq_some_iff_mem t.keysNodup

/-- Appends a row under a key the table does not hold yet. -/
def insert (t : Table κ ρ) (k : κ) (r : ρ) (fresh : t.get? k = none) : Table κ ρ :=
  ⟨t.entries ++ [(k, r)], by
    have h := get?_eq_none_iff.mp fresh
    rw [List.map_append, List.nodup_append]
    refine ⟨t.keysNodup, by simp, ?_⟩
    intro a ha b hb he
    have hk : b = k := by simpa using hb
    exact h (hk ▸ he ▸ ha)⟩

/-- `INSERT`: refused when the primary key is taken. -/
def insert? (t : Table κ ρ) (k : κ) (r : ρ) : Option (Table κ ρ) :=
  if h : t.get? k = none then some (t.insert k r h) else none

/-- Overwrites the row under a key, in place; a key the table lacks changes nothing. -/
def set (t : Table κ ρ) (k : κ) (r : ρ) : Table κ ρ :=
  ⟨t.entries.map fun e => if e.1 = k then (k, r) else e, by
    have h : (t.entries.map fun e => if e.1 = k then (k, r) else e).map Prod.fst = t.entries.map Prod.fst := by
      rw [List.map_map]
      apply List.map_congr_left
      intro e _
      by_cases he : e.1 = k <;> simp [he]
    rw [h]
    exact t.keysNodup⟩

/-- Dictionary assignment: overwrites in place or appends. -/
def upsert (t : Table κ ρ) (k : κ) (r : ρ) : Table κ ρ :=
  if h : t.get? k = none then t.insert k r h else t.set k r

/-- `UPDATE ... WHERE key = k`; no row under the key, no change. -/
def modify (t : Table κ ρ) (k : κ) (f : ρ → ρ) : Table κ ρ :=
  match t.get? k with
  | none => t
  | some r => t.set k (f r)

/-- `UPDATE` of every row, with the `WHERE` left to the update. -/
def mapRows (t : Table κ ρ) (f : κ → ρ → ρ) : Table κ ρ :=
  ⟨t.entries.map fun e => (e.1, f e.1 e.2), by
    rw [List.map_map]
    exact t.keysNodup⟩

/-- Takes the row under a key out; the others keep their places. -/
def erase (t : Table κ ρ) (k : κ) : Table κ ρ :=
  ⟨t.entries.filter fun e => e.1 ≠ k, t.keysNodup.sublist (List.filter_sublist.map Prod.fst)⟩

/-- `DELETE` of the rows that a condition is false of. -/
def keep (t : Table κ ρ) (p : κ → ρ → Bool) : Table κ ρ :=
  ⟨t.entries.filter fun e => p e.1 e.2, t.keysNodup.sublist (List.filter_sublist.map Prod.fst)⟩

@[simp] theorem get?_empty (k : κ) : (empty : Table κ ρ).get? k = none := rfl

@[simp] theorem get?_insert {t : Table κ ρ} {k : κ} {r : ρ} (fresh : t.get? k = none) (j : κ) :
    (t.insert k r fresh).get? j = if j = k then some r else t.get? j := by
  simp only [insert, get?, List.lookup_append, List.lookup_cons, List.lookup_nil]
  by_cases hj : j = k
  · subst j
    have h : t.entries.lookup k = none := fresh
    simp [h]
  · have hb : (j == k) = false := by simpa using hj
    simp [hj, hb]

theorem insert?_eq_some_iff {t u : Table κ ρ} {k : κ} {r : ρ} :
    t.insert? k r = some u ↔ ∃ fresh : t.get? k = none, t.insert k r fresh = u := by
  unfold insert?
  split
  next h => simp [h]
  next h => simp [h]

theorem lookup_map_set (entries : List (κ × ρ)) (k j : κ) (r : ρ) :
    (entries.map fun e => if e.1 = k then (k, r) else e).lookup j =
      if j = k then (entries.lookup k).map (fun _ => r) else entries.lookup j := by
  induction entries with
  | nil => simp
  | cons e rest ih =>
    obtain ⟨i, v⟩ := e
    by_cases hi : i = k
    · subst i
      by_cases hj : j = k
      · simp [hj]
      · have hb : (j == k) = false := by simpa using hj
        simpa [List.lookup_cons, hb, hj] using ih
    · have hki : (k == i) = false := by simpa using Ne.symm hi
      by_cases hji : j = i
      · subst j
        simp [hi]
      · have hb : (j == i) = false := by simpa using hji
        simpa [List.lookup_cons, hi, hb, hki] using ih

@[simp] theorem get?_set (t : Table κ ρ) (k j : κ) (r : ρ) :
    (t.set k r).get? j = if j = k then (t.get? k).map (fun _ => r) else t.get? j :=
  lookup_map_set t.entries k j r

@[simp] theorem get?_upsert (t : Table κ ρ) (k j : κ) (r : ρ) :
    (t.upsert k r).get? j = if j = k then some r else t.get? j := by
  unfold upsert
  split
  next h => exact get?_insert h j
  next h =>
    obtain ⟨old, hold⟩ := Option.ne_none_iff_exists'.mp h
    simp [hold]

@[simp] theorem get?_erase (t : Table κ ρ) (k j : κ) : (t.erase k).get? j = if j = k then none else t.get? j := by
  split
  next hj =>
    rw [get?_eq_none_iff]
    intro hm
    obtain ⟨e, he, hkey⟩ := List.mem_map.mp hm
    have hne := (List.mem_filter.mp he).2
    simp [hkey, hj] at hne
  next hj =>
    cases hget : t.get? j with
    | none =>
      rw [get?_eq_none_iff] at hget ⊢
      intro hm
      obtain ⟨e, he, hkey⟩ := List.mem_map.mp hm
      exact hget (List.mem_map.mpr ⟨e, (List.mem_filter.mp he).1, hkey⟩)
    | some r =>
      rw [get?_eq_some_iff] at hget ⊢
      exact List.mem_filter.mpr ⟨hget, by simpa using hj⟩

@[simp] theorem get?_keep (t : Table κ ρ) (p : κ → ρ → Bool) (k : κ) : (t.keep p).get? k = (t.get? k).filter (p k) := by
  rw [Option.ext_iff]
  intro r
  rw [get?_eq_some_iff, Option.filter_eq_some_iff, get?_eq_some_iff, keep, List.mem_filter]

theorem lookup_map_rows (entries : List (κ × ρ)) (f : κ → ρ → ρ) (k : κ) :
    (entries.map fun e => (e.1, f e.1 e.2)).lookup k = (entries.lookup k).map (f k) := by
  induction entries with
  | nil => rfl
  | cons e rest ih =>
    obtain ⟨j, r⟩ := e
    by_cases hk : k = j
    · subst hk
      simp
    · have hb : (k == j) = false := by simpa using hk
      simpa [List.lookup_cons, hb] using ih

@[simp] theorem get?_mapRows (t : Table κ ρ) (f : κ → ρ → ρ) (k : κ) : (t.mapRows f).get? k = (t.get? k).map (f k) :=
  lookup_map_rows t.entries f k

@[simp] theorem length_set (t : Table κ ρ) (k : κ) (r : ρ) : (t.set k r).entries.length = t.entries.length := List.length_map _

theorem length_erase_le (t : Table κ ρ) (k : κ) : (t.erase k).entries.length ≤ t.entries.length := List.length_filter_le _ _

theorem length_erase_lt {t : Table κ ρ} {k : κ} {r : ρ} (h : t.get? k = some r) :
    (t.erase k).entries.length < t.entries.length := by
  refine List.length_filter_lt_length_iff_exists.mpr ⟨(k, r), get?_eq_some_iff.mp h, ?_⟩
  simp

theorem modify_of_get? {t : Table κ ρ} {k : κ} {r : ρ} (h : t.get? k = some r) (f : ρ → ρ) :
    t.modify k f = t.set k (f r) := by
  simp [modify, h]

@[simp] theorem get?_modify (t : Table κ ρ) (k j : κ) (f : ρ → ρ) :
    (t.modify k f).get? j = if j = k then (t.get? k).map f else t.get? j := by
  cases h : t.get? k with
  | none =>
    by_cases hj : j = k
    · subst j
      simp [modify, h]
    · simp [modify, h, hj]
  | some r => simp [modify_of_get? h, h]

theorem keys_set (t : Table κ ρ) (k : κ) (r : ρ) : (t.set k r).keys = t.keys := by
  rw [keys, set, List.map_map, keys]
  apply List.map_congr_left
  intro e _
  by_cases he : e.1 = k <;> simp [he]

theorem keys_upsert (t : Table κ ρ) (k : κ) (r : ρ) :
    (t.upsert k r).keys = if k ∈ t.keys then t.keys else t.keys ++ [k] := by
  unfold upsert
  split
  next h =>
    rw [if_neg (get?_eq_none_iff.mp h)]
    simp [insert, keys]
  next h =>
    have hk : k ∈ t.keys := not_not.mp fun hk => h (get?_eq_none_iff.mpr hk)
    rw [if_pos hk, keys_set]

/-- The rows in order, seen through a function, are the keys in order and what is
seen under each of them. -/
theorem map_entries_eq_iff {σ : Type} {t u : Table κ ρ} {f : ρ → σ} :
    t.entries.map (fun e => (e.1, f e.2)) = u.entries.map (fun e => (e.1, f e.2)) ↔
      t.keys = u.keys ∧ ∀ k ∈ t.keys, (t.get? k).map f = (u.get? k).map f := by
  have hkeys (t : Table κ ρ) : (t.entries.map fun e => (e.1, f e.2)).map Prod.fst = t.keys := by
    rw [List.map_map]
    rfl
  have hget (t : Table κ ρ) (k : κ) : (t.entries.map fun e => (e.1, f e.2)).lookup k = (t.get? k).map f := by
    unfold get?
    induction t.entries with
    | nil => rfl
    | cons e rest ih =>
      obtain ⟨j, v⟩ := e
      simp only [List.map_cons, List.lookup_cons]
      cases k == j <;> simp [ih]
  have hrows (t : Table κ ρ) : t.entries.map (fun e => (e.1, f e.2)) =
      t.keys.filterMap fun k => ((t.get? k).map f).map fun s => (k, s) := by
    have hmem : ∀ e ∈ t.entries, t.get? e.1 = some e.2 := fun e he => get?_eq_some_iff.mpr he
    rw [keys, List.filterMap_map, ← List.filterMap_eq_map]
    apply List.filterMap_congr
    intro e he
    simp [hmem e he]
  constructor
  · intro h
    refine ⟨by rw [← hkeys t, ← hkeys u, h], fun k _ => ?_⟩
    rw [← hget t, ← hget u, h]
  · rintro ⟨hk, hv⟩
    rw [hrows t, hrows u, ← hk]
    exact List.filterMap_congr fun k hm => by rw [hv k hm]

theorem mem_keys_iff {t : Table κ ρ} {k : κ} : k ∈ t.keys ↔ ∃ r, t.get? k = some r := by
  rw [← Option.ne_none_iff_exists', ne_eq, get?_eq_none_iff, not_not]

theorem mem_keys_upsert {t : Table κ ρ} {k j : κ} {r : ρ} : j ∈ (t.upsert k r).keys ↔ j = k ∨ j ∈ t.keys := by
  rw [mem_keys_iff, mem_keys_iff, get?_upsert]
  by_cases hj : j = k <;> simp [hj]

theorem mem_keys_erase {t : Table κ ρ} {k j : κ} : j ∈ (t.erase k).keys ↔ j ∈ t.keys ∧ j ≠ k := by
  rw [mem_keys_iff, mem_keys_iff, get?_erase]
  by_cases hj : j = k <;> simp [hj]

theorem upsert_of_fresh {t : Table κ ρ} {k : κ} (fresh : t.get? k = none) (r : ρ) : t.upsert k r = t.insert k r fresh :=
  dif_pos fresh

/-- New rows with distinct keys are put at the end in their order. -/
theorem entries_foldl_upsert (l : List (κ × ρ)) {t : Table κ ρ} (hn : (t.keys ++ l.map Prod.fst).Nodup) :
    (l.foldl (fun t e => t.upsert e.1 e.2) t).entries = t.entries ++ l := by
  induction l generalizing t with
  | nil => exact (List.append_nil _).symm
  | cons e rest ih =>
    have hfresh : e.1 ∉ t.keys := by
      intro hm
      exact (List.nodup_append.mp hn).2.2 _ hm _ List.mem_cons_self rfl
    have hkeys : (t.upsert e.1 e.2).keys = t.keys ++ [e.1] := by rw [keys_upsert, if_neg hfresh]
    have hentries : (t.upsert e.1 e.2).entries = t.entries ++ [e] := by
      rw [upsert_of_fresh (get?_eq_none_iff.mpr hfresh)]
      rfl
    rw [List.foldl_cons, ih, hentries, List.append_assoc]
    · rfl
    · rw [hkeys, List.append_assoc]
      exact hn

/-- The rows put one by one into an empty table make the table again. -/
theorem foldl_upsert_entries (t : Table κ ρ) : t.entries.foldl (fun u e => u.upsert e.1 e.2) .empty = t := by
  have h := entries_foldl_upsert t.entries (t := .empty) t.keysNodup
  obtain ⟨entries, hn⟩ := t
  generalize List.foldl (fun u e => Table.upsert u e.1 e.2) Table.empty entries = u at h ⊢
  obtain ⟨entries', hn'⟩ := u
  obtain rfl : entries' = entries := h
  rfl

/-- The rows are what is found under some key. -/
theorem mem_rows {t : Table κ ρ} {r : ρ} : r ∈ t.entries.map Prod.snd ↔ ∃ k, t.get? k = some r := by
  rw [List.mem_map]
  constructor
  · rintro ⟨e, he, rfl⟩
    exact ⟨e.1, get?_eq_some_iff.mpr he⟩
  · rintro ⟨k, hk⟩
    exact ⟨(k, r), get?_eq_some_iff.mp hk, rfl⟩

/-- Rows that tell their keys are pairwise distinct. -/
theorem nodup_rows {t : Table κ ρ} {idOf : ρ → κ} (hid : ∀ k r, t.get? k = some r → idOf r = k) : (t.entries.map Prod.snd).Nodup := by
  refine List.Nodup.of_map idOf ?_
  have hkeys : (t.entries.map Prod.snd).map idOf = t.keys := by
    rw [List.map_map]
    exact List.map_congr_left fun e he => hid e.1 e.2 (get?_eq_some_iff.mpr he)
  rw [hkeys]
  exact t.keysNodup

/-- The rows under keys, in the order of the keys; `none` where a key is missing. -/
def getAll? (t : Table κ ρ) (ks : List κ) : Option (List ρ) := ks.mapM t.get?

theorem getAll?_eq_some_iff {t : Table κ ρ} {ks : List κ} {rows : List ρ} :
    t.getAll? ks = some rows ↔ (∀ k ∈ ks, t.contains k = true) ∧ rows = ks.filterMap t.get? := by
  unfold getAll?
  induction ks generalizing rows with
  | nil =>
    have hnone : (∀ k ∈ ([] : List κ), t.contains k = true) := List.forall_mem_nil _
    rw [List.mapM_nil, and_iff_right hnone, List.filterMap_nil]
    exact ⟨fun h => (Option.some.inj h).symm, fun h => congrArg some h.symm⟩
  | cons k rest ih =>
    rw [List.mapM_cons, List.forall_mem_cons]
    cases hk : t.get? k with
    | none => simp [contains, hk]
    | some r =>
      have hcontains : t.contains k = true := contains_eq_true_iff.mpr ⟨r, hk⟩
      rw [List.filterMap_cons_some hk, and_iff_right hcontains]
      constructor
      · intro h
        obtain ⟨_, hr, h⟩ := Option.bind_eq_some_iff.mp h
        obtain ⟨others, hothers, hrows⟩ := Option.bind_eq_some_iff.mp h
        obtain ⟨hall, hfound⟩ := ih.mp hothers
        cases hr
        rw [← Option.some.inj hrows, hfound]
        exact ⟨hall, rfl⟩
      · rintro ⟨hall, hrows⟩
        refine Option.bind_eq_some_iff.mpr ⟨r, rfl, ?_⟩
        exact Option.bind_eq_some_iff.mpr ⟨_, ih.mpr ⟨hall, rfl⟩, congrArg some hrows.symm⟩

/-- How often each key occurs, counted one after the other. -/
def tally (ks : List κ) : Table κ Nat := ks.foldl (fun t k => t.upsert k ((t.get? k).getD 0 + 1)) .empty

theorem get?_tally (ks : List κ) (k : κ) : (tally ks).get? k = if k ∈ ks then some (ks.count k) else none := by
  unfold tally
  induction ks using List.reverseRecOn with
  | nil => rfl
  | append_singleton ks j ih =>
    rw [List.foldl_append, List.foldl_cons, List.foldl_nil, get?_upsert, List.count_append]
    by_cases hk : k = j
    · subst hk
      have hlast : k ∈ ks ++ [k] := List.mem_append_right _ (List.mem_singleton_self k)
      rw [if_pos rfl, if_pos hlast, ih, List.count_singleton_self]
      split
      next => rfl
      next hnone => rw [List.count_eq_zero_of_not_mem hnone, Option.getD_none]
    · have hmem : k ∈ ks ++ [j] ↔ k ∈ ks := by simp [hk]
      have hcount : List.count k [j] = 0 := List.count_eq_zero_of_not_mem fun h => hk (List.mem_singleton.mp h)
      simp only [if_neg hk, ih, hmem, hcount, add_zero]

/-- The order does not matter. -/
theorem get?_tally_perm {ks ks' : List κ} (h : ks.Perm ks') (k : κ) : (tally ks).get? k = (tally ks').get? k := by
  simp only [get?_tally, h.mem_iff, h.count_eq]

/-- An insertion never takes a key away. -/
theorem contains_insert {t : Table κ ρ} {k : κ} {r : ρ} (fresh : t.get? k = none) (j : κ) :
    (t.insert k r fresh).contains j = (decide (j = k) || t.contains j) := by
  by_cases hj : j = k <;> simp [contains, hj]

@[simp] theorem contains_set (t : Table κ ρ) (k j : κ) (r : ρ) :
    (t.set k r).contains j = t.contains j := by
  by_cases hj : j = k <;> simp [contains, hj]

section Totals

variable {M : Type} [AddCommMonoid M]

/-- The sum of a quantity over all rows. -/
def total (t : Table κ ρ) (f : κ → ρ → M) : M := (t.entries.map fun e => f e.1 e.2).sum

omit [DecidableEq κ] in
@[simp] theorem total_zero (t : Table κ ρ) : (t.total fun _ _ => (0 : M)) = 0 := by
  simp [total]

@[simp] theorem total_insert {t : Table κ ρ} {k : κ} {r : ρ} (fresh : t.get? k = none) (f : κ → ρ → M) :
    (t.insert k r fresh).total f = t.total f + f k r := by
  simp [total, insert]

theorem sum_map_set {entries : List (κ × ρ)} (hn : (entries.map Prod.fst).Nodup) {k : κ} {r : ρ}
    (hm : (k, r) ∈ entries) (r' : ρ) (f : κ → ρ → M) :
    (entries.map fun e => if e.1 = k then f k r' else f e.1 e.2).sum + f k r =
      (entries.map fun e => f e.1 e.2).sum + f k r' := by
  induction entries with
  | nil => simp at hm
  | cons e rest ih =>
    simp only [List.map_cons, List.nodup_cons] at hn
    rcases List.mem_cons.mp hm with he | he
    · subst e
      have hother : (rest.map fun e => if e.1 = k then f k r' else f e.1 e.2) =
          rest.map fun e => f e.1 e.2 := by
        apply List.map_congr_left
        intro e hr
        have hne : e.1 ≠ k := fun hk => hn.1 (List.mem_map.mpr ⟨e, hr, hk⟩)
        simp [hne]
      simp only [List.map_cons, List.sum_cons, if_true, hother]
      exact (add_assoc _ _ _).trans ((add_comm _ _).trans (by rw [add_comm _ (f k r)]))
    · have hne : e.1 ≠ k := fun hk => hn.1 (List.mem_map.mpr ⟨(k, r), he, hk.symm⟩)
      simp only [List.map_cons, List.sum_cons, hne, if_false]
      rw [add_assoc, ih hn.2 he, add_assoc]

theorem total_set {t : Table κ ρ} {k : κ} {r : ρ} (h : t.get? k = some r) (r' : ρ) (f : κ → ρ → M) :
    (t.set k r').total f + f k r = t.total f + f k r' := by
  have hmap : (t.set k r').total f = (t.entries.map fun e => if e.1 = k then f k r' else f e.1 e.2).sum := by
    simp only [total, set, List.map_map]
    congr 1
    apply List.map_congr_left
    intro e _
    by_cases he : e.1 = k <;> simp [he]
  rw [hmap]
  exact sum_map_set t.keysNodup (get?_eq_some_iff.mp h) r' f

omit [DecidableEq κ] in
theorem total_add (t : Table κ ρ) (f g : κ → ρ → M) : (t.total fun k r => f k r + g k r) = t.total f + t.total g :=
  List.sum_map_add

theorem total_upsert (t : Table κ ρ) (k : κ) (r : ρ) (f : κ → ρ → M) :
    (t.upsert k r).total f + ((t.get? k).map (f k)).getD 0 = t.total f + f k r := by
  cases h : t.get? k with
  | none => simp [upsert_of_fresh h]
  | some old =>
    have hset : t.upsert k r = t.set k r := dif_neg (by simp [h])
    rw [hset]
    exact total_set h r f

theorem sum_filter_key {entries : List (κ × ρ)} (hn : (entries.map Prod.fst).Nodup) {k : κ} {r : ρ}
    (hm : (k, r) ∈ entries) (f : κ → ρ → M) :
    ((entries.filter fun e => e.1 ≠ k).map fun e => f e.1 e.2).sum + f k r = (entries.map fun e => f e.1 e.2).sum := by
  induction entries with
  | nil => simp at hm
  | cons e rest ih =>
    simp only [List.map_cons, List.nodup_cons] at hn
    rcases List.mem_cons.mp hm with he | he
    · subst e
      have hother : (rest.filter fun e => e.1 ≠ k) = rest := by
        apply List.filter_eq_self.mpr
        intro e hr
        have hne : e.1 ≠ k := fun hk => hn.1 (List.mem_map.mpr ⟨e, hr, hk⟩)
        simpa using hne
      simp only [List.filter_cons, ne_eq, not_true_eq_false, decide_false, Bool.false_eq_true, if_false,
        List.map_cons, List.sum_cons]
      rw [hother, add_comm]
    · have hne : e.1 ≠ k := fun hk => hn.1 (List.mem_map.mpr ⟨(k, r), he, hk.symm⟩)
      simp only [List.filter_cons, ne_eq, hne, not_false_eq_true, decide_true, if_true, List.map_cons, List.sum_cons]
      rw [add_assoc]
      exact congrArg _ (ih hn.2 he)

theorem total_erase {t : Table κ ρ} {k : κ} {r : ρ} (h : t.get? k = some r) (f : κ → ρ → M) :
    (t.erase k).total f + f k r = t.total f :=
  sum_filter_key t.keysNodup (get?_eq_some_iff.mp h) f

theorem sum_map_ite_key {entries : List (κ × ρ)} (hn : (entries.map Prod.fst).Nodup) (j : κ) (f : ρ → M) :
    (entries.map fun e => if e.1 = j then f e.2 else 0).sum = ((entries.lookup j).map f).getD 0 := by
  induction entries with
  | nil => rfl
  | cons e rest ih =>
    obtain ⟨k, r⟩ := e
    simp only [List.map_cons, List.nodup_cons] at hn
    by_cases hk : k = j
    · subst k
      have hnone : rest.lookup j = none := by
        simp only [List.lookup_eq_none_iff]
        intro e he
        have hne : e.1 ≠ j := fun hj => hn.1 (List.mem_map.mpr ⟨e, he, hj⟩)
        simpa using hne.symm
      have hrest := ih hn.2
      simp only [hnone, Option.map_none, Option.getD_none] at hrest
      simp [hrest]
    · have hb : (j == k) = false := by simpa using Ne.symm hk
      simp [hk, hb, List.lookup_cons, ih hn.2]

/-- A quantity supported on one key is that of the row under it. -/
theorem total_ite_key (t : Table κ ρ) (j : κ) (f : ρ → M) :
    (t.total fun k r => if k = j then f r else 0) = ((t.get? j).map f).getD 0 :=
  sum_map_ite_key t.keysNodup j f

omit [DecidableEq κ] in
theorem map_total {N : Type} [AddCommMonoid N] (φ : M →+ N) (t : Table κ ρ) (f : κ → ρ → M) :
    φ (t.total f) = t.total fun k r => φ (f k r) := by
  simp [total, map_list_sum, List.map_map, Function.comp_def]

/-- No row of a quantity without negative rows exceeds their sum. -/
theorem le_total [PartialOrder M] [IsOrderedAddMonoid M] {t : Table κ ρ} {f : κ → ρ → M}
    (hf : ∀ k r, t.get? k = some r → 0 ≤ f k r) {k : κ} {r : ρ} (h : t.get? k = some r) : f k r ≤ t.total f := by
  refine List.single_le_sum ?_ _ (List.mem_map.mpr ⟨(k, r), get?_eq_some_iff.mp h, rfl⟩)
  intro m hm
  obtain ⟨e, he, rfl⟩ := List.mem_map.mp hm
  exact hf e.1 e.2 (get?_eq_some_iff.mpr he)

theorem total_nonneg [PartialOrder M] [IsOrderedAddMonoid M] {t : Table κ ρ} {f : κ → ρ → M}
    (hf : ∀ k r, t.get? k = some r → 0 ≤ f k r) : 0 ≤ t.total f := by
  apply List.sum_nonneg
  intro m hm
  obtain ⟨e, he, rfl⟩ := List.mem_map.mp hm
  exact hf e.1 e.2 (get?_eq_some_iff.mpr he)

end Totals

end Table

end Relational
