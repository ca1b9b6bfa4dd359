import AgentNetwork.Library.ListSet
import AgentNetwork.Library.Table

/-! Inverted indexes: under each value the items that carry it. A value that no item
carries has no entry. -/

namespace Relational

structure InvertedIndex (κ ι : Type) where
  postings : Table κ (ListSet ι)
  carried : ∀ e ∈ postings.entries, e.2.elems ≠ []

namespace InvertedIndex

variable {κ ι : Type}

def empty : InvertedIndex κ ι := ⟨.empty, List.forall_mem_nil _⟩

def keys (index : InvertedIndex κ ι) : List κ := index.postings.keys

variable [DecidableEq κ] [DecidableEq ι]

/-- The items under a value. -/
def find (index : InvertedIndex κ ι) (k : κ) : ListSet ι := (index.postings.get? k).getD .empty

/-- Puts an item under a value, once. -/
def add (index : InvertedIndex κ ι) (k : κ) (i : ι) : InvertedIndex κ ι :=
  ⟨index.postings.upsert k ((index.find k).add i), by
    intro e he
    rw [← Table.get?_eq_some_iff, Table.get?_upsert] at he
    split at he
    next =>
      have hmem : i ∈ (index.find k).add i := ListSet.mem_add.mpr (.inl rfl)
      rw [← Option.some.inj he]
      exact List.ne_nil_of_mem hmem
    next => exact index.carried e (Table.get?_eq_some_iff.mp he)⟩

def addAll (index : InvertedIndex κ ι) (ks : List κ) (i : ι) : InvertedIndex κ ι :=
  ks.foldl (fun index k => index.add k i) index

/-- The other items under a value. -/
def others (index : InvertedIndex κ ι) (k : κ) (i : ι) : ListSet ι := (index.find k).filter (· ≠ i)

/-- Takes an item from under a value; the entry goes with its last item. -/
def discard (index : InvertedIndex κ ι) (k : κ) (i : ι) : InvertedIndex κ ι :=
  if h : (index.others k i).elems = [] then
    ⟨index.postings.erase k, fun e he => index.carried e (List.mem_of_mem_filter he)⟩
  else
    ⟨index.postings.set k (index.others k i), by
      intro e he
      rw [← Table.get?_eq_some_iff, Table.get?_set] at he
      split at he
      next =>
        obtain ⟨_, _, hrest⟩ := Option.map_eq_some_iff.mp he
        rwa [← hrest]
      next => exact index.carried e (Table.get?_eq_some_iff.mp he)⟩

def discardAll (index : InvertedIndex κ ι) (ks : List κ) (i : ι) : InvertedIndex κ ι :=
  ks.foldl (fun index k => index.discard k i) index

variable {index : InvertedIndex κ ι} {k k' : κ} {i j : ι}

omit [DecidableEq ι] in
@[simp] theorem not_mem_find_empty : j ∉ (empty : InvertedIndex κ ι).find k := ListSet.not_mem_empty j

omit [DecidableEq ι] in
/-- The entries are the values that some item carries. -/
theorem mem_keys : k ∈ index.keys ↔ ∃ i, i ∈ index.find k := by
  unfold keys find
  cases hget : index.postings.get? k with
  | none =>
    have hnot := Table.get?_eq_none_iff.mp hget
    simp [hnot]
  | some items =>
    have hmem := Table.get?_eq_some_iff.mp hget
    refine iff_of_true (List.mem_map_of_mem hmem) ?_
    exact List.exists_mem_of_ne_nil _ (index.carried _ hmem)

omit [DecidableEq κ] [DecidableEq ι] in
theorem nodup_keys (index : InvertedIndex κ ι) : index.keys.Nodup := index.postings.keysNodup

@[simp] theorem mem_find_add : j ∈ (index.add k i).find k' ↔ (k' = k ∧ j = i) ∨ j ∈ index.find k' := by
  rw [find, add, Table.get?_upsert]
  by_cases hk : k' = k
  · subst hk
    simp
  · simp [hk, find]

@[simp] theorem mem_find_discard : j ∈ (index.discard k i).find k' ↔ j ∈ index.find k' ∧ ¬(k' = k ∧ j = i) := by
  unfold discard
  by_cases hk : k' = k
  · subst hk
    split
    next hrest =>
      have hgone : ∀ j ∈ index.find k', j = i := by
        intro j hj
        by_contra hne
        have hmem : j ∈ index.others k' i := ListSet.mem_filter.mpr ⟨hj, by simpa using hne⟩
        exact List.ne_nil_of_mem hmem hrest
      simp only [find, Table.get?_erase, if_true, Option.getD_none, ListSet.not_mem_empty, true_and, false_iff, not_and_not_right]
      exact hgone j
    next hrest =>
      have hentry : ∃ items, index.postings.get? k' = some items := by
        rw [← Option.ne_none_iff_exists']
        intro hnone
        apply hrest
        rw [others, find, hnone]
        rfl
      obtain ⟨items, hitems⟩ := hentry
      simp [find, others, hitems]
  · split <;> simp [find, hk]

theorem mem_find_addAll (index : InvertedIndex κ ι) (ks : List κ) :
    j ∈ (index.addAll ks i).find k ↔ (k ∈ ks ∧ j = i) ∨ j ∈ index.find k := by
  induction ks generalizing index with
  | nil => simp [addAll]
  | cons first rest ih =>
    rw [addAll, List.foldl_cons]
    refine (ih (index.add first i)).trans ?_
    rw [mem_find_add, List.mem_cons]
    tauto

theorem mem_find_discardAll (index : InvertedIndex κ ι) (ks : List κ) :
    j ∈ (index.discardAll ks i).find k ↔ j ∈ index.find k ∧ ¬(k ∈ ks ∧ j = i) := by
  induction ks generalizing index with
  | nil => simp [discardAll]
  | cons first rest ih =>
    rw [discardAll, List.foldl_cons]
    refine (ih (index.discard first i)).trans ?_
    rw [mem_find_discard, List.mem_cons]
    tauto

/-- An item taken from under all the values there are is under none. -/
theorem mem_find_discardAll_keys : j ∈ (index.discardAll index.keys i).find k ↔ j ∈ index.find k ∧ j ≠ i := by
  rw [mem_find_discardAll]
  constructor
  · rintro ⟨hj, hnot⟩
    exact ⟨hj, fun hi => hnot ⟨mem_keys.mpr ⟨j, hj⟩, hi⟩⟩
  · rintro ⟨hj, hne⟩
    exact ⟨hj, fun h => hne h.2⟩

section Indexed

variable {ρ : Type} (t : Table ι ρ) (valuesOf : ρ → List κ)

/-- An index leads from each value to the keys of the rows that carry it. -/
def Indexes (index : InvertedIndex κ ι) : Prop := ∀ v k, k ∈ index.find v ↔ ∃ r, t.get? k = some r ∧ v ∈ valuesOf r

/-- A lookup succeeds and finds the rows with a property, each once. -/
def Finds (p : ρ → Prop) (result : Option (List ρ)) : Prop :=
  ∃ found, result = some found ∧ found.Nodup ∧ ∀ r, r ∈ found ↔ (∃ k, t.get? k = some r) ∧ p r

variable {t valuesOf}

theorem Indexes.empty : Indexes (.empty : Table ι ρ) valuesOf .empty := by
  intro v k
  simp

/-- Without the items of one key an index leads to all the others. -/
theorem Indexes.others (h : Indexes t valuesOf index) (k : ι) (v : κ) (other : ι) :
    other ∈ (index.discardAll index.keys k).find v ↔ other ≠ k ∧ ∃ r, t.get? other = some r ∧ v ∈ valuesOf r := by
  rw [mem_find_discardAll_keys, h v other, and_comm]

theorem Indexes.erase (h : Indexes t valuesOf index) (k : ι) :
    Indexes (t.erase k) valuesOf (index.discardAll index.keys k) := by
  intro v other
  rw [h.others, Table.get?_erase]
  by_cases hother : other = k <;> simp [hother]

/-- It is enough to take a key from under the values of its row. -/
theorem Indexes.eraseRow (h : Indexes t valuesOf index) {k : ι} {r : ρ} (hr : t.get? k = some r) :
    Indexes (t.erase k) valuesOf (index.discardAll (valuesOf r) k) := by
  intro v other
  rw [mem_find_discardAll, h v other, Table.get?_erase]
  by_cases hother : other = k
  · subst hother
    simp [hr]
  · simp [hother]

theorem Indexes.upsert {index' : InvertedIndex κ ι} {k : ι} {r : ρ}
    (h : ∀ v other, other ∈ index'.find v ↔ other ≠ k ∧ ∃ r, t.get? other = some r ∧ v ∈ valuesOf r) :
    Indexes (t.upsert k r) valuesOf (index'.addAll (valuesOf r) k) := by
  intro v other
  rw [mem_find_addAll, h, Table.get?_upsert]
  by_cases hother : other = k <;> simp [hother]

/-- What is put under the values `vs` without anything being taken away is right just when
the row carries these values and those of the row before it. -/
theorem Indexes.upsert_iff (h : Indexes t valuesOf index) {k : ι} {r : ρ} {vs : List κ} :
    Indexes (t.upsert k r) valuesOf (index.addAll vs k) ↔
      ∀ v, v ∈ valuesOf r ↔ v ∈ vs ∨ ∃ old, t.get? k = some old ∧ v ∈ valuesOf old := by
  have hk : ∀ v, k ∈ (index.addAll vs k).find v ↔ v ∈ vs ∨ ∃ old, t.get? k = some old ∧ v ∈ valuesOf old := by
    intro v
    rw [mem_find_addAll, h v k, and_iff_left rfl]
  constructor
  · intro hnew v
    rw [← hk v, hnew v k, Table.get?_upsert, if_pos rfl]
    simp
  · intro hvalues v other
    by_cases hother : other = k
    · subst hother
      rw [hk v, ← hvalues v, Table.get?_upsert, if_pos rfl]
      simp
    · rw [mem_find_addAll, h v other, Table.get?_upsert, if_neg hother]
      simp [hother]

/-- Where there is no row under a key an index leads to the others. -/
theorem Indexes.fresh (h : Indexes t valuesOf index) {k : ι} (hfresh : t.get? k = none) (v : κ) (other : ι) :
    other ∈ index.find v ↔ other ≠ k ∧ ∃ r, t.get? other = some r ∧ v ∈ valuesOf r := by
  rw [h v other]
  constructor
  · rintro ⟨r, hr, hv⟩
    refine ⟨fun he => ?_, r, hr, hv⟩
    rw [he, hfresh] at hr
    cases hr
  · exact And.right

/-- Where each row tells its key, the rows under keys are those with a property, each once,
just when the keys are theirs. -/
theorem finds_getAll?_iff {idOf : ρ → ι} (hid : ∀ k r, t.get? k = some r → idOf r = k) {ks : ListSet ι} {p : ρ → Prop} :
    Finds t p (t.getAll? ks.elems) ↔ ∀ k, k ∈ ks ↔ ∃ r, t.get? k = some r ∧ p r := by
  constructor
  · rintro ⟨found, hfound, _, hmem⟩ k
    obtain ⟨hall, rfl⟩ := Table.getAll?_eq_some_iff.mp hfound
    constructor
    · intro hk
      obtain ⟨r, hr⟩ := Table.contains_eq_true_iff.mp (hall k hk)
      exact ⟨r, hr, ((hmem r).mp (List.mem_filterMap.mpr ⟨k, hk, hr⟩)).2⟩
    · rintro ⟨r, hr, hp⟩
      obtain ⟨k', hk', hr'⟩ := List.mem_filterMap.mp ((hmem r).mpr ⟨⟨k, hr⟩, hp⟩)
      rwa [← hid k r hr, hid k' r hr']
  · intro h
    refine ⟨_, Table.getAll?_eq_some_iff.mpr ⟨fun k hk => ?_, rfl⟩, ?_, fun r => ?_⟩
    · obtain ⟨r, hr, _⟩ := (h k).mp hk
      exact Table.contains_eq_true_iff.mpr ⟨r, hr⟩
    · refine List.Nodup.filterMap (fun a b r ha hb => ?_) ks.nodup
      rw [← hid a r ha, ← hid b r hb]
    · rw [List.mem_filterMap]
      constructor
      · rintro ⟨k, hk, hr⟩
        obtain ⟨r', hr', hp⟩ := (h k).mp hk
        rw [hr] at hr'
        cases hr'
        exact ⟨⟨k, hr⟩, hp⟩
      · rintro ⟨⟨k, hr⟩, hp⟩
        exact ⟨k, (h k).mpr ⟨r, hr, hp⟩, hr⟩

/-- The lookups through an index find the rows with the value just when the index is right. -/
theorem indexes_iff_finds {idOf : ρ → ι} (hid : ∀ k r, t.get? k = some r → idOf r = k) :
    Indexes t valuesOf index ↔ ∀ v, Finds t (fun r => v ∈ valuesOf r) (t.getAll? (index.find v).elems) :=
  forall_congr' fun _ => (finds_getAll?_iff hid).symm

end Indexed

end InvertedIndex

end Relational
