import Mathlib.Data.List.MinMax
import Mathlib.Data.List.Sort

/-! Stable sorting by a key, and what it leaves in place: the elements of a
class, the first with the least key and the first with the greatest. -/

namespace StableSort

variable {α β : Type} [LinearOrder β] (f : α → β)

/-- Sorts by the key, elements with equal keys staying in order. -/
def sortOn (l : List α) : List α := l.insertionSort fun a b => f a ≤ f b

def insertOn (a : α) (l : List α) : List α := l.orderedInsert (fun a b => f a ≤ f b) a

/-- The first element of least key. -/
def firstLeast (l : List α) : Option α := l.argmin f

/-- The first element of greatest key. -/
def firstGreatest (l : List α) : Option α := l.argmax f

theorem sortOn_cons (a : α) (l : List α) : sortOn f (a :: l) = insertOn f a (sortOn f l) := rfl

theorem insertOn_cons (a b : α) (l : List α) :
    insertOn f a (b :: l) = if f a ≤ f b then a :: b :: l else b :: insertOn f a l := rfl

theorem mem_sortOn {l : List α} {a : α} : a ∈ sortOn f l ↔ a ∈ l := List.mem_insertionSort _

theorem pairwise_sortOn (l : List α) : (sortOn f l).Pairwise fun a b => f a ≤ f b := by
  have : IsTrans α fun a b => f a ≤ f b := ⟨fun _ _ _ => le_trans⟩
  have : Std.Total fun a b : α => f a ≤ f b := ⟨fun _ _ => le_total _ _⟩
  exact List.pairwise_insertionSort _ l

theorem sortOn_eq_self {l : List α} (h : l.Pairwise fun a b => f a ≤ f b) : sortOn f l = l :=
  h.insertionSort_eq

theorem perm_sortOn (l : List α) : (sortOn f l).Perm l := List.perm_insertionSort _ l

/-- With distinct keys the order before the sort does not matter. -/
theorem sortOn_eq_of_perm {l l' : List α} (h : l.Perm l') (hkeys : (l.map f).Nodup) : sortOn f l = sortOn f l' := by
  have hperm : (sortOn f l).Perm (sortOn f l') := (perm_sortOn f l).trans (h.trans (perm_sortOn f l').symm)
  refine hperm.eq_of_pairwise (fun a b ha hb hab hba => ?_) (pairwise_sortOn f l) (pairwise_sortOn f l')
  have hb' : b ∈ l := h.mem_iff.mpr ((mem_sortOn f).mp hb)
  exact List.inj_on_of_nodup_map hkeys ((mem_sortOn f).mp ha) hb' (le_antisymm hab hba)

theorem filter_insertOn (p : α → Bool) (a : α) {l : List α} (h : l.Pairwise fun a b => f a ≤ f b) :
    (insertOn f a l).filter p = if p a then insertOn f a (l.filter p) else l.filter p := by
  induction l with
  | nil => cases hp : p a <;> simp [insertOn, hp]
  | cons b l ih =>
    obtain ⟨hb, hl⟩ := List.pairwise_cons.mp h
    rw [insertOn_cons]
    by_cases hab : f a ≤ f b
    · -- every element kept from here on is at least `b`
      rw [if_pos hab]
      cases hpa : p a with
      | false => simp [hpa]
      | true =>
        have hfirst : insertOn f a ((b :: l).filter p) = a :: (b :: l).filter p := by
          cases hrest : (b :: l).filter p with
          | nil => rfl
          | cons c rest =>
            have hc : c ∈ (b :: l).filter p := hrest ▸ List.mem_cons_self
            have hac : f a ≤ f c := by
              rcases List.mem_cons.mp (List.mem_filter.mp hc).1 with rfl | hm
              · exact hab
              · exact hab.trans (hb c hm)
            rw [insertOn_cons, if_pos hac]
        rw [List.filter_cons_of_pos hpa, if_pos rfl, hfirst]
    · rw [if_neg hab]
      cases hpb : p b with
      | false =>
        have hnot : ¬p b = true := by simp [hpb]
        rw [List.filter_cons_of_neg hnot, List.filter_cons_of_neg hnot, ih hl]
      | true =>
        rw [List.filter_cons_of_pos hpb, List.filter_cons_of_pos hpb, ih hl]
        cases hpa : p a with
        | false => simp
        | true => rw [if_pos rfl, if_pos rfl, insertOn_cons, if_neg hab]

theorem filter_sortOn (p : α → Bool) (l : List α) : (sortOn f l).filter p = sortOn f (l.filter p) := by
  induction l with
  | nil => rfl
  | cons a l ih =>
    rw [sortOn_cons, filter_insertOn f p a (pairwise_sortOn f l), ih]
    cases hpa : p a with
    | false => simp [hpa]
    | true => rw [if_pos rfl, List.filter_cons_of_pos hpa, sortOn_cons]

/-- The elements with one key come in the order in which they were. -/
theorem class_sortOn (l : List α) (k : β) : (sortOn f l).filter (f · = k) = l.filter (f · = k) := by
  rw [filter_sortOn]
  refine sortOn_eq_self f (List.pairwise_of_forall_mem_list ?_)
  intro a ha b hb
  have hka : f a = k := of_decide_eq_true (List.mem_filter.mp ha).2
  have hkb : f b = k := of_decide_eq_true (List.mem_filter.mp hb).2
  exact (hka.trans hkb.symm).le

/-- Two sorted lists whose elements with one key are in one order are the same. -/
theorem eq_of_classes {l l' : List α} (h : l.Pairwise fun a b => f a ≤ f b) (h' : l'.Pairwise fun a b => f a ≤ f b)
    (hclass : ∀ k, l.filter (f · = k) = l'.filter (f · = k)) : l = l' := by
  have hmem : ∀ {l l' : List α}, (∀ k, l.filter (f · = k) = l'.filter (f · = k)) → ∀ a ∈ l, a ∈ l' := by
    intro l l' hclass a ha
    have ha' : a ∈ l.filter (f · = f a) := List.mem_filter.mpr ⟨ha, decide_eq_true rfl⟩
    rw [hclass] at ha'
    exact (List.mem_filter.mp ha').1
  induction l generalizing l' with
  | nil =>
    cases l' with
    | nil => rfl
    | cons b rest' => exact absurd (hmem (fun k => (hclass k).symm) b List.mem_cons_self) List.not_mem_nil
  | cons a rest ih =>
    cases l' with
    | nil => exact absurd (hmem hclass a List.mem_cons_self) List.not_mem_nil
    | cons b rest' =>
      obtain ⟨ha, hrest⟩ := List.pairwise_cons.mp h
      obtain ⟨hb, hrest'⟩ := List.pairwise_cons.mp h'
      have hab : f a ≤ f b := by
        rcases List.mem_cons.mp (hmem (fun k => (hclass k).symm) b List.mem_cons_self) with rfl | hin
        · exact le_rfl
        · exact ha b hin
      have hba : f b ≤ f a := by
        rcases List.mem_cons.mp (hmem hclass a List.mem_cons_self) with rfl | hin
        · exact le_rfl
        · exact hb a hin
      have hkey : f b = f a := le_antisymm hba hab
      have hfirst := hclass (f a)
      rw [List.filter_cons_of_pos (by simp), List.filter_cons_of_pos (by simp [hkey])] at hfirst
      obtain ⟨rfl, _⟩ := List.cons.inj hfirst
      refine congrArg (a :: ·) (ih hrest hrest' ?_)
      intro k
      have hk := hclass k
      by_cases hak : f a = k
      · rw [List.filter_cons_of_pos (by simp [hak]), List.filter_cons_of_pos (by simp [hak])] at hk
        exact (List.cons.inj hk).2
      · rwa [List.filter_cons_of_neg (by simp [hak]), List.filter_cons_of_neg (by simp [hak])] at hk

/-- Sorting puts the groups of equal keys one after the other. -/
theorem sortOn_eq_flatMap {γ : Type} {l : List α} {groups : List γ} {key : γ → β} {members : γ → List α}
    (hkeys : groups.Pairwise fun g g' => key g < key g') (hmembers : ∀ g ∈ groups, members g = l.filter (f · = key g))
    (hall : ∀ a ∈ l, ∃ g ∈ groups, key g = f a) : sortOn f l = groups.flatMap members := by
  have hin : ∀ g ∈ groups, ∀ a ∈ members g, f a = key g := by
    intro g hg a ha
    rw [hmembers g hg] at ha
    exact of_decide_eq_true (List.mem_filter.mp ha).2
  refine eq_of_classes f (pairwise_sortOn f l) ?_ ?_
  · rw [List.pairwise_flatMap]
    constructor
    · intro g hg
      refine List.pairwise_of_forall_mem_list fun a ha b hb => ?_
      rw [hin g hg a ha, hin g hg b hb]
    · refine hkeys.imp_of_mem ?_
      intro g g' hg hg' hlt a ha b hb
      rw [hin g hg a ha, hin g' hg' b hb]
      exact hlt.le
  · intro k
    rw [class_sortOn, List.filter_flatMap]
    -- only the group of the key has members with it
    by_cases hk : ∃ g ∈ groups, key g = k
    · obtain ⟨g, hg, rfl⟩ := hk
      obtain ⟨before, after, rfl⟩ := List.append_of_mem hg
      have hother : ∀ g' ∈ before ++ g :: after, key g' ≠ key g → (members g').filter (f · = key g) = [] := by
        intro g' hg' hne
        rw [List.filter_eq_nil_iff]
        intro a ha
        rw [hin g' hg' a ha]
        simpa using hne
      rw [List.pairwise_append, List.pairwise_cons] at hkeys
      obtain ⟨_, ⟨hafter, _⟩, hbefore⟩ := hkeys
      have hfront : before.flatMap (fun g' => (members g').filter (f · = key g)) = [] := by
        rw [List.flatMap_eq_nil_iff]
        exact fun g' hg' => hother g' (List.mem_append_left _ hg') (hbefore g' hg' g List.mem_cons_self).ne
      have hback : after.flatMap (fun g' => (members g').filter (f · = key g)) = [] := by
        rw [List.flatMap_eq_nil_iff]
        exact fun g' hg' => hother g' (List.mem_append_right _ (List.mem_cons_of_mem _ hg')) (hafter g' hg').ne'
      have hself : (members g).filter (f · = key g) = members g := by
        rw [List.filter_eq_self]
        exact fun a ha => decide_eq_true (hin g hg a ha)
      rw [List.flatMap_append, List.flatMap_cons, hfront, hback, hself, List.nil_append, List.append_nil, hmembers g hg]
    · have hnone : l.filter (f · = k) = [] := by
        rw [List.filter_eq_nil_iff]
        intro a ha hak
        obtain ⟨g, hg, hga⟩ := hall a ha
        exact hk ⟨g, hg, hga.trans (of_decide_eq_true hak)⟩
      rw [hnone, eq_comm, List.flatMap_eq_nil_iff]
      intro g hg
      rw [List.filter_eq_nil_iff]
      intro a ha hak
      exact hk ⟨g, hg, (hin g hg a ha).symm.trans (of_decide_eq_true hak)⟩

/-- A sorted list starts with the first element of least key. -/
theorem head?_sortOn (l : List α) : (sortOn f l).head? = firstLeast f l := by
  induction l with
  | nil => rfl
  | cons a l ih =>
    rw [sortOn_cons, firstLeast, List.argmin_cons, ← firstLeast, ← ih]
    cases hs : sortOn f l with
    | nil => rfl
    | cons b rest =>
      rw [insertOn_cons]
      by_cases hab : f a ≤ f b
      · simp [hab, not_lt.mpr hab]
      · simp [hab, not_le.mp hab]

theorem argmax_insertOn (a : α) (l : List α) : (insertOn f a l).argmax f = (a :: l).argmax f := by
  induction l with
  | nil => rfl
  | cons b l ih =>
    rw [insertOn_cons]
    by_cases hab : f a ≤ f b
    · rw [if_pos hab]
    · rw [if_neg hab, List.argmax_cons, ih, List.argmax_cons, List.argmax_cons, List.argmax_cons]
      have hba := not_le.mp hab
      cases hm : l.argmax f with
      | none => simp [hba, not_lt.mpr hba.le]
      | some m =>
        by_cases ham : f a < f m
        · simp [ham, hba.trans ham]
        · by_cases hbm : f b < f m
          · simp [ham, hbm, hba]
          · simp [ham, hbm, hba, not_lt.mpr hba.le]

/-- Sorting keeps the first element of greatest key. -/
theorem firstGreatest_sortOn (l : List α) : firstGreatest f (sortOn f l) = firstGreatest f l := by
  unfold firstGreatest
  induction l with
  | nil => rfl
  | cons a l ih => rw [sortOn_cons, argmax_insertOn, List.argmax_cons, ih, List.argmax_cons]

theorem firstGreatest_concat (l : List α) (a : α) :
    firstGreatest f (l ++ [a]) = match firstGreatest f l with
      | none => some a
      | some b => if f b < f a then some a else some b := by
  unfold firstGreatest
  rw [List.argmax_concat]
  cases l.argmax f <;> rfl

/-- Where the keys increase the last element is the greatest. -/
theorem firstGreatest_of_increasing {l : List α} (h : l.Pairwise fun a b => f a < f b) :
    firstGreatest f l = l.getLast? := by
  induction l using List.reverseRecOn with
  | nil => rfl
  | append_singleton l a ih =>
    obtain ⟨hl, -, hlast⟩ := List.pairwise_append.mp h
    rw [firstGreatest_concat, ih hl, List.getLast?_concat]
    cases hgreatest : l.getLast? with
    | none => rfl
    | some b => exact if_pos (hlast b (List.mem_of_getLast? hgreatest) a List.mem_cons_self)

/-- Where all keys are one the first element is the greatest. -/
theorem firstGreatest_of_constant {l : List α} {k : β} (h : ∀ a ∈ l, f a = k) : firstGreatest f l = l.head? := by
  induction l using List.reverseRecOn with
  | nil => rfl
  | append_singleton l a ih =>
    have hl : ∀ b ∈ l, f b = k := fun b hb => h b (List.mem_append_left _ hb)
    have ha : f a = k := h a (List.mem_append_right _ List.mem_cons_self)
    rw [firstGreatest_concat, ih hl]
    cases l with
    | nil => rfl
    | cons b rest =>
      have hb : f b = k := hl b List.mem_cons_self
      exact if_neg (by rw [ha, hb]; exact lt_irrefl k)

/-- Of two lists the second one decides only if its greatest key is greater. -/
theorem firstGreatest_append (l m : List α) :
    firstGreatest f (l ++ m) = match firstGreatest f l, firstGreatest f m with
      | none, b => b
      | some a, none => some a
      | some a, some b => if f a < f b then some b else some a := by
  induction m using List.reverseRecOn with
  | nil =>
    rw [List.append_nil]
    cases firstGreatest f l <;> rfl
  | append_singleton m c ih =>
    rw [← List.append_assoc, firstGreatest_concat, ih, firstGreatest_concat]
    cases firstGreatest f l with
    | none => rfl
    | some a =>
      cases firstGreatest f m with
      | none => rfl
      | some b =>
        rcases lt_or_ge (f a) (f b) with hab | hab
        · rcases lt_or_ge (f b) (f c) with hbc | hbc
          · simp [hab, hbc, hab.trans hbc]
          · simp [hab, not_lt.mpr hbc]
        · rcases lt_or_ge (f b) (f c) with hbc | hbc
          · simp [not_lt.mpr hab, hbc]
          · simp [not_lt.mpr hab, not_lt.mpr hbc, not_lt.mpr (hbc.trans hab)]

section Filtered

variable {f : α → β} {l l' : List α} {p : α → Bool} {a : α}

@[simp] theorem firstLeast_eq_none : firstLeast f l = none ↔ l = [] := List.argmin_eq_none

@[simp] theorem firstGreatest_eq_none : firstGreatest f l = none ↔ l = [] := List.argmax_eq_none

theorem firstLeast_filter_some (h : firstLeast f (l.filter p) = some a) :
    a ∈ l ∧ p a = true ∧ ∀ x ∈ l, p x = true → f a ≤ f x := by
  obtain ⟨hm, hp⟩ := List.mem_filter.mp (List.argmin_mem h)
  exact ⟨hm, hp, fun x hx hpx => List.le_of_mem_argmin (List.mem_filter.mpr ⟨hx, hpx⟩) h⟩

/-- The first element of least key stands before the others with that key. -/
theorem firstLeast_before {R : α → α → Prop} {m : α} (h : firstLeast f l = some m) (hR : l.Pairwise R) (ha : a ∈ l)
    (hle : f a ≤ f m) (hne : a ≠ m) : R m a := by
  induction l with
  | nil => cases ha
  | cons b rest ih =>
    obtain ⟨hb, hrest⟩ := List.pairwise_cons.mp hR
    rw [firstLeast, List.argmin_cons, ← firstLeast] at h
    cases hleast : firstLeast f rest with
    | none =>
      rw [hleast] at h
      have hm : b = m := Option.some.inj h
      rw [firstLeast_eq_none.mp hleast, List.mem_singleton] at ha
      exact absurd (ha.trans hm) hne
    | some c =>
      rw [hleast] at h
      dsimp only at h
      split at h
      next hlt =>
        have hm : c = m := Option.some.inj h
        rcases List.mem_cons.mp ha with rfl | ha
        · rw [← hm] at hle
          exact absurd hlt (not_lt.mpr hle)
        · exact ih (hleast.trans h) hrest ha
      next =>
        have hm : b = m := Option.some.inj h
        rcases List.mem_cons.mp ha with rfl | ha
        · exact absurd hm hne
        · rw [← hm]
          exact hb a ha

theorem firstGreatest_filter_some (h : firstGreatest f (l.filter p) = some a) :
    a ∈ l ∧ p a = true ∧ ∀ x ∈ l, p x = true → f x ≤ f a := by
  obtain ⟨hm, hp⟩ := List.mem_filter.mp (List.argmax_mem h)
  exact ⟨hm, hp, fun x hx hpx => List.le_of_mem_argmax (List.mem_filter.mpr ⟨hx, hpx⟩) h⟩

/-- With distinct keys the order of the list does not matter. -/
theorem firstLeast_filter_congr (hd : ∀ x ∈ l, ∀ y ∈ l, f x = f y → x = y) (hmem : ∀ x, x ∈ l ↔ x ∈ l') :
    firstLeast f (l.filter p) = firstLeast f (l'.filter p) := by
  cases h' : firstLeast f (l'.filter p) with
  | none =>
    have hnone := List.filter_eq_nil_iff.mp (firstLeast_eq_none.mp h')
    exact firstLeast_eq_none.mpr (List.filter_eq_nil_iff.mpr fun x hx => hnone x ((hmem x).mp hx))
  | some b =>
    obtain ⟨hb, hpb, hmin'⟩ := firstLeast_filter_some h'
    have hbl := (hmem b).mpr hb
    cases h : firstLeast f (l.filter p) with
    | none => exact absurd hpb (List.filter_eq_nil_iff.mp (firstLeast_eq_none.mp h) b hbl)
    | some a =>
      obtain ⟨ha, hpa, hmin⟩ := firstLeast_filter_some h
      have hle := hmin b hbl hpb
      have hle' := hmin' a ((hmem a).mp ha) hpa
      rw [hd a ha b hbl (le_antisymm hle hle')]

theorem firstGreatest_filter_congr (hd : ∀ x ∈ l, ∀ y ∈ l, f x = f y → x = y) (hmem : ∀ x, x ∈ l ↔ x ∈ l') :
    firstGreatest f (l.filter p) = firstGreatest f (l'.filter p) :=
  firstLeast_filter_congr (β := βᵒᵈ) hd hmem

end Filtered

end StableSort
