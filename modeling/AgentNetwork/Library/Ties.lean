import AgentNetwork.Library.StableSort
import Mathlib.Data.List.FinRange
import Mathlib.Logic.Equiv.Defs

/-! What a stable sort leaves open: the order of elements with equal keys. -/

namespace Ties

open StableSort

section Swaps

variable {α β γ : Type} [LinearOrder β] {f : α → β} {F : List α → γ}

/-- An element may be brought before a stretch of elements with its key. -/
theorem bring_forward {l : List α}
    (hswap : ∀ x p q y, (x ++ p :: q :: y).Perm l → (x ++ p :: q :: y).Pairwise (f · ≤ f ·) → f p = f q →
      F (x ++ p :: q :: y) = F (x ++ q :: p :: y))
    {front mid rest : List α} {a : α} (hperm : (front ++ mid ++ a :: rest).Perm l)
    (hsorted : (front ++ mid ++ a :: rest).Pairwise (f · ≤ f ·)) (hmid : ∀ x ∈ mid, f x = f a) :
    F (front ++ mid ++ a :: rest) = F (front ++ a :: (mid ++ rest)) := by
  induction mid using List.reverseRecOn generalizing rest with
  | nil => simp
  | append_singleton mid b ih =>
    have hb : f b = f a := hmid b (by simp)
    have hshape : front ++ (mid ++ [b]) ++ a :: rest = (front ++ mid) ++ b :: a :: rest := by simp
    rw [hshape] at hperm hsorted ⊢
    have hstep := hswap _ b a rest hperm hsorted hb
    have hperm' : (front ++ mid ++ a :: b :: rest).Perm l :=
      (List.Perm.append_left _ (List.Perm.swap b a rest)).trans hperm
    have hkeys : (front ++ mid ++ a :: b :: rest).map f = (front ++ mid ++ b :: a :: rest).map f := by simp [hb]
    have hsorted' : (front ++ mid ++ a :: b :: rest).Pairwise (f · ≤ f ·) := by
      rw [← List.pairwise_map] at hsorted ⊢
      rwa [hkeys]
    rw [hstep, ih hperm' hsorted' fun x hx => hmid x (List.mem_append_left _ hx)]
    simp

/-- What is the same after each swap of neighbours with equal keys is the same for
any two sorted orders. -/
theorem eq_of_swaps {l l' : List α} (hperm : l.Perm l') (hsorted : l.Pairwise (f · ≤ f ·))
    (hsorted' : l'.Pairwise (f · ≤ f ·))
    (hswap : ∀ x p q y, (x ++ p :: q :: y).Perm l → (x ++ p :: q :: y).Pairwise (f · ≤ f ·) → f p = f q →
      F (x ++ p :: q :: y) = F (x ++ q :: p :: y)) : F l = F l' := by
  suffices h : ∀ front rest rest', rest.Perm rest' → (front ++ rest).Perm l → (front ++ rest).Pairwise (f · ≤ f ·) →
      (front ++ rest').Pairwise (f · ≤ f ·) → F (front ++ rest) = F (front ++ rest') from
    h [] l l' hperm (List.Perm.refl l) hsorted hsorted'
  intro front rest
  induction rest generalizing front with
  | nil =>
    intro rest' hp _ _ _
    rw [hp.symm.eq_nil]
  | cons a rest ih =>
    intro rest' hp hl hs hs'
    obtain ⟨mid, after, rfl⟩ := List.append_of_mem (hp.subset List.mem_cons_self)
    have hmid : ∀ x ∈ mid, f x = f a := by
      intro x hx
      have hle : f x ≤ f a := by
        have := (List.pairwise_append.mp hs').2.1
        exact (List.pairwise_append.mp this).2.2 x hx a List.mem_cons_self
      have hge : f a ≤ f x := by
        rcases List.mem_cons.mp (hp.symm.subset (List.mem_append_left _ hx)) with rfl | hx
        · exact le_rfl
        · exact (List.pairwise_cons.mp (List.pairwise_append.mp hs).2.1).1 x hx
      exact le_antisymm hle hge
    have hp' : rest.Perm (mid ++ after) := List.Perm.cons_inv (hp.trans List.perm_middle)
    have hl' : (front ++ mid ++ a :: after).Perm l := by
      rw [List.append_assoc]
      exact (hp.symm.append_left front).trans hl
    have hs'' : (front ++ mid ++ a :: after).Pairwise (f · ≤ f ·) := by rwa [List.append_assoc]
    have hforward := bring_forward hswap hl' hs'' hmid
    have hkeys : ((front ++ [a]) ++ (mid ++ after)).map f = (front ++ mid ++ a :: after).map f := by
      have hconst : mid.map f = List.replicate mid.length (f a) :=
        List.map_eq_replicate_iff.mpr hmid
      simp only [List.map_append, List.map_cons, hconst, List.append_assoc, List.singleton_append]
      rw [← List.cons_append, ← List.replicate_succ, List.replicate_succ', List.append_assoc, List.singleton_append]
    have hsorted'' : ((front ++ [a]) ++ (mid ++ after)).Pairwise (f · ≤ f ·) := by
      rw [← List.pairwise_map] at hs'' ⊢
      rwa [hkeys]
    have hshape : front ++ a :: rest = (front ++ [a]) ++ rest := by simp
    rw [hshape] at hl hs ⊢
    rw [ih _ _ hp' hl hs hsorted'', ← List.append_assoc front mid, hforward]
    simp

theorem perm_blocks (l : List α) (k : β) :
    (sortOn f (l.filter (f · < k)) ++ l.filter (f · = k) ++ sortOn f (l.filter (k < f ·))).Perm l := by
  have hsplit : (l.filter (f · < k) ++ (l.filter (f · = k) ++ l.filter (k < f ·))).Perm l := by
    have hrest : (l.filter (f · = k) ++ l.filter (k < f ·)).Perm (l.filter fun x => !decide (f x < k)) := by
      have hperm := List.filter_append_perm (fun x => decide (f x = k)) (l.filter fun x => !decide (f x < k))
      rw [List.filter_filter, List.filter_filter] at hperm
      have heq : (l.filter fun x => decide (f x = k) && !decide (f x < k)) = l.filter (f · = k) := by
        apply List.filter_congr
        intro x _
        by_cases hx : f x = k <;> simp [hx]
      have hgt : (l.filter fun x => !decide (f x = k) && !decide (f x < k)) = l.filter (k < f ·) := by
        apply List.filter_congr
        intro x _
        rcases lt_trichotomy (f x) k with hx | hx | hx
        · simp [hx, hx.le]
        · simp [hx]
        · simp [hx, hx.ne', hx.le]
      rwa [heq, hgt] at hperm
    exact (hrest.append_left _).trans (List.filter_append_perm (fun x => decide (f x < k)) l)
  rw [List.append_assoc]
  refine (List.Perm.append (List.perm_insertionSort _ _) ?_).trans hsplit
  exact List.Perm.append_left _ (List.perm_insertionSort _ _)

theorem pairwise_blocks {smaller mid greater : List α} {k : β} (hsmaller : ∀ x ∈ smaller, f x < k)
    (hmid : ∀ x ∈ mid, f x = k) (hgreater : ∀ x ∈ greater, k < f x) (hs : smaller.Pairwise (f · ≤ f ·))
    (hg : greater.Pairwise (f · ≤ f ·)) : (smaller ++ mid ++ greater).Pairwise (f · ≤ f ·) := by
  have hm : mid.Pairwise (f · ≤ f ·) :=
    List.pairwise_of_forall_mem_list fun x hx y hy => ((hmid x hx).trans (hmid y hy).symm).le
  refine List.pairwise_append.mpr ⟨List.pairwise_append.mpr ⟨hs, hm, ?_⟩, hg, ?_⟩
  · exact fun x hx y hy => (hsmaller x hx).le.trans (hmid y hy).ge
  · intro x hx y hy
    rcases List.mem_append.mp hx with hx | hx
    · exact (hsmaller x hx).le.trans (hgreater y hy).le
    · exact (hmid x hx).le.trans (hgreater y hy).le

/-- Two elements can stand at the head of those with the key of the first. -/
theorem exists_blocks {l : List α} {p q : α} (hp : p ∈ l) (hq : q ∈ l) (hne : p ≠ q) :
    ∃ smaller tied greater, (∀ x ∈ smaller, f x < f p) ∧ (∀ x ∈ tied, f x = f p) ∧ (∀ x ∈ greater, f p < f x) ∧
      smaller.Pairwise (f · ≤ f ·) ∧ greater.Pairwise (f · ≤ f ·) ∧
      (smaller ++ (p :: q :: tied) ++ greater).Perm l := by
  obtain ⟨before, after, rfl⟩ := List.append_of_mem hp
  have hq' : q ∈ before ++ after := by
    rcases List.mem_append.mp hq with hq | hq
    · exact List.mem_append_left _ hq
    · exact List.mem_append_right _ ((List.mem_cons.mp hq).resolve_left (Ne.symm hne))
  obtain ⟨before', after', hsplit⟩ := List.append_of_mem hq'
  have hperm : (p :: q :: (before' ++ after')).Perm (before ++ p :: after) := by
    refine List.Perm.trans (List.Perm.cons p ?_) List.perm_middle.symm
    rw [hsplit]
    exact List.perm_middle.symm
  let rest := before' ++ after'
  have hblocks : (sortOn f (rest.filter (f · < f p)) ++ rest.filter (f · = f p) ++
      sortOn f (rest.filter (f p < f ·))).Perm rest := perm_blocks rest (f p)
  refine ⟨sortOn f (rest.filter (f · < f p)), rest.filter (f · = f p), sortOn f (rest.filter (f p < f ·)), ?_, ?_, ?_,
    pairwise_sortOn f _, pairwise_sortOn f _,
    List.Perm.trans ?_ ((List.Perm.cons p (List.Perm.cons q hblocks)).trans hperm)⟩
  · intro x hx
    exact of_decide_eq_true (List.mem_filter.mp ((mem_sortOn f).mp hx)).2
  · intro x hx
    exact of_decide_eq_true (List.mem_filter.mp hx).2
  · intro x hx
    exact of_decide_eq_true (List.mem_filter.mp ((mem_sortOn f).mp hx)).2
  · rw [← List.cons_append, ← List.cons_append]
    apply List.Perm.append_right
    exact List.perm_middle.trans (List.Perm.cons p List.perm_middle)

end Swaps

section Blocks

variable {α β γ : Type}

/-- The elements in the order of a permutation of their places. -/
def permute (σ : ∀ n, Equiv.Perm (Fin n)) (l : List α) : List α := List.ofFn fun i => l.get (σ l.length i)

theorem perm_permute (σ : ∀ n, Equiv.Perm (Fin n)) (l : List α) : (permute σ l).Perm l := by
  have h := (σ l.length).ofFn_comp_perm l.get
  rwa [List.ofFn_get] at h

theorem permute_eq (σ : ∀ n, Equiv.Perm (Fin n)) {l : List α} {n : Nat} (h : l.length = n) :
    permute σ l = List.ofFn fun i => l.get (Fin.cast h.symm (σ n i)) := by
  subst h
  rfl

theorem map_permute (f : α → β) (σ : ∀ n, Equiv.Perm (Fin n)) (l : List α) :
    (permute σ l).map f = permute σ (l.map f) := by
  rw [permute_eq σ (l.length_map f), permute, List.map_ofFn]
  congr 1
  funext i
  simp

/-- The first elements of two lists of blocks are related exactly if those of the
first blocks that are not empty are. -/
theorem head?_flatMap_rel [LinearOrder β] {R : α → α → Prop} {groups : List γ} {key : γ → β} {m m' : γ → List α}
    (hkeys : groups.Pairwise fun g g' => key g < key g') (hempty : ∀ g ∈ groups, m' g = [] ↔ m g = []) :
    Option.Rel R (groups.flatMap m).head? (groups.flatMap m').head? ↔
      ∀ g ∈ groups, m g ≠ [] → (∀ g' ∈ groups, m g' ≠ [] → key g ≤ key g') → Option.Rel R (m g).head? (m' g).head? := by
  induction groups with
  | nil => exact iff_of_true Option.Rel.none nofun
  | cons g rest ih =>
    obtain ⟨hfirst, hrest⟩ := List.pairwise_cons.mp hkeys
    obtain ⟨hg, hothers⟩ := List.forall_mem_cons.mp hempty
    rw [List.flatMap_cons, List.flatMap_cons]
    by_cases hm : m g = []
    · rw [hm, hg.mpr hm, List.nil_append, List.nil_append, ih hrest hothers, List.forall_mem_cons]
      constructor
      · intro h
        refine ⟨fun hne => absurd hm hne, fun g' hg' hne hleast => h g' hg' hne ?_⟩
        exact fun g'' hg'' => hleast g'' (List.mem_cons_of_mem _ hg'')
      · rintro ⟨_, h⟩ g' hg' hne hleast
        refine h g' hg' hne ?_
        rintro g'' hg'' hne'
        rcases List.mem_cons.mp hg'' with rfl | hg''
        · exact absurd hm hne'
        · exact hleast g'' hg'' hne'
    · have hm' : m' g ≠ [] := fun h => hm (hg.mp h)
      rw [List.head?_append_of_ne_nil _ hm, List.head?_append_of_ne_nil _ hm', List.forall_mem_cons]
      constructor
      · intro h
        refine ⟨fun _ _ => h, fun g' hg' _ hleast => ?_⟩
        exact absurd (hleast g List.mem_cons_self hm) (not_le.mpr (hfirst g' hg'))
      · rintro ⟨h, _⟩
        refine h hm ?_
        intro g' hg' _
        rcases List.mem_cons.mp hg' with rfl | hg'
        · exact le_rfl
        · exact (hfirst g' hg').le

theorem getLast?_flatMap_rel [LinearOrder β] {R : α → α → Prop} {groups : List γ} {key : γ → β} {m m' : γ → List α}
    (hkeys : groups.Pairwise fun g g' => key g < key g') (hempty : ∀ g ∈ groups, m' g = [] ↔ m g = []) :
    Option.Rel R (groups.flatMap m).getLast? (groups.flatMap m').getLast? ↔
      ∀ g ∈ groups, m g ≠ [] → (∀ g' ∈ groups, m g' ≠ [] → key g' ≤ key g) →
        Option.Rel R (m g).getLast? (m' g).getLast? := by
  have hreverse : groups.reverse.Pairwise fun g g' => OrderDual.toDual (key g) < OrderDual.toDual (key g') :=
    List.pairwise_reverse.mpr hkeys
  have hempty' : ∀ g ∈ groups.reverse, (List.reverse ∘ m') g = [] ↔ (List.reverse ∘ m) g = [] := by
    simpa using hempty
  have h := head?_flatMap_rel (R := R) hreverse hempty'
  rw [← List.reverse_flatMap, ← List.reverse_flatMap] at h
  simpa using h

variable [DecidableEq α]

/-- The element stands at most so many places from where it stands in the other list. -/
def Within (d : Nat) (l l' : List α) (a : α) : Prop := l.idxOf a ≤ l'.idxOf a + d ∧ l'.idxOf a ≤ l.idxOf a + d

/-- Where each block is permuted in itself, an element moves as far as it moves in its block. -/
theorem within_flatMap {groups : List γ} {m m' : γ → List α} {d : Nat} (hnodup : (groups.flatMap m).Nodup)
    (hperm : ∀ g ∈ groups, (m' g).Perm (m g)) :
    (∀ a ∈ groups.flatMap m, Within d (groups.flatMap m') (groups.flatMap m) a) ↔
      ∀ g ∈ groups, ∀ a ∈ m g, Within d (m' g) (m g) a := by
  induction groups with
  | nil => simp
  | cons g rest ih =>
    rw [List.flatMap_cons, List.nodup_append] at hnodup
    obtain ⟨_, hrest, hdisjoint⟩ := hnodup
    obtain ⟨hg, hperm⟩ := List.forall_mem_cons.mp hperm
    have hin : ∀ a ∈ m g, (Within d ((g :: rest).flatMap m') ((g :: rest).flatMap m) a ↔ Within d (m' g) (m g) a) := by
      intro a ha
      have ha' : a ∈ m' g := hg.mem_iff.mpr ha
      rw [List.flatMap_cons, List.flatMap_cons, Within, Within, List.idxOf_append, List.idxOf_append, if_pos ha, if_pos ha']
    have hout : ∀ a ∈ rest.flatMap m, (Within d ((g :: rest).flatMap m') ((g :: rest).flatMap m) a ↔
        Within d (rest.flatMap m') (rest.flatMap m) a) := by
      intro a ha
      have hnot : a ∉ m g := fun hmem => hdisjoint a hmem a ha rfl
      have hnot' : a ∉ m' g := fun hmem => hnot (hg.mem_iff.mp hmem)
      rw [List.flatMap_cons, List.flatMap_cons, Within, Within, List.idxOf_append, List.idxOf_append, if_neg hnot, if_neg hnot',
        hg.length_eq]
      omega
    rw [List.forall_mem_cons, ← ih hrest hperm]
    constructor
    · intro h
      refine ⟨fun a ha => (hin a ha).mp (h a ?_), fun a ha => (hout a ha).mp (h a ?_)⟩
      · exact List.mem_append_left _ ha
      · exact List.mem_append_right _ ha
    · rintro ⟨hfirst, hothers⟩ a ha
      rw [List.flatMap_cons] at ha
      rcases List.mem_append.mp ha with ha | ha
      · exact (hin a ha).mpr (hfirst a ha)
      · exact (hout a ha).mpr (hothers a ha)

/-- A permutation moves the elements of a list as far as it moves their places. -/
theorem within_permute {σ : ∀ n, Equiv.Perm (Fin n)} {l : List α} (hnodup : l.Nodup) {d : Nat} :
    (∀ a ∈ l, Within d (permute σ l) l a) ↔ ∀ i : Fin l.length, i.val ≤ (σ l.length i).val + d ∧ (σ l.length i).val ≤ i.val + d := by
  have hplaces : ∀ i : Fin l.length, (Within d (permute σ l) l (l.get (σ l.length i)) ↔
      i.val ≤ (σ l.length i).val + d ∧ (σ l.length i).val ≤ i.val + d) := by
    intro i
    have hsame : (permute σ l).Nodup := (perm_permute σ l).nodup_iff.mpr hnodup
    have hnew : (permute σ l).idxOf (l.get (σ l.length i)) = i.val := by
      have hlt : i.val < (permute σ l).length := by simp [permute]
      have hget : (permute σ l)[i.val] = l.get (σ l.length i) := by simp [permute]
      rw [← hget]
      exact hsame.idxOf_getElem i.val hlt
    have hold : l.idxOf (l.get (σ l.length i)) = (σ l.length i).val := hnodup.idxOf_getElem _ (σ l.length i).isLt
    rw [Within, hnew, hold]
  constructor
  · intro h i
    exact (hplaces i).mp (h _ (List.get_mem l _))
  · intro h a ha
    obtain ⟨j, rfl⟩ := List.get_of_mem ha
    obtain ⟨i, rfl⟩ := (σ l.length).surjective j
    exact (hplaces i).mpr (h i)

end Blocks

section Firsts

variable {κ : Type} [DecidableEq κ]

/-- The elements in the order in which they first occur. -/
def firsts (l : List κ) : List κ := l.eraseDups

/-- The elements that do not occur before. -/
def fresh (before l : List κ) : List κ := firsts (l.filter (· ∉ before))

theorem mem_firsts {l : List κ} {a : κ} : a ∈ firsts l ↔ a ∈ l := List.mem_eraseDups

theorem firsts_append (l m : List κ) : firsts (l ++ m) = firsts l ++ fresh l m := by
  have hfresh : m.removeAll l = m.filter (· ∉ l) := by
    apply List.filter_congr
    intro x _
    simp
  rw [firsts, List.eraseDups_append, hfresh]
  rfl

theorem firsts_concat (l : List κ) (a : κ) : firsts (l ++ [a]) = if a ∈ l then firsts l else firsts l ++ [a] := by
  rw [firsts_append]
  by_cases ha : a ∈ l
  · simp [fresh, ha, firsts]
  · simp [fresh, ha, firsts, List.eraseDups_cons]

theorem firsts_filter (l : List κ) (p : κ → Bool) : firsts (l.filter p) = (firsts l).filter p := by
  induction l using List.reverseRecOn with
  | nil => rfl
  | append_singleton l a ih =>
    rw [List.filter_append, firsts_concat]
    cases ha : p a with
    | true =>
      have hmem : a ∈ l.filter p ↔ a ∈ l := by simp [ha]
      have hsingle : [a].filter p = [a] := List.filter_cons_of_pos ha
      rw [hsingle, firsts_concat, ih]
      by_cases hl : a ∈ l
      · rw [if_pos (hmem.mpr hl), if_pos hl]
      · rw [if_neg fun hm => hl (hmem.mp hm), if_neg hl, List.filter_append, hsingle]
    | false =>
      have hsingle : [a].filter p = [] := List.filter_cons_of_neg (by simp [ha])
      rw [hsingle, List.append_nil, ih]
      split
      next => rfl
      next => rw [List.filter_append, hsingle, List.append_nil]

theorem nodup_firsts (l : List κ) : (firsts l).Nodup := by
  induction l using List.reverseRecOn with
  | nil => exact List.nodup_nil
  | append_singleton l a ih =>
    rw [firsts_concat]
    split
    next => exact ih
    next ha =>
      refine List.nodup_append.mpr ⟨ih, List.nodup_singleton a, ?_⟩
      intro x hx y hy hxy
      rw [List.mem_singleton.mp hy] at hxy
      exact ha (hxy ▸ mem_firsts.mp hx)

theorem fresh_append (before l m : List κ) :
    fresh before (l ++ m) = fresh before l ++ fresh (before ++ l) m := by
  unfold fresh
  rw [List.filter_append, firsts_append, fresh, List.filter_filter]
  congr 2
  apply List.filter_congr
  intro x hx
  by_cases hb : x ∈ before <;> simp [hb]

theorem fresh_congr {before before' : List κ} (l : List κ) (h : ∀ x ∈ l, x ∈ before ↔ x ∈ before') :
    fresh before l = fresh before' l := by
  unfold fresh
  congr 1
  apply List.filter_congr
  intro x hx
  simp [h x hx]

/-- Of two lists one begins with the other. -/
def Comparable (l m : List κ) : Prop := l <+: m ∨ m <+: l

/-- Leaving more out keeps lists comparable. -/
theorem comparable_fresh {before before' l m : List κ} (hsub : ∀ x ∈ before, x ∈ before')
    (h : Comparable (fresh before l) (fresh before m)) : Comparable (fresh before' l) (fresh before' m) := by
  have hfilter (l : List κ) : fresh before' l = (fresh before l).filter (· ∉ before') := by
    unfold fresh
    rw [← firsts_filter, List.filter_filter]
    congr 1
    apply List.filter_congr
    intro x _
    by_cases hb : x ∈ before'
    · simp [hb]
    · have hb' : x ∉ before := fun hx => hb (hsub x hx)
      simp [hb, hb']
  rw [hfilter l, hfilter m]
  exact h.imp (fun hl => hl.filter _) fun hm => hm.filter _

theorem fresh_of_extension {before l m : List κ} (h : fresh before l <+: fresh before m) :
    fresh before (l ++ m) = fresh before m ∧ fresh before (m ++ l) = fresh before m := by
  have hmem (l : List κ) (x : κ) : x ∈ fresh before l ↔ x ∈ l ∧ x ∉ before := by simp [fresh, mem_firsts]
  have hsub : ∀ x ∈ l, x ∉ before → x ∈ m := by
    intro x hx hb
    exact ((hmem m x).mp (h.subset ((hmem l x).mpr ⟨hx, hb⟩))).1
  have hrest : fresh (before ++ m) l = [] := by
    unfold fresh
    have hnone : l.filter (· ∉ before ++ m) = [] := by
      apply List.filter_eq_nil_iff.mpr
      intro x hx
      by_cases hb : x ∈ before
      · simp [hb]
      · simp [hsub x hx hb]
    rw [hnone]
    rfl
  obtain ⟨rest, hsplit⟩ := h
  have hleft : fresh (before ++ l) m = rest := by
    have hfilter : fresh (before ++ l) m = (fresh before m).filter (· ∉ l) := by
      unfold fresh
      rw [← firsts_filter, List.filter_filter]
      congr 1
      apply List.filter_congr
      intro x _
      by_cases hb : x ∈ before <;> simp [hb]
    have hnone : (fresh before l).filter (· ∉ l) = [] := by
      apply List.filter_eq_nil_iff.mpr
      intro x hx
      simpa using ((hmem l x).mp hx).1
    have hall : rest.filter (· ∉ l) = rest := by
      apply List.filter_eq_self.mpr
      intro x hx
      have hnodup : (fresh before m).Nodup := nodup_firsts _
      rw [← hsplit] at hnodup
      have hxm : x ∈ fresh before m := hsplit ▸ List.mem_append_right _ hx
      have hxb := ((hmem m x).mp hxm).2
      have hxl : x ∉ l := by
        intro hxl
        exact (List.nodup_append.mp hnodup).2.2 x ((hmem l x).mpr ⟨hxl, hxb⟩) x hx rfl
      simpa using hxl
    rw [hfilter, ← hsplit, List.filter_append, hnone, hall, List.nil_append]
  rw [fresh_append, fresh_append, hleft, hrest, hsplit, List.append_nil]
  exact ⟨rfl, rfl⟩

/-- Comparable lists of new elements may come in either order. -/
theorem firsts_swap {l m : List κ} (before after : List κ) (h : Comparable (fresh before l) (fresh before m)) :
    firsts (before ++ l ++ m ++ after) = firsts (before ++ m ++ l ++ after) := by
  have hswap : fresh before (l ++ m) = fresh before (m ++ l) := by
    rcases h with h | h
    · rw [(fresh_of_extension h).1, (fresh_of_extension h).2]
    · rw [(fresh_of_extension h).1, (fresh_of_extension h).2]
  have hafter : fresh (before ++ (l ++ m)) after = fresh (before ++ (m ++ l)) after :=
    fresh_congr after fun x _ => by simp [or_comm]
  have hshape (l m : List κ) : firsts (before ++ l ++ m ++ after) =
      firsts before ++ (fresh before (l ++ m) ++ fresh (before ++ (l ++ m)) after) := by
    rw [List.append_assoc before l m, List.append_assoc, firsts_append, fresh_append]
  rw [hshape, hshape, hswap, hafter]

/-- What two lists with the same first occurrences begin with is comparable. -/
theorem comparable_of_firsts_eq {before l m rest rest' : List κ}
    (h : firsts (before ++ (l ++ rest)) = firsts (before ++ (m ++ rest'))) :
    Comparable (fresh before l) (fresh before m) := by
  rw [firsts_append, firsts_append] at h
  have htail := List.append_cancel_left h
  have hl : fresh before l <+: fresh before (l ++ rest) := by
    rw [fresh_append]
    exact List.prefix_append _ _
  have hm : fresh before m <+: fresh before (m ++ rest') := by
    rw [fresh_append]
    exact List.prefix_append _ _
  rw [htail] at hl
  exact List.prefix_or_prefix_of_prefix hl hm

end Firsts

end Ties
