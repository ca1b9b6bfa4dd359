import Mathlib.Data.Finset.Card
import Mathlib.Data.List.Nodup

/-! Finite sets as a program holds them: their elements in the order in which a
loop visits them. -/

structure ListSet (α : Type) where
  elems : List α
  nodup : elems.Nodup
  deriving DecidableEq

namespace ListSet

variable {α : Type}

def empty : ListSet α := ⟨[], List.nodup_nil⟩

instance : Membership α (ListSet α) := ⟨fun s a => a ∈ s.elems⟩

theorem mem_def {s : ListSet α} {a : α} : a ∈ s ↔ a ∈ s.elems := Iff.rfl

@[simp] theorem not_mem_empty (a : α) : a ∉ (empty : ListSet α) := List.not_mem_nil

variable [DecidableEq α]

instance (s : ListSet α) (a : α) : Decidable (a ∈ s) := inferInstanceAs (Decidable (a ∈ s.elems))

def add (s : ListSet α) (a : α) : ListSet α :=
  if h : a ∈ s.elems then s
  else ⟨s.elems ++ [a], List.nodup_append.mpr ⟨s.nodup, List.nodup_singleton a, by
    intro x hx y hy
    rw [List.mem_singleton.mp hy]
    exact fun he => h (he ▸ hx)⟩⟩

def filter (s : ListSet α) (p : α → Bool) : ListSet α := ⟨s.elems.filter p, s.nodup.filter p⟩

/-- Adds the elements of a list one after the other. -/
def addAll (s : ListSet α) (l : List α) : ListSet α := l.foldl add s

/-- The difference of two sets. -/
def diff (s t : ListSet α) : ListSet α := s.filter fun a => ¬a ∈ t

@[simp] theorem mem_add {s : ListSet α} {a b : α} : b ∈ s.add a ↔ b = a ∨ b ∈ s := by
  unfold add
  split
  next h =>
    constructor
    · exact Or.inr
    · rintro (rfl | hb)
      · exact h
      · exact hb
  next => simp [mem_def, or_comm]

@[simp] theorem mem_addAll {s : ListSet α} {l : List α} {a : α} : a ∈ s.addAll l ↔ a ∈ s ∨ a ∈ l := by
  unfold addAll
  induction l generalizing s with
  | nil => simp
  | cons b rest ih =>
    rw [List.foldl_cons, ih, mem_add, List.mem_cons]
    tauto

theorem add_of_mem {s : ListSet α} {a : α} (h : a ∈ s) : s.add a = s := dif_pos h

theorem elems_add_of_not_mem {s : ListSet α} {a : α} (h : a ∉ s) : (s.add a).elems = s.elems ++ [a] := by
  have h' : a ∉ s.elems := h
  simp [add, h']

omit [DecidableEq α] in
@[simp] theorem mem_filter {s : ListSet α} {p : α → Bool} {a : α} : a ∈ s.filter p ↔ a ∈ s ∧ p a = true :=
  List.mem_filter

@[simp] theorem mem_diff {s t : ListSet α} {a : α} : a ∈ s.diff t ↔ a ∈ s ∧ a ∉ t := by
  simp [diff]

/-- How many elements have the property. -/
def count (s : ListSet α) (p : α → Bool) : Nat := (s.elems.filter p).length

omit [DecidableEq α] in
theorem count_eq_zero {s : ListSet α} {p : α → Bool} : s.count p = 0 ↔ ∀ a ∈ s, p a = false := by
  rw [count, List.length_eq_zero_iff, List.filter_eq_nil_iff]
  simp [mem_def]

omit [DecidableEq α] in
theorem count_congr {s : ListSet α} {p q : α → Bool} (h : ∀ a ∈ s, p a = q a) : s.count p = s.count q :=
  congrArg List.length (List.filter_congr h)

theorem count_add {s : ListSet α} {a : α} (h : a ∉ s) (p : α → Bool) :
    (s.add a).count p = s.count p + if p a then 1 else 0 := by
  rw [count, elems_add_of_not_mem h, List.filter_append, List.length_append]
  cases hp : p a <;> simp [hp, count]

theorem length_filter_ne {l : List α} (hn : l.Nodup) {a : α} (p : α → Bool) (ha : a ∈ l) (hp : p a = true) :
    (l.filter fun b => p b && decide (b ≠ a)).length + 1 = (l.filter p).length := by
  have hsplit : (l.filter p).filter (fun b => decide (b ≠ a)) = (l.filter p).erase a := by
    rw [(hn.filter p).erase_eq_filter a]
    apply List.filter_congr
    intro b _
    by_cases hb : b = a <;> simp [hb]
  rw [List.filter_filter] at hsplit
  have hswap : (l.filter fun b => p b && decide (b ≠ a)) = l.filter fun b => decide (b ≠ a) && p b := by
    apply List.filter_congr
    intro b _
    exact Bool.and_comm _ _
  have hmem : a ∈ l.filter p := List.mem_filter.mpr ⟨ha, hp⟩
  have hpos := List.length_pos_of_mem hmem
  rw [hswap, hsplit, List.length_erase_of_mem hmem]
  omega

/-- Taking one counted element out lowers the count by one. -/
theorem count_except {s : ListSet α} {a : α} {p : α → Bool} (ha : a ∈ s) (hp : p a = true) :
    (s.count fun b => p b && decide (b ≠ a)) + 1 = s.count p := length_filter_ne s.nodup p ha hp

theorem count_except_of_not_mem {s : ListSet α} {a : α} (p : α → Bool) (ha : a ∉ s) :
    (s.count fun b => p b && decide (b ≠ a)) = s.count p := by
  apply count_congr
  intro b hb
  have hne : b ≠ a := fun he => ha (he ▸ hb)
  simp [hne]

end ListSet
