import AgentNetwork.Library.JsonSorted
import AgentNetwork.Library.PythonValues
import AgentNetwork.Library.Table

/-! The laws of `==` between values: it is symmetric, and reflexive but for NaN. -/

namespace Python

open Json

theorem Number.equal_comm (m n : Number) : m.equal n = n.equal m := by
  by_cases h : m = n
  · rw [h]
  · simp [Number.equal, h, Ne.symm h]

theorem equalNumbers_comm (a b : Json) : equalNumbers a b = equalNumbers b a := by
  unfold equalNumbers
  cases Number.ofJson? a <;> cases Number.ofJson? b <;> simp [Number.equal_comm]

theorem equalFields_iff {xs ys : List (String × Json)} : equalFields xs ys = true ↔
    ∀ key x, (key, x) ∈ xs → ∃ y, ys.lookup key = some y ∧ equal x y = true := by
  induction xs with
  | nil => simp [equalFields]
  | cons field rest ih =>
    obtain ⟨key, x⟩ := field
    rw [equalFields, Bool.and_eq_true, ih]
    constructor
    · rintro ⟨hfirst, hrest⟩ key' x' hmem
      rcases List.mem_cons.mp hmem with heq | hmem
      · obtain ⟨rfl, rfl⟩ := Prod.mk.inj heq
        cases hy : ys.lookup key' with
        | none => simp [hy] at hfirst
        | some y => exact ⟨y, rfl, by simpa [hy] using hfirst⟩
      · exact hrest key' x' hmem
    · intro h
      obtain ⟨y, hy, hequal⟩ := h key x List.mem_cons_self
      refine ⟨by simpa [hy] using hequal, fun key' x' hmem => h key' x' (List.mem_cons_of_mem _ hmem)⟩

/-- Two dictionaries of one size, one inside the other, have the same keys. -/
theorem key_of_equalFields {xs ys : List (String × Json)} (hx : (xs.map Prod.fst).Nodup) (hlength : xs.length = ys.length)
    (h : equalFields xs ys = true) {key : String} (hkey : key ∈ ys.map Prod.fst) : key ∈ xs.map Prod.fst := by
  have hsub : xs.map Prod.fst ⊆ ys.map Prod.fst := by
    intro k hk
    obtain ⟨⟨k', x⟩, hmem, rfl⟩ := List.mem_map.mp hk
    obtain ⟨y, hy, -⟩ := equalFields_iff.mp h k' x hmem
    by_contra hnone
    rw [List.lookup_eq_none_iff.mpr fun e he => bne_iff_ne.mpr fun heq => hnone (List.mem_map.mpr ⟨e, he, heq.symm⟩)] at hy
    cases hy
  have hperm := (List.subperm_of_subset hx hsub).perm_of_length_le (by simp [hlength])
  exact hperm.mem_iff.mpr hkey

mutual

theorem equal_symm (a b : Json) (ha : a.wellFormed = true) (hb : b.wellFormed = true) (h : equal a b = true) :
    equal b a = true := by
  match a with
  | .null =>
    cases b with
    | null => rfl
    | bool | int | float | str | arr | obj => simp [equal] at h
  | .str s =>
    cases b with
    | str t => simpa [equal, eq_comm] using h
    | null | bool | int | float | arr | obj => simp [equal] at h
  | .arr xs =>
    match b with
    | .arr ys =>
      unfold equal at h ⊢
      exact equalItems_symm xs ys ha hb h
    | .null | .bool _ | .int _ | .float _ | .str _ | .obj _ => simp [equal] at h
  | .obj xs =>
    match b with
    | .obj ys =>
      unfold equal at h ⊢
      obtain ⟨hlength, hfields⟩ := Bool.and_eq_true_iff.mp h
      have hlength : xs.length = ys.length := of_decide_eq_true hlength
      obtain ⟨hx, hxs⟩ := wellFormedFields_iff.mp ha
      obtain ⟨hy, hys⟩ := wellFormedFields_iff.mp hb
      refine Bool.and_eq_true_iff.mpr ⟨decide_eq_true hlength.symm, equalFields_iff.mpr fun key y hmem => ?_⟩
      have hkey := key_of_equalFields hx hlength hfields (List.mem_map.mpr ⟨_, hmem, rfl⟩)
      obtain ⟨⟨key', x⟩, hxmem, heq⟩ := List.mem_map.mp hkey
      change key' = key at heq
      subst heq
      refine ⟨x, (Relational.Table.lookup_eq_some_iff_mem hx).mpr hxmem, ?_⟩
      exact equalFields_symm xs ys hxs hys hfields key' x y hxmem hmem ((Relational.Table.lookup_eq_some_iff_mem hy).mpr hmem)
    | .null | .bool _ | .int _ | .float _ | .str _ | .arr _ => simp [equal] at h
  | .bool _ | .int _ | .float _ =>
    unfold equal at h
    rw [equalNumbers_comm] at h
    cases b with
    | bool | int | float =>
      unfold equal
      exact h
    | null | str | arr | obj => simp [equalNumbers, Number.ofJson?] at h

theorem equalItems_symm (xs ys : List Json) (hx : wellFormedItems xs = true) (hy : wellFormedItems ys = true)
    (h : equalItems xs ys = true) : equalItems ys xs = true := by
  match xs, ys with
  | [], [] => rfl
  | [], _ :: _ => simp [equalItems] at h
  | _ :: _, [] => simp [equalItems] at h
  | x :: xs, y :: ys =>
    unfold wellFormedItems at hx hy
    unfold equalItems at h ⊢
    rw [Bool.and_eq_true] at hx hy h ⊢
    exact ⟨equal_symm x y hx.1 hy.1 h.1, equalItems_symm xs ys hx.2 hy.2 h.2⟩

theorem equalFields_symm (xs ys : List (String × Json)) (hx : ∀ e ∈ xs, e.2.wellFormed = true)
    (hy : ∀ e ∈ ys, e.2.wellFormed = true) (h : equalFields xs ys = true) (key : String) (x y : Json)
    (hmem : (key, x) ∈ xs) (hymem : (key, y) ∈ ys) (hlookup : ys.lookup key = some y) : equal y x = true := by
  match xs with
  | (k, v) :: rest =>
    unfold equalFields at h
    obtain ⟨hfirst, hrest⟩ := Bool.and_eq_true_iff.mp h
    rcases List.mem_cons.mp hmem with heq | hmem
    · obtain ⟨rfl, rfl⟩ := Prod.mk.inj heq
      rw [hlookup] at hfirst
      exact equal_symm x y (hx _ List.mem_cons_self) (hy _ hymem) hfirst
    · exact equalFields_symm rest ys (fun e he => hx e (List.mem_cons_of_mem _ he)) hy hrest key x y hmem hymem hlookup

end

theorem equal_comm {a b : Json} (ha : a.wellFormed = true) (hb : b.wellFormed = true) : equal a b = equal b a :=
  Bool.eq_iff_iff.mpr ⟨equal_symm a b ha hb, equal_symm b a hb ha⟩

mutual

/-- Whether the value holds a number that is not equal to itself. -/
def hasNaN : Json → Bool
  | .float literal => Number.ofLiteral literal = .nan
  | .arr items => hasNaNItems items
  | .obj fields => hasNaNFields fields
  | .null | .bool _ | .int _ | .str _ => false

def hasNaNItems : List Json → Bool
  | [] => false
  | item :: rest => hasNaN item || hasNaNItems rest

def hasNaNFields : List (String × Json) → Bool
  | [] => false
  | (_, value) :: rest => hasNaN value || hasNaNFields rest

end

mutual

/-- A value that was read twice from the same text equals itself just when it holds no NaN. -/
theorem equal_self (a : Json) (ha : a.wellFormed = true) : equal a a = !hasNaN a := by
  match a with
  | .null => rfl
  | .str s => simp [equal, hasNaN]
  | .bool p => simp [equal, equalNumbers, Number.ofJson?, Number.equal, hasNaN]
  | .int n => simp [equal, equalNumbers, Number.ofJson?, Number.equal, hasNaN]
  | .float literal => simp [equal, equalNumbers, Number.ofJson?, Number.equal, hasNaN]
  | .arr xs =>
    unfold equal hasNaN
    exact equalItems_self xs ha
  | .obj xs =>
    unfold equal hasNaN
    obtain ⟨hx, hxs⟩ := wellFormedFields_iff.mp ha
    change (decide (xs.length = xs.length) && equalFields xs xs) = _
    rw [decide_eq_true rfl, Bool.true_and]
    exact equalFields_self xs xs hxs fun key x hmem => (Relational.Table.lookup_eq_some_iff_mem hx).mpr hmem

theorem equalItems_self (xs : List Json) (hx : wellFormedItems xs = true) : equalItems xs xs = !hasNaNItems xs := by
  match xs with
  | [] => rfl
  | x :: xs =>
    unfold wellFormedItems at hx
    rw [Bool.and_eq_true] at hx
    unfold equalItems hasNaNItems
    rw [equal_self x hx.1, equalItems_self xs hx.2, Bool.not_or]

theorem equalFields_self (xs ys : List (String × Json)) (hx : ∀ e ∈ xs, e.2.wellFormed = true)
    (hlookup : ∀ key x, (key, x) ∈ xs → ys.lookup key = some x) : equalFields xs ys = !hasNaNFields xs := by
  match xs with
  | [] => rfl
  | (key, x) :: rest =>
    unfold equalFields hasNaNFields
    rw [hlookup key x List.mem_cons_self]
    dsimp only
    rw [equal_self x (hx (key, x) List.mem_cons_self),
      equalFields_self rest ys (fun e he => hx e (List.mem_cons_of_mem _ he))
        (fun k v hmem => hlookup k v (List.mem_cons_of_mem _ hmem)), Bool.not_or]

end

/-- The order of keys does not matter to truth. -/
theorem truthy_sorted (value : Json) : truthy value.sorted = truthy value := by
  cases value with
  | arr items => cases items <;> rfl
  | obj fields =>
    cases fields with
    | nil => rfl
    | cons field rest =>
      have hlength := (perm_sortFields (sortedFields (field :: rest))).length_eq
      have hne : sortFields (sortedFields (field :: rest)) ≠ [] := by
        rw [← List.length_pos_iff, hlength]
        exact Nat.succ_pos _
      simpa [sorted, truthy] using hne
  | null | bool | int | float | str => rfl

section Keys

/-- Values that may be keys and are equal cannot be told apart by `==`. -/
theorem equal_key_left {a b : Json} (ha : a.hashable = true) (h : equal a b = true) (c : Json) : equal a c = equal b c := by
  have hnumbers : ∀ {m n : Json}, equalNumbers m n = true → equalNumbers m c = equalNumbers n c := by
    intro m n hmn
    unfold equalNumbers at hmn ⊢
    cases hm : Number.ofJson? m with
    | none => simp [hm] at hmn
    | some x =>
      cases hn : Number.ofJson? n with
      | none => simp [hm, hn] at hmn
      | some y =>
        have hxy : x = y := by
          simp only [hm, hn, Number.equal, Bool.and_eq_true, decide_eq_true_eq] at hmn
          exact hmn.2
        rw [hxy]
  cases a with
  | arr | obj => cases ha
  | null => cases b <;> simp [equal] at h ⊢
  | str s => cases b <;> simp_all [equal]
  | bool | int | float =>
    rw [equal] at h ⊢
    cases b with
    | bool | int | float =>
      rw [equal]
      exact hnumbers h
    | null | str | arr | obj => simp [equalNumbers, Number.ofJson?] at h

theorem equal_key_comm {a b : Json} (ha : a.hashable = true) (hb : b.hashable = true) : equal a b = equal b a := by
  cases a with
  | arr | obj => cases ha
  | null | str =>
    cases b with
    | arr | obj => cases hb
    | null | str => simp [equal, eq_comm]
    | bool | int | float => simp [equal, equalNumbers, Number.ofJson?]
  | bool | int | float =>
    cases b with
    | arr | obj => cases hb
    | null | str => simp [equal, equalNumbers, Number.ofJson?]
    | bool | int | float =>
      rw [equal, equal]
      exact equalNumbers_comm _ _

/-- A key of a dictionary, or a member of a set, is found for a value; the NaN that JSON reads is one object. -/
def isKey (a b : Json) : Bool := decide (a = b) || equal a b

@[simp] theorem isKey_self (a : Json) : isKey a a = true := by
  simp [isKey]

theorem isKey_comm {a b : Json} (ha : a.hashable = true) (hb : b.hashable = true) : isKey a b = isKey b a := by
  rw [isKey, isKey, equal_key_comm ha hb]
  simp only [eq_comm]

theorem isKey_left {a b : Json} (ha : a.hashable = true) (hb : b.hashable = true) (h : isKey a b = true) (c : Json) :
    isKey a c = isKey b c := by
  rcases Bool.or_eq_true _ _ ▸ h with heq | hequal
  · rw [of_decide_eq_true heq]
  · have hsame := equal_key_left ha hequal c
    rw [isKey, isKey, hsame]
    by_cases hac : a = c
    · have hback : equal b c = true := by rw [← hac, equal_key_comm hb ha]; exact hequal
      rw [hback, Bool.or_true, Bool.or_true]
    · by_cases hbc : b = c
      · have hback : equal b c = true := by rw [← hsame, ← hbc]; exact hequal
        rw [hback, Bool.or_true, Bool.or_true]
      · rw [decide_eq_false hac, decide_eq_false hbc]

theorem hashable_of_isKey {a b : Json} (hb : b.hashable = true) (h : isKey a b = true) : a.hashable = true := by
  cases a with
  | arr | obj => cases b <;> simp_all [isKey, equal, Json.hashable]
  | null | bool | int | float | str => rfl

/-- What is a key for one of two equal keys is one for the other. -/
theorem isKey_right {a b : Json} (ha : a.hashable = true) (hb : b.hashable = true) (h : isKey a b = true) (c : Json) :
    isKey c a = isKey c b := by
  by_cases hc : c.hashable = true
  · rw [isKey_comm hc ha, isKey_comm hc hb]
    exact isKey_left ha hb h c
  · have hnot : ∀ {key : Json}, key.hashable = true → isKey c key = false := fun hkey =>
      Bool.eq_false_iff.mpr fun hkeyed => hc (hashable_of_isKey hkey hkeyed)
    rw [hnot ha, hnot hb]

end Keys

end Python
