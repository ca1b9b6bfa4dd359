import AgentNetwork.Library.PythonNumber
import AgentNetwork.Library.PythonText
import Mathlib.Data.List.Sort

/-! Truth, equality, order and iteration of JSON values in a Python program, and
what they raise on values of another type. -/

namespace Python

inductive Exn
  | typeError (message : String)
  | attributeError (message : String)
  deriving DecidableEq

def truthy : Json → Bool
  | .null => false
  | .bool b => b
  | .int n => n ≠ 0
  | .float literal => Number.ofLiteral literal ≠ .finite 0
  | .str s => s ≠ ""
  | .arr items => !items.isEmpty
  | .obj fields => !fields.isEmpty

/-- `a == b` of numbers: a value that is no number equals nothing. -/
def Number.equal (a b : Number) : Bool := a ≠ .nan && a = b

def equalNumbers (a b : Json) : Bool :=
  match Number.ofJson? a, Number.ofJson? b with
  | some m, some n => m.equal n
  | _, _ => false

mutual

/-- `a == b`; the order of the keys of a dictionary does not matter. -/
def equal : Json → Json → Bool
  | .null, b => match b with
    | .null => true
    | _ => false
  | .str s, b => match b with
    | .str t => s = t
    | _ => false
  | .arr xs, b => match b with
    | .arr ys => equalItems xs ys
    | _ => false
  | .obj xs, b => match b with
    | .obj ys => xs.length = ys.length && equalFields xs ys
    | _ => false
  | .bool p, b => equalNumbers (.bool p) b
  | .int n, b => equalNumbers (.int n) b
  | .float literal, b => equalNumbers (.float literal) b

def equalItems : List Json → List Json → Bool
  | [], [] => true
  | x :: xs, y :: ys => equal x y && equalItems xs ys
  | _, _ => false

/-- Each field is in the other dictionary, with an equal value. -/
def equalFields : List (String × Json) → List (String × Json) → Bool
  | [], _ => true
  | (key, x) :: xs, ys =>
    (match ys.lookup key with
      | some y => equal x y
      | none => false) && equalFields xs ys

end

mutual

/-- Whether two members of containers count as equal: they are one object, as the
values that are no number are, or equal. -/
def same : Json → Json → Bool
  | .arr xs, b => match b with
    | .arr ys => sameItems xs ys
    | _ => false
  | .obj xs, b => match b with
    | .obj ys => xs.length = ys.length && sameFields xs ys
    | _ => false
  | .null, b => equal .null b
  | .str s, b => equal (.str s) b
  | .bool p, b => equalNumbers (.bool p) b
  | .int n, b => equalNumbers (.int n) b
  | .float literal, b => decide (b = .float literal) || equalNumbers (.float literal) b

def sameItems : List Json → List Json → Bool
  | [], [] => true
  | x :: xs, y :: ys => same x y && sameItems xs ys
  | _, _ => false

def sameFields : List (String × Json) → List (String × Json) → Bool
  | [], _ => true
  | (key, x) :: xs, ys =>
    (match ys.lookup key with
      | some y => same x y
      | none => false) && sameFields xs ys

end

inductive Comparison
  | less
  | greater
  deriving DecidableEq

namespace Comparison

def symbol : Comparison → String
  | less => "<"
  | greater => ">"

def numbers : Comparison → Number → Number → Bool
  | less, a, b => a.lt b
  | greater, a, b => b.lt a

def texts : Comparison → String → String → Bool
  | less, s, t => s < t
  | greater, s, t => t < s

def notSupported (c : Comparison) (a b : Json) : Exn :=
  .typeError s!"'{c.symbol}' not supported between instances of '{typeName a}' and '{typeName b}'"

def scalars (c : Comparison) (a b : Json) : Except Exn Bool :=
  match Number.ofJson? a, Number.ofJson? b with
  | some m, some n => .ok (c.numbers m n)
  | _, _ => .error (c.notSupported a b)

mutual

/-- `a < b` or `a > b`; lists are compared at the first place where they differ. -/
def compare (c : Comparison) : Json → Json → Except Exn Bool
  | .str s, b => match b with
    | .str t => .ok (c.texts s t)
    | _ => .error (c.notSupported (.str s) b)
  | .arr xs, b => match b with
    | .arr ys => compareItems c xs ys
    | _ => .error (c.notSupported (.arr xs) b)
  | .null, b => scalars c .null b
  | .obj xs, b => scalars c (.obj xs) b
  | .bool p, b => scalars c (.bool p) b
  | .int n, b => scalars c (.int n) b
  | .float literal, b => scalars c (.float literal) b

def compareItems (c : Comparison) : List Json → List Json → Except Exn Bool
  | [], ys => .ok (c = .less && !ys.isEmpty)
  | _ :: _, [] => .ok (c = .greater)
  | x :: xs, y :: ys => if equal x y then compareItems c xs ys else compare c x y

end

theorem compare_numbers (c : Comparison) {a b : Json} {m n : Number} (ha : Number.ofJson? a = some m)
    (hb : Number.ofJson? b = some n) : c.compare a b = .ok (c.numbers m n) := by
  cases a with
  | str | arr => cases ha
  | null | bool | int | float | obj => simp only [compare, scalars, ha, hb]

theorem compare_ok_of_number {c : Comparison} {a b : Json} {less : Bool} (h : c.compare a b = .ok less)
    (hb : (Number.ofJson? b).isSome = true) : (Number.ofJson? a).isSome = true := by
  cases b with
  | null | str | arr | obj => cases hb
  | bool | int | float =>
    cases a with
    | bool | int | float => rfl
    | str | arr | null | obj => simp [compare, scalars, Number.ofJson?] at h

end Comparison

/-- A value put into its place in an ascending list; comparing two may raise. -/
def insertValue (value : Json) : List Json → Except Exn (List Json)
  | [] => .ok [value]
  | next :: rest => do
    if ← Comparison.less.compare next value then
      let placed ← insertValue value rest
      .ok (next :: placed)
    else .ok (value :: next :: rest)

/-- `sorted(values)`. -/
def sortValues : List Json → Except Exn (List Json)
  | [] => .ok []
  | value :: rest => do
    let ascending ← sortValues rest
    insertValue value ascending

/-- `xs == ys` of two lists, where one object equals itself. -/
def sameValues : List Json → List Json → Bool
  | [], [] => true
  | x :: xs, y :: ys => (decide (x = y) || equal x y) && sameValues xs ys
  | _, _ => false

/-- No value is less than the one before it. -/
def Ascending (values : List Json) : Prop := values.IsChain fun a b => Comparison.less.compare b a = .ok false

theorem sameValues_self (values : List Json) : sameValues values values = true := by
  induction values with
  | nil => rfl
  | cons value rest ih => simp [sameValues, ih]

theorem Number.lt_self (n : Number) : n.lt n = false := by
  cases n <;> simp [lt, le]

theorem Number.equal_of_lt {m n : Number} (h : m.lt n = true) : n.equal m = false := by
  cases hequal : n.equal m with
  | false => rfl
  | true =>
    simp only [Number.equal, Bool.and_eq_true, decide_eq_true_eq] at hequal
    rw [hequal.2, lt_self] at h
    cases h

namespace Comparison

theorem scalars_self (a : Json) : less.scalars a a ≠ .ok true := by
  unfold scalars
  cases Number.ofJson? a with
  | none => nofun
  | some n => simp [numbers, Number.lt_self]

theorem not_equal_of_scalars {a b : Json} (h : less.scalars a b = .ok true) : equal b a = false := by
  unfold scalars at h
  cases ha : Number.ofJson? a with
  | none =>
    rw [ha] at h
    cases h
  | some m =>
    cases hb : Number.ofJson? b with
    | none =>
      rw [ha, hb] at h
      cases h
    | some n =>
      rw [ha, hb] at h
      have hequal : n.equal m = false := Number.equal_of_lt (by simpa [numbers] using h)
      cases b with
      | null | str | arr | obj => cases hb
      | bool | int | float =>
        unfold equal equalNumbers
        rw [hb, ha]
        exact hequal

mutual

theorem compare_self (a : Json) : less.compare a a ≠ .ok true :=
  match a with
  | .str s => by simp [compare, texts]
  | .arr xs => by
    unfold compare
    exact compareItems_self xs
  | .null | .bool _ | .int _ | .float _ | .obj _ => by
    unfold compare
    exact scalars_self _

theorem compareItems_self (xs : List Json) : less.compareItems xs xs ≠ .ok true :=
  match xs with
  | [] => by simp [compareItems]
  | x :: rest => by
    unfold compareItems
    split
    next => exact compareItems_self rest
    next => exact compare_self x

end

mutual

theorem not_equal_of_less {a b : Json} (h : less.compare a b = .ok true) : equal b a = false := by
  match a with
  | .str s =>
    cases b with
    | str t =>
      have hlt : s < t := by simpa [compare, texts] using h
      have hne : t ≠ s := fun heq => String.lt_irrefl s (heq ▸ hlt)
      simpa [equal] using hne
    | null | bool | int | float | arr | obj => simp [compare] at h
  | .arr xs =>
    match b with
    | .arr ys =>
      unfold compare at h
      unfold equal
      exact not_equalItems_of_less h
    | .null | .bool _ | .int _ | .float _ | .str _ | .obj _ => simp [compare] at h
  | .null | .bool _ | .int _ | .float _ | .obj _ =>
    unfold compare at h
    exact not_equal_of_scalars h

theorem not_equalItems_of_less {xs ys : List Json} (h : less.compareItems xs ys = .ok true) :
    equalItems ys xs = false := by
  match xs, ys with
  | [], [] => simp [compareItems] at h
  | [], _ :: _ => rfl
  | _ :: _, [] => simp [compareItems] at h
  | x :: xs, y :: ys =>
    unfold compareItems at h
    unfold equalItems
    split at h
    next => rw [not_equalItems_of_less h, Bool.and_false]
    next => rw [not_equal_of_less h, Bool.false_and]

end

end Comparison

theorem insertValue_of_head {value : Json} {ascending : List Json}
    (h : ∀ next ∈ ascending.head?, Comparison.less.compare next value = .ok false) :
    insertValue value ascending = .ok (value :: ascending) := by
  cases ascending with
  | nil => rfl
  | cons next rest =>
    unfold insertValue
    rw [h next rfl]
    rfl

/-- A value that moves back leaves a lesser one in its place. -/
theorem insertValue_of_same {value : Json} {rest ascending placed : List Json}
    (h : insertValue value ascending = .ok placed) (hsame : sameValues (value :: rest) placed = true) :
    placed = value :: ascending ∧ ∀ next ∈ ascending.head?, Comparison.less.compare next value = .ok false := by
  cases ascending with
  | nil =>
    cases h
    exact ⟨rfl, nofun⟩
  | cons next others =>
    unfold insertValue at h
    cases hless : Comparison.less.compare next value with
    | error e =>
      rw [hless] at h
      cases h
    | ok less =>
      rw [hless] at h
      cases less with
      | false =>
        cases h
        refine ⟨rfl, fun other hother => ?_⟩
        cases hother
        exact hless
      | true =>
        cases hplaced : insertValue value others with
        | error e =>
          rw [hplaced] at h
          cases h
        | ok placed =>
          rw [hplaced] at h
          cases h
          have hequal := Comparison.not_equal_of_less hless
          have hne : value ≠ next := fun heq => Comparison.compare_self next (heq ▸ hless)
          simp [sameValues, hequal, hne] at hsame

theorem Ascending.sortValues {values : List Json} (h : Ascending values) : sortValues values = .ok values := by
  induction values with
  | nil => rfl
  | cons value rest ih =>
    obtain ⟨hhead, hrest⟩ := List.isChain_cons.mp h
    unfold Python.sortValues
    rw [ih hrest]
    exact insertValue_of_head hhead

/-- A list is as it is sorted only if it is in order already. -/
theorem ascending_of_sortValues {values sorted : List Json} (h : sortValues values = .ok sorted)
    (hsame : sameValues values sorted = true) : sorted = values ∧ Ascending values := by
  induction values generalizing sorted with
  | nil =>
    cases h
    exact ⟨rfl, .nil⟩
  | cons value rest ih =>
    unfold sortValues at h
    cases hrest : sortValues rest with
    | error e =>
      rw [hrest] at h
      cases h
    | ok ascending =>
      rw [hrest] at h
      obtain ⟨rfl, hhead⟩ := insertValue_of_same h hsame
      have htail : sameValues rest ascending = true := by
        rw [sameValues, Bool.and_eq_true] at hsame
        exact hsame.2
      obtain ⟨rfl, hchain⟩ := ih hrest htail
      exact ⟨rfl, List.isChain_cons.mpr ⟨hhead, hchain⟩⟩

theorem insertValue_perm {value : Json} {ascending placed : List Json} (h : insertValue value ascending = .ok placed) :
    placed.Perm (value :: ascending) := by
  induction ascending generalizing placed with
  | nil =>
    cases h
    exact .refl _
  | cons next rest ih =>
    unfold insertValue at h
    cases hless : Comparison.less.compare next value with
    | error e =>
      rw [hless] at h
      cases h
    | ok less =>
      rw [hless] at h
      cases less with
      | false =>
        cases h
        exact .refl _
      | true =>
        cases hplaced : insertValue value rest with
        | error e =>
          rw [hplaced] at h
          cases h
        | ok others =>
          rw [hplaced] at h
          cases h
          exact ((ih hplaced).cons next).trans (.swap value next rest)

theorem sortValues_perm {values sorted : List Json} (h : sortValues values = .ok sorted) : sorted.Perm values := by
  induction values generalizing sorted with
  | nil =>
    cases h
    exact .refl _
  | cons value rest ih =>
    unfold sortValues at h
    cases hrest : sortValues rest with
    | error e =>
      rw [hrest] at h
      cases h
    | ok ascending =>
      rw [hrest] at h
      exact (insertValue_perm h).trans ((ih hrest).cons value)

theorem insertValue_texts (text : String) (texts : List String) :
    insertValue (.str text) (texts.map Json.str) = .ok ((texts.orderedInsert (· ≤ ·) text).map Json.str) := by
  induction texts with
  | nil => rfl
  | cons next rest ih =>
    have hcompare : Comparison.less.compare (.str next) (.str text) = .ok (decide (next < text)) := by
      simp only [Comparison.compare, Comparison.texts]
    rw [List.map_cons, insertValue, ih, hcompare, List.orderedInsert]
    by_cases hle : text ≤ next
    · rw [if_pos hle, decide_eq_false (not_lt.mpr hle)]
      rfl
    · rw [if_neg hle, decide_eq_true (not_le.mp hle)]
      rfl

/-- Texts are always sorted. -/
theorem sortValues_texts (texts : List String) :
    sortValues (texts.map Json.str) = .ok ((texts.insertionSort (· ≤ ·)).map Json.str) := by
  induction texts with
  | nil => rfl
  | cons text rest ih =>
    rw [List.map_cons, sortValues, ih]
    exact insertValue_texts text _

/-- The fields of a dictionary whose method is called. -/
def asDict (method : String) (value : Json) : Except Exn (List (String × Json)) :=
  match value with
  | .obj fields => .ok fields
  | _ => .error (.attributeError s!"'{typeName value}' object has no attribute '{method}'")

/-- The items of `for item in value`. -/
def iterate : Json → Except Exn (List Json)
  | .arr items => .ok items
  | .obj fields => .ok (fields.map fun field => .str field.1)
  | .str s => .ok (s.toList.map fun c => .str (String.singleton c))
  | value => .error (.typeError s!"'{typeName value}' object is not iterable")

/-- `set(value)`, as the list of its members. -/
def toSet (value : Json) : Except Exn (List Json) := do
  let items ← iterate value
  match items.find? fun item => !item.hashable with
  | some item => .error (.typeError s!"unhashable type: '{typeName item}'")
  | none => .ok items

theorem toSet_eq_ok {value : Json} {set : List Json} :
    toSet value = .ok set ↔ iterate value = .ok set ∧ ∀ item ∈ set, item.hashable = true := by
  unfold toSet
  cases iterate value with
  | error e => simp [Bind.bind, Except.bind]
  | ok items =>
    have hnone : (items.find? fun item => !item.hashable) = none ↔ ∀ item ∈ items, item.hashable = true := by
      simp [List.find?_eq_none]
    cases hfind : items.find? fun item => !item.hashable with
    | some item =>
      have hbad : ¬∀ item ∈ items, item.hashable = true := by simp [← hnone, hfind]
      simp only [Bind.bind, Except.bind, hfind, Except.ok.injEq, reduceCtorEq, false_iff]
      rintro ⟨rfl, hall⟩
      exact hbad hall
    | none =>
      have hall := hnone.mp hfind
      simp only [Bind.bind, Except.bind, hfind, Except.ok.injEq]
      constructor
      · rintro rfl
        exact ⟨rfl, hall⟩
      · exact fun h => h.1

/-- The members of a list that a loop keeps; the check may raise. -/
def keepWhere {α ε : Type} (check : α → Except ε Bool) : List α → Except ε (List α)
  | [] => .ok []
  | a :: rest => do
    let kept ← check a
    let others ← keepWhere check rest
    .ok (if kept then a :: others else others)

theorem keepWhere_ok {α ε : Type} {check : α → Except ε Bool} {l kept : List α} (h : keepWhere check l = .ok kept) :
    (∀ a ∈ kept, a ∈ l ∧ check a = .ok true) ∧ kept.Sublist l := by
  induction l generalizing kept with
  | nil =>
    cases h
    exact ⟨nofun, .slnil⟩
  | cons a rest ih =>
    unfold keepWhere at h
    cases hcheck : check a with
    | error e =>
      rw [hcheck] at h
      cases h
    | ok b =>
      cases hrest : keepWhere check rest with
      | error e =>
        rw [hcheck, hrest] at h
        cases h
      | ok others =>
        rw [hcheck, hrest] at h
        cases h
        obtain ⟨hmem, hsub⟩ := ih hrest
        cases b with
        | false => exact ⟨fun x hx => ⟨List.mem_cons_of_mem _ (hmem x hx).1, (hmem x hx).2⟩, hsub.cons a⟩
        | true =>
          refine ⟨?_, hsub.cons_cons a⟩
          intro x hx
          rcases List.mem_cons.mp hx with rfl | hx
          · exact ⟨List.mem_cons_self, hcheck⟩
          · exact ⟨List.mem_cons_of_mem _ (hmem x hx).1, (hmem x hx).2⟩

/-- The loop raises just when the check does on a member. -/
theorem keepWhere_error_iff {α ε : Type} {check : α → Except ε Bool} {l : List α} :
    (∃ e, keepWhere check l = .error e) ↔ ∃ a ∈ l, ∃ e, check a = .error e := by
  induction l with
  | nil => exact iff_of_false (fun ⟨_, h⟩ => nomatch h) fun ⟨_, ha, _⟩ => nomatch ha
  | cons a rest ih =>
    rw [List.exists_mem_cons_iff, ← ih, keepWhere]
    cases hcheck : check a with
    | error e => exact iff_of_true ⟨e, rfl⟩ (Or.inl ⟨e, rfl⟩)
    | ok kept =>
      cases hrest : keepWhere check rest with
      | error e => exact iff_of_true ⟨e, rfl⟩ (Or.inr ⟨e, rfl⟩)
      | ok others =>
        refine iff_of_false (fun ⟨_, h⟩ => nomatch h) ?_
        rintro (⟨_, h⟩ | ⟨_, h⟩)
        · cases h
        · cases h

/-- A filter that looks at each element by itself and keeps the order. -/
def Pointwise {α ε : Type} (f : List α → Except ε (List α)) : Prop :=
  ∀ l kept, f l = .ok kept → kept.Sublist l ∧ ∀ a ∈ l, a ∈ kept ↔ f [a] = .ok [a]

theorem pointwise_all {α ε : Type} : Pointwise (ε := ε) fun l : List α => .ok l := by
  rintro l _ ⟨⟩
  exact ⟨List.Sublist.refl l, fun a ha => iff_of_true ha rfl⟩

theorem keepWhere_singleton {α ε : Type} {check : α → Except ε Bool} {a : α} :
    keepWhere check [a] = .ok [a] ↔ check a = .ok true := by
  unfold keepWhere keepWhere
  cases check a with
  | error e => simp [bind, Except.bind]
  | ok kept => cases kept <;> simp [bind, Except.bind]

theorem mem_keepWhere {α ε : Type} {check : α → Except ε Bool} {l kept : List α} (h : keepWhere check l = .ok kept) {a : α}
    (ha : a ∈ l) (hcheck : check a = .ok true) : a ∈ kept := by
  induction l generalizing kept with
  | nil => cases ha
  | cons b rest ih =>
    unfold keepWhere at h
    cases hb : check b with
    | error e =>
      rw [hb] at h
      cases h
    | ok keep =>
      cases hothers : keepWhere check rest with
      | error e =>
        rw [hb, hothers] at h
        cases h
      | ok others =>
        rw [hb, hothers] at h
        cases h
        rcases List.mem_cons.mp ha with rfl | hrest
        · rw [hcheck] at hb
          cases hb
          exact List.mem_cons_self
        · have hlater := ih hothers hrest
          cases keep with
          | true => exact List.mem_cons_of_mem _ hlater
          | false => exact hlater

theorem pointwise_keepWhere {α ε : Type} (check : α → Except ε Bool) : Pointwise (keepWhere check) := by
  intro l kept h
  obtain ⟨hkept, hsub⟩ := keepWhere_ok h
  refine ⟨hsub, fun a ha => ?_⟩
  rw [keepWhere_singleton]
  exact ⟨fun hmem => (hkept a hmem).2, mem_keepWhere h ha⟩

/-- A loop none of whose rounds raises. -/
theorem mapM_ok {α β ε : Type} {f : α → Except ε β} {g : α → β} {l : List α} (h : ∀ a ∈ l, f a = .ok (g a)) :
    l.mapM f = .ok (l.map g) := by
  induction l with
  | nil => rfl
  | cons a rest ih =>
    obtain ⟨ha, hrest⟩ := List.forall_mem_cons.mp h
    rw [List.mapM_cons, ha, ih hrest]
    rfl

end Python
