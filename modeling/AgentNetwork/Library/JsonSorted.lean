import AgentNetwork.Library.JsonWriter

/-! Text with sorted keys reads back as the value with its keys sorted. -/

namespace Json

def sortFields (fields : List (String × Json)) : List (String × Json) :=
  fields.insertionSort fun a b => a.1 ≤ b.1

theorem perm_sortFields (fields : List (String × Json)) : (sortFields fields).Perm fields := List.perm_insertionSort _ _

mutual

/-- The value with the keys of every object in order. -/
def sorted : Json → Json
  | .arr items => .arr (sortedItems items)
  | .obj fields => .obj (sortFields (sortedFields fields))
  | .null => .null
  | .bool b => .bool b
  | .int n => .int n
  | .float literal => .float literal
  | .str s => .str s

def sortedItems : List Json → List Json
  | [] => []
  | item :: rest => sorted item :: sortedItems rest

def sortedFields : List (String × Json) → List (String × Json)
  | [] => []
  | (key, value) :: rest => (key, sorted value) :: sortedFields rest

end

theorem encodeFields_eq_map (style : Style) (fields : List (String × Json)) :
    encodeFields style fields = fields.map fun field => (field.1, encode style field.2) := by
  induction fields with
  | nil => rfl
  | cons field rest ih => simp [encodeFields, ih]

theorem sortedFields_eq_map (fields : List (String × Json)) :
    sortedFields fields = fields.map fun field => (field.1, sorted field.2) := by
  induction fields with
  | nil => rfl
  | cons field rest ih => simp [sortedFields, ih]

theorem keys_sortedFields (fields : List (String × Json)) : (sortedFields fields).map Prod.fst = fields.map Prod.fst := by
  rw [sortedFields_eq_map, List.map_map]
  rfl

/-- Sorting the texts of fields is sorting the fields. -/
theorem sortByKey_encodeFields (style : Style) (fields : List (String × Json)) :
    sortByKey (encodeFields style fields) = encodeFields style (sortFields fields) := by
  rw [encodeFields_eq_map, encodeFields_eq_map, sortByKey, sortFields]
  symm
  apply List.map_insertionSort
  intro a _ b _
  exact Iff.rfl

section Unsorted

variable (itemSeparator keySeparator : String)

mutual

/-- The text with sorted keys is the text of the value with its keys sorted. -/
theorem encode_sorted (value : Json) :
    encode ⟨true, itemSeparator, keySeparator⟩ value = encode ⟨false, itemSeparator, keySeparator⟩ (sorted value) := by
  cases value with
  | null => rfl
  | bool b => cases b <;> rfl
  | int n => rfl
  | float literal => rfl
  | str s => rfl
  | arr items => simp only [encode, sorted, encodeItems_sorted items]
  | obj fields =>
    have hfields := encodeFields_sorted fields
    have hsort := sortByKey_encodeFields ⟨false, itemSeparator, keySeparator⟩ (sortedFields fields)
    simp only [encode, sorted, joinFields, hfields, if_true, hsort]
    rfl

theorem encodeItems_sorted (items : List Json) :
    encodeItems ⟨true, itemSeparator, keySeparator⟩ items =
      encodeItems ⟨false, itemSeparator, keySeparator⟩ (sortedItems items) := by
  cases items with
  | nil => rfl
  | cons item rest => simp only [encodeItems, sortedItems, encode_sorted item, encodeItems_sorted rest]

theorem encodeFields_sorted (fields : List (String × Json)) :
    encodeFields ⟨true, itemSeparator, keySeparator⟩ fields =
      encodeFields ⟨false, itemSeparator, keySeparator⟩ (sortedFields fields) := by
  cases fields with
  | nil => rfl
  | cons field rest =>
    obtain ⟨key, value⟩ := field
    simp only [encodeFields, sortedFields, encode_sorted value, encodeFields_sorted rest]

end

end Unsorted

mutual

theorem wellFormed_sorted (value : Json) (h : wellFormed value = true) : wellFormed (sorted value) = true := by
  cases value with
  | null | bool | int | str => rfl
  | float literal => exact h
  | arr items => exact wellFormedItems_sorted items h
  | obj fields =>
    obtain ⟨hnodup, hvalues⟩ := wellFormedFields_iff.mp (wellFormedFields_sorted fields h)
    have hperm := perm_sortFields (sortedFields fields)
    refine wellFormedFields_iff.mpr ⟨(hperm.map Prod.fst).nodup_iff.mpr hnodup, ?_⟩
    intro field hfield
    exact hvalues field (hperm.mem_iff.mp hfield)

theorem wellFormedItems_sorted (items : List Json) (h : wellFormedItems items = true) :
    wellFormedItems (sortedItems items) = true := by
  cases items with
  | nil => rfl
  | cons item rest =>
    simp only [wellFormedItems, Bool.and_eq_true] at h
    simp only [sortedItems, wellFormedItems, wellFormed_sorted item h.1, wellFormedItems_sorted rest h.2, Bool.and_self]

theorem wellFormedFields_sorted (fields : List (String × Json)) (h : wellFormedFields fields = true) :
    wellFormedFields (sortedFields fields) = true := by
  cases fields with
  | nil => rfl
  | cons field rest =>
    obtain ⟨key, value⟩ := field
    simp only [wellFormedFields, Bool.and_eq_true, decide_eq_true_eq] at h
    obtain ⟨hkey, hvalue, hrest⟩ := h
    have hkeys := keys_sortedFields rest
    simp only [sortedFields, wellFormedFields, hkeys, hkey, wellFormed_sorted value hvalue,
      wellFormedFields_sorted rest hrest, Bool.and_self, not_false_eq_true, decide_true]

end

/-- Values change under the sort by key without moving. -/
theorem sortFields_map (f : String → Json → Json) (fields : List (String × Json)) :
    sortFields (fields.map fun field => (field.1, f field.1 field.2)) =
      (sortFields fields).map fun field => (field.1, f field.1 field.2) := by
  symm
  apply List.map_insertionSort
  intro a _ b _
  exact Iff.rfl

theorem sortedFields_sortFields (fields : List (String × Json)) :
    sortedFields (sortFields fields) = sortFields (sortedFields fields) := by
  rw [sortedFields_eq_map, sortedFields_eq_map]
  exact (sortFields_map (fun _ => sorted) fields).symm

theorem sortFields_sortFields (fields : List (String × Json)) : sortFields (sortFields fields) = sortFields fields := by
  have : IsTrans (String × Json) fun a b => a.1 ≤ b.1 := ⟨fun _ _ _ => String.le_trans⟩
  have : Std.Total fun a b : String × Json => a.1 ≤ b.1 := ⟨fun a b => String.le_total a.1 b.1⟩
  exact (List.pairwise_insertionSort _ fields).insertionSort_eq

mutual

theorem sorted_sorted (value : Json) : sorted (sorted value) = sorted value := by
  cases value with
  | null | bool | int | str | float => rfl
  | arr items => exact congrArg arr (sortedItems_sortedItems items)
  | obj fields =>
    rw [sorted, sorted, sortedFields_sortFields, sortFields_sortFields, sortedFields_sortedFields fields]

theorem sortedItems_sortedItems (items : List Json) : sortedItems (sortedItems items) = sortedItems items := by
  cases items with
  | nil => rfl
  | cons item rest => rw [sortedItems, sortedItems, sorted_sorted item, sortedItems_sortedItems rest]

theorem sortedFields_sortedFields (fields : List (String × Json)) :
    sortedFields (sortedFields fields) = sortedFields fields := by
  cases fields with
  | nil => rfl
  | cons field rest => rw [sortedFields, sortedFields, sorted_sorted field.2, sortedFields_sortedFields rest]

end

theorem sorted_eq_str {value : Json} {text : String} : sorted value = .str text ↔ value = .str text := by
  cases value <;> simp [sorted]

theorem sortedItems_eq_texts {values : List Json} {texts : List String} :
    sortedItems values = texts.map Json.str ↔ values = texts.map Json.str := by
  induction values generalizing texts with
  | nil => cases texts <;> simp [sortedItems]
  | cons value rest ih =>
    cases texts with
    | nil => simp [sortedItems]
    | cons text texts => simp only [sortedItems, List.map_cons, List.cons.injEq, sorted_eq_str, ih]

/-- Text written with sorted keys reads back as the value with its keys sorted. -/
theorem loads_write_sorted {itemSeparator keySeparator : String}
    (hr : (⟨false, itemSeparator, keySeparator⟩ : Style).Readable) (value : Json) (hw : wellFormed value = true) :
    loads (write ⟨true, itemSeparator, keySeparator⟩ value) = some (sorted value) := by
  rw [write, encode_sorted]
  exact loads_write rfl hr (sorted value) (wellFormed_sorted value hw)

/-- Values have one text with sorted keys just when they are the same up to the order of keys. -/
theorem write_sorted_eq_iff {itemSeparator keySeparator : String}
    (hr : (⟨false, itemSeparator, keySeparator⟩ : Style).Readable) {a b : Json} (ha : wellFormed a = true) (hb : wellFormed b = true) :
    write ⟨true, itemSeparator, keySeparator⟩ a = write ⟨true, itemSeparator, keySeparator⟩ b ↔ sorted a = sorted b := by
  constructor
  · intro h
    have hleft := loads_write_sorted hr a ha
    rw [h, loads_write_sorted hr b hb] at hleft
    exact (Option.some.inj hleft).symm
  · intro h
    rw [write, write, encode_sorted, encode_sorted, h]

theorem mem_of_mem_sorted {fields others : List (String × Json)} (h : sorted (.obj fields) = sorted (.obj others))
    {field : String × Json} (hfield : field ∈ fields) : (field.1, sorted field.2) ∈ sortedFields others := by
  have hsorted : sortFields (sortedFields fields) = sortFields (sortedFields others) := Json.obj.inj h
  have hmem : (field.1, sorted field.2) ∈ sortFields (sortedFields fields) := by
    rw [sortFields, List.mem_insertionSort, sortedFields_eq_map]
    exact List.mem_map.mpr ⟨field, hfield, rfl⟩
  rw [hsorted, sortFields, List.mem_insertionSort] at hmem
  exact hmem

/-- Objects with one text with sorted keys have the same keys. -/
theorem keys_perm_of_write_eq {itemSeparator keySeparator : String}
    (hr : (⟨false, itemSeparator, keySeparator⟩ : Style).Readable) {fields others : List (String × Json)}
    (hfields : wellFormedFields fields = true) (hothers : wellFormedFields others = true)
    (h : write ⟨true, itemSeparator, keySeparator⟩ (.obj fields) = write ⟨true, itemSeparator, keySeparator⟩ (.obj others)) :
    (fields.map Prod.fst).Perm (others.map Prod.fst) := by
  have hleft := loads_write_sorted hr (.obj fields) hfields
  have hright := loads_write_sorted hr (.obj others) hothers
  rw [h, hright] at hleft
  have hsorted : sortFields (sortedFields others) = sortFields (sortedFields fields) :=
    Json.obj.inj (Option.some.inj hleft)
  have hperm : ∀ l : List (String × Json), ((sortFields (sortedFields l)).map Prod.fst).Perm (l.map Prod.fst) := by
    intro l
    rw [← keys_sortedFields l]
    exact (perm_sortFields _).map Prod.fst
  have hkeys := hperm fields
  rw [← hsorted] at hkeys
  exact hkeys.symm.trans (hperm others)

end Json

/-! No text of an object is the beginning of another one: what follows it can be told apart. -/

namespace Json

theorem foldl_failed (text : List Char) (stack : List Frame) : (text.foldl step (.failed, stack)).1 = .failed := by
  induction text with
  | nil => rfl
  | cons c rest ih => exact ih

/-- After a complete value only blanks are read. -/
theorem foldl_after (value : Json) (text : List Char) :
    (text.foldl step (.after value, []) = (.after value, []) ∧ ∀ c ∈ text, isWhitespace c = true) ∨
      (text.foldl step (.after value, [])).1 = .failed := by
  induction text with
  | nil => exact .inl ⟨rfl, List.forall_mem_nil _⟩
  | cons c rest ih =>
    have hstep : step (.after value, []) c = if isWhitespace c then (.after value, []) else (.failed, []) := rfl
    rw [List.foldl_cons, hstep]
    by_cases hc : isWhitespace c = true
    · rw [if_pos hc]
      rcases ih with ⟨hread, hblank⟩ | hfailed
      · exact .inl ⟨hread, List.forall_mem_cons.mpr ⟨hc, hblank⟩⟩
      · exact .inr hfailed
    · rw [if_neg hc]
      exact .inr (foldl_failed rest [])

section Objects

variable {style : Style} {fields others : List (String × Json)}

theorem read_object (hs : style.sortKeys = false) (hr : style.Readable) (hw : wellFormedFields fields = true) :
    (encode style (.obj fields)).foldl step (.value, []) = (.after (.obj fields), []) := by
  have hopen : step (.value, []) openBrace = (.firstKey, [.fields [] ""]) := rfl
  rw [encode, List.cons_append, List.foldl_cons, hopen]
  cases fields with
  | nil =>
    have hjoin : joinFields style (encodeFields style []) = [] := by simp [joinFields, encodeFields, hs, join]
    rw [hjoin]
    rfl
  | cons field rest =>
    exact read_entries hs hr (field :: rest) hw (List.cons_ne_nil _ _) [] "" [] (Or.inl rfl) (fun f _ hf => by cases hf)

theorem getLast?_object (style : Style) (fields : List (String × Json)) :
    (encode style (.obj fields)).getLast? = some closeBrace := by
  rw [encode, List.getLast?_concat]

theorem append_object (hs : style.sortKeys = false) (hr : style.Readable) (hw : wellFormedFields fields = true)
    (hw' : wellFormedFields others = true) {more : List Char}
    (h : encode style (.obj fields) = encode style (.obj others) ++ more) : more = [] := by
  have hread := read_object hs hr hw
  rw [h, List.foldl_append, read_object hs hr hw'] at hread
  have hblank : ∀ c ∈ more, isWhitespace c = true := by
    rcases foldl_after (.obj others) more with ⟨-, hblank⟩ | hfailed
    · exact hblank
    · rw [hread] at hfailed
      cases hfailed
  rcases List.eq_nil_or_concat more with hnil | ⟨before, last, rfl⟩
  · exact hnil
  · have hlast := getLast?_object style fields
    rw [h, List.concat_eq_append, ← List.append_assoc, List.getLast?_concat] at hlast
    have hclose : isWhitespace last = true := hblank last (by simp)
    rw [Option.some.inj hlast] at hclose
    exact absurd hclose (by decide)

/-- An object and what is put after its text are both in the text that comes out. -/
theorem object_append_inj (hs : style.sortKeys = false) (hr : style.Readable) (hw : wellFormedFields fields = true)
    (hw' : wellFormedFields others = true) {more more' : List Char}
    (h : encode style (.obj fields) ++ more = encode style (.obj others) ++ more') : fields = others ∧ more = more' := by
  have hsame : encode style (.obj fields) = encode style (.obj others) ∧ more = more' := by
    rcases List.append_eq_append_iff.mp h with ⟨between, htext, hmore⟩ | ⟨between, htext, hmore⟩
    · have hnil := append_object hs hr hw' hw htext
      subst hnil
      exact ⟨by simpa using htext.symm, by simpa using hmore⟩
    · have hnil := append_object hs hr hw hw' htext
      subst hnil
      exact ⟨by simpa using htext, by simpa using hmore.symm⟩
  refine ⟨?_, hsame.2⟩
  have hread := read_object hs hr hw
  rw [hsame.1, read_object hs hr hw'] at hread
  cases hread
  rfl

/-- The same for texts with sorted keys. -/
theorem sorted_object_append_inj {itemSeparator keySeparator : String}
    (hr : (⟨false, itemSeparator, keySeparator⟩ : Style).Readable) (hw : wellFormedFields fields = true)
    (hw' : wellFormedFields others = true) {more more' : String}
    (h : write ⟨true, itemSeparator, keySeparator⟩ (.obj fields) ++ more =
      write ⟨true, itemSeparator, keySeparator⟩ (.obj others) ++ more') :
    sorted (.obj fields) = sorted (.obj others) ∧ more = more' := by
  have hchars := congrArg String.toList h
  rw [String.toList_append, String.toList_append, write, write, String.toList_ofList, String.toList_ofList,
    encode_sorted, encode_sorted] at hchars
  obtain ⟨hfields, hmore⟩ :=
    object_append_inj rfl hr (wellFormed_sorted (.obj fields) hw) (wellFormed_sorted (.obj others) hw') hchars
  exact ⟨congrArg Json.obj hfields, String.toList_inj.mp hmore⟩

end Objects

end Json
