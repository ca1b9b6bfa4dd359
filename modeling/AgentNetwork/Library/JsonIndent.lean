import AgentNetwork.Library.JsonWriter

/-! Writing JSON text over several lines, as `json.dump` does with an indent, and
reading it back. -/

namespace Json

/-- The start of a line at a level of nesting. -/
def lineBreak (indent level : Nat) : List Char := '\n' :: List.replicate (indent * level) ' '

mutual

def encodeIndented (indent level : Nat) : Json → List Char
  | .arr [] => "[]".toList
  | .arr (item :: rest) =>
    '[' :: lineBreak indent (level + 1) ++
      join (',' :: lineBreak indent (level + 1)) (itemsIndented indent (level + 1) (item :: rest)) ++
      lineBreak indent level ++ [']']
  | .obj [] => [openBrace, closeBrace]
  | .obj (field :: rest) =>
    openBrace :: lineBreak indent (level + 1) ++
      join (',' :: lineBreak indent (level + 1)) (fieldsIndented indent (level + 1) (field :: rest)) ++
      lineBreak indent level ++ [closeBrace]
  | value => encode defaultStyle value

def itemsIndented (indent level : Nat) : List Json → List (List Char)
  | [] => []
  | item :: rest => encodeIndented indent level item :: itemsIndented indent level rest

def fieldsIndented (indent level : Nat) : List (String × Json) → List (List Char)
  | [] => []
  | (key, value) :: rest =>
    (dumpsString key ++ ": ".toList ++ encodeIndented indent level value) :: fieldsIndented indent level rest

end

/-- `json.dumps(value, indent=indent)`. -/
def writeIndented (indent : Nat) (value : Json) : String := String.ofList (encodeIndented indent 0 value)

/-- The states of the reader in which a value has ended. -/
inductive Settled : Reader → Json → List Frame → Prop
  | after (value : Json) (stack : List Frame) : Settled (.after value, stack) value stack
  | word (value : Json) (stack : List Frame) : Settled (.word [] value, stack) value stack
  | number {state : NumberState} (h : isFinal state = true) (literal : List Char) (stack : List Frame) :
      Settled (.number state literal, stack) (numberValue state literal) stack

section Reading

variable {stack : List Frame} {indent level : Nat}

theorem lineBreak_blank : ∀ c ∈ lineBreak indent level, isWhitespace c = true := by
  intro c hc
  rcases List.mem_cons.mp hc with rfl | hc
  · rfl
  · obtain ⟨-, rfl⟩ := List.mem_replicate.mp hc
    rfl

def levelStyle (indent level : Nat) : Style := ⟨false, String.ofList (',' :: lineBreak indent level), ": "⟩

theorem levelStyle_readable : (levelStyle indent level).Readable := by
  constructor
  · exact ⟨lineBreak indent level, String.toList_ofList, lineBreak_blank⟩
  · exact defaultStyle_readable.key

theorem Settled.complete {r : Reader} {value : Json} (h : Settled r value stack) : Complete r value stack := by
  cases h with
  | after => exact complete_after value
  | word => exact complete_word value
  | number h literal => exact complete_number h literal

theorem Settled.blank {r : Reader} {value : Json} (h : Settled r value stack) {c : Char} (hc : isWhitespace c = true) :
    step r c = (.after value, stack) := by
  have hclose : closeValue value c stack = (.after value, stack) := if_pos hc
  cases h with
  | after => exact hclose
  | word => exact hclose
  | @number state h literal =>
    have hplain : isDigit c = false ∧ c ≠ '.' ∧ c ≠ 'e' ∧ c ≠ 'E' := by
      simp only [isWhitespace, List.mem_cons, List.not_mem_nil, or_false, decide_eq_true_eq] at hc
      refine ⟨?_, ?_, ?_, ?_⟩
      · simp only [isDigit, decide_eq_false_iff_not]
        omega
      all_goals
        rintro rfl
        revert hc
        decide
    cases state <;> simp_all [isFinal, step, stepNumber]

theorem Settled.blanks {r : Reader} {value : Json} (h : Settled r value stack) {blanks : List Char}
    (hb : ∀ c ∈ blanks, isWhitespace c = true) : Settled (blanks.foldl step r) value stack := by
  induction blanks generalizing r with
  | nil => exact h
  | cons c rest ih =>
    rw [List.foldl_cons, h.blank (hb c List.mem_cons_self)]
    exact ih (.after value stack) fun d hd => hb d (List.mem_cons_of_mem _ hd)

theorem settled_number {c : Char} {rest : List Char} {state final : NumberState} (hstart : startNumber c = some state)
    (hread : readNumber state rest = some final) (hfinal : isFinal final = true) :
    Settled ((c :: rest).foldl step (.value, stack)) (numberValue final (c :: rest)) stack := by
  rw [List.foldl_cons, (startNumber_value hstart).1, foldl_readNumber hread]
  exact .number hfinal _ stack

theorem settled_float {literal : String} (h : isFloatLiteral literal = true) :
    Settled (literal.toList.foldl step (.value, stack)) (.float literal) stack := by
  rcases isFloatLiteral_cases h with rfl | rfl | rfl | ⟨c, rest, state, final, htext, hstart, hread, hfinal⟩
  · exact .word _ stack
  · exact .word _ stack
  · exact .word _ stack
  · have hvalue : numberValue final (c :: rest) = .float literal := by
      rw [← htext]
      rcases hfinal with rfl | rfl <;> simp [numberValue]
    have hterminal : isFinal final = true := by
      rcases hfinal with rfl | rfl <;> rfl
    rw [htext, ← hvalue]
    exact settled_number hstart hread hterminal

theorem encodeIndented_head (value : Json) (h : wellFormed value = true) :
    ∃ c rest, encodeIndented indent level value = c :: rest ∧ isWhitespace c = false ∧ c ≠ ']' := by
  cases value with
  | null | bool | int | float | str =>
    rw [encodeIndented]
    · exact encode_head defaultStyle _ h
    all_goals simp
  | arr items => cases items <;> exact ⟨'[', _, rfl, rfl, by decide⟩
  | obj fields => cases fields <;> exact ⟨openBrace, _, rfl, rfl, by decide⟩

theorem foldl_leading {blanks : List Char} (h : ∀ c ∈ blanks, isWhitespace c = true) {mode : Mode}
    (hm : mode = .firstItem ∨ mode = .firstKey) : blanks.foldl step (mode, stack) = (mode, stack) := by
  induction blanks with
  | nil => rfl
  | cons c rest ih =>
    have hstep : step (mode, stack) c = (mode, stack) := by
      rcases hm with rfl | rfl <;> simp [step, h c List.mem_cons_self]
    rw [List.foldl_cons, hstep, ih fun d hd => h d (List.mem_cons_of_mem _ hd)]

mutual

/-- The reader takes in a value as it was written, whatever surrounds it. -/
theorem read_indented (level : Nat) (value : Json) (hw : wellFormed value = true) (stack : List Frame) :
    Settled ((encodeIndented indent level value).foldl step (.value, stack)) value stack := by
  cases value with
  | null => exact .word _ stack
  | bool b => cases b <;> exact .word _ stack
  | int n =>
    obtain ⟨c, rest, state, final, htext, hstart, hread, hfinal, hvalue⟩ := read_intText n
    have hencode : encodeIndented indent level (.int n) = c :: rest := htext
    rw [hencode, ← hvalue]
    exact settled_number hstart hread hfinal
  | float literal => exact settled_float hw
  | str s =>
    have hencode : encodeIndented indent level (.str s) = dumpsString s := rfl
    rw [hencode, read_string_value]
    exact .after _ stack
  | arr items =>
    cases items with
    | nil => exact .after _ stack
    | cons item rest =>
      have hopen : step (.value, stack) '[' = (.firstItem, .items [] :: stack) := rfl
      have hitems := read_items_indented level (level + 1) (item :: rest) hw (List.cons_ne_nil _ _) [] stack
      have hhead : ∃ c text, join (',' :: lineBreak indent (level + 1)) (itemsIndented indent (level + 1) (item :: rest)) ++
          (lineBreak indent level ++ [']']) = c :: text ∧ isWhitespace c = false ∧ c ≠ ']' := by
        simp only [wellFormed, wellFormedItems, Bool.and_eq_true] at hw
        obtain ⟨c, text, htext, hc⟩ := @encodeIndented_head indent (level + 1) item hw.1
        cases rest with
        | nil => exact ⟨c, _, by simp only [itemsIndented, join, htext, List.cons_append]; rfl, hc⟩
        | cons next rest => exact ⟨c, _, by simp only [itemsIndented, join, htext, List.cons_append]; rfl, hc⟩
      rw [encodeIndented, List.append_assoc, List.append_assoc, List.cons_append, List.foldl_cons, hopen, List.foldl_append,
        foldl_leading lineBreak_blank (Or.inl rfl), foldl_firstItem hhead, hitems]
      exact .after _ stack
  | obj fields =>
    cases fields with
    | nil => exact .after _ stack
    | cons field rest =>
      have hopen : step (.value, stack) openBrace = (.firstKey, .fields [] "" :: stack) := rfl
      have hfields := read_fields_indented level (level + 1) (field :: rest) hw (List.cons_ne_nil _ _) [] "" stack (Or.inl rfl)
        (fun f _ hf => by cases hf)
      rw [encodeIndented, List.append_assoc, List.append_assoc, List.cons_append, List.foldl_cons, hopen, List.foldl_append,
        foldl_leading lineBreak_blank (Or.inr rfl), hfields]
      exact .after _ stack

theorem read_items_indented (outer level : Nat) (items : List Json) (hw : wellFormedItems items = true)
    (hne : items ≠ []) (done : List Json) (stack : List Frame) :
    (join (',' :: lineBreak indent level) (itemsIndented indent level items) ++
      (lineBreak indent outer ++ [']'])).foldl step (.value, .items done :: stack) = (.after (.arr (done ++ items)), stack) := by
  cases items with
  | nil => exact absurd rfl hne
  | cons item rest =>
    simp only [wellFormedItems, Bool.and_eq_true] at hw
    have hitem := read_indented level item hw.1 (.items done :: stack)
    cases rest with
    | nil =>
      have hclosed := (hitem.blanks (@lineBreak_blank indent outer)).complete
      rw [itemsIndented, itemsIndented, join, List.foldl_append, List.foldl_append, List.foldl_cons,
        hclosed.step ']' (Or.inr (Or.inl rfl))]
      rfl
    | cons next rest =>
      have hrest := read_items_indented outer level (next :: rest) hw.2 (List.cons_ne_nil _ _) (done ++ [item]) stack
      have hseparator := read_separator (@levelStyle_readable indent level) hitem.complete
      rw [levelStyle, String.toList_ofList] at hseparator
      have htext : join (',' :: lineBreak indent level) (itemsIndented indent level (item :: next :: rest)) =
          encodeIndented indent level item ++ ((',' :: lineBreak indent level) ++
            join (',' :: lineBreak indent level) (itemsIndented indent level (next :: rest))) := by
        simp [itemsIndented, join]
      rw [htext, List.append_assoc, List.append_assoc, List.foldl_append, List.foldl_append, hseparator, hrest,
        List.append_assoc, List.singleton_append]

theorem read_fields_indented (outer level : Nat) (fields : List (String × Json)) (hw : wellFormedFields fields = true)
    (hne : fields ≠ []) (done : List (String × Json)) (key : String) (stack : List Frame) {mode : Mode}
    (hm : expectsKey mode) (hnew : ∀ f ∈ fields, f.1 ∉ done.map Prod.fst) :
    (join (',' :: lineBreak indent level) (fieldsIndented indent level fields) ++
      (lineBreak indent outer ++ [closeBrace])).foldl step (mode, .fields done key :: stack) =
      (.after (.obj (done ++ fields)), stack) := by
  cases fields with
  | nil => exact absurd rfl hne
  | cons field rest =>
    obtain ⟨k, v⟩ := field
    simp only [wellFormedFields, Bool.and_eq_true, decide_eq_true_eq] at hw
    obtain ⟨hk, hv, hrest⟩ := hw
    have hvalue := read_indented level v hv (.fields done k :: stack)
    have hset := setField_append (hnew (k, v) List.mem_cons_self) v
    have hkey : (dumpsString k ++ ": ".toList).foldl step (mode, .fields done key :: stack) = (.value, .fields done k :: stack) :=
      read_key defaultStyle_readable hm k
    cases rest with
    | nil =>
      have hclosed := (hvalue.blanks (@lineBreak_blank indent outer)).complete
      have hclose : closeValue v closeBrace (.fields done k :: stack) = (.after (.obj (setField done k v)), stack) := rfl
      rw [fieldsIndented, fieldsIndented, join, List.foldl_append, List.foldl_append, List.foldl_append, hkey,
        List.foldl_cons, hclosed.step closeBrace (Or.inr (Or.inr rfl)), hclose, hset]
      rfl
    | cons next rest =>
      have hlater := new_after_append hnew hk
      have hnext := read_fields_indented outer level (next :: rest) hrest (List.cons_ne_nil _ _) (done ++ [(k, v)]) ""
        stack (Or.inr rfl) hlater
      have hseparator := read_field_separator (@levelStyle_readable indent level) hvalue.complete
      rw [levelStyle, String.toList_ofList] at hseparator
      have htext : join (',' :: lineBreak indent level) (fieldsIndented indent level ((k, v) :: next :: rest)) ++
          (lineBreak indent outer ++ [closeBrace]) =
          (dumpsString k ++ ": ".toList) ++ (encodeIndented indent level v ++ ((',' :: lineBreak indent level) ++
            (join (',' :: lineBreak indent level) (fieldsIndented indent level (next :: rest)) ++
              (lineBreak indent outer ++ [closeBrace])))) := by
        simp [fieldsIndented, join]
      rw [htext, List.foldl_append, hkey, List.foldl_append, List.foldl_append, hseparator, hset, hnext,
        List.append_assoc]
      rfl

end

/-- What is written with an indent is read back. -/
theorem loads_writeIndented (indent : Nat) (value : Json) (hw : wellFormed value = true) :
    loads (writeIndented indent value) = some value := by
  rw [loads, writeIndented, String.toList_ofList]
  exact (read_indented 0 value hw []).complete.result rfl

end Reading

end Json
