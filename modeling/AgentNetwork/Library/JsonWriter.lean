import AgentNetwork.Library.JsonText
import Mathlib.Data.List.Sort
import Mathlib.Algebra.BigOperators.Group.List.Basic

/-! Writing JSON text in the styles of `json.dumps`, and reading it back. A number
is written as it is held, an integer in its digits. -/

namespace Json

/-- The arguments of `json.dumps` that shape its text. -/
structure Style where
  sortKeys : Bool
  itemSeparator : String
  keySeparator : String

def defaultStyle : Style := ⟨false, ", ", ": "⟩

/-- `sort_keys=True, separators=(",", ":")`. -/
def canonicalStyle : Style := ⟨true, ",", ":"⟩

/-- `sort_keys=True`. -/
def sortedStyle : Style := ⟨true, ", ", ": "⟩

def compactStyle : Style := ⟨false, ",", ":"⟩

def intText : Int → List Char
  | .ofNat n => Nat.toDigits 10 n
  | .negSucc n => '-' :: Nat.toDigits 10 (n + 1)

def join (separator : List Char) : List (List Char) → List Char
  | [] => []
  | [text] => text
  | text :: rest => text ++ separator ++ join separator rest

def sortByKey (fields : List (String × List Char)) : List (String × List Char) :=
  fields.insertionSort fun a b => a.1 ≤ b.1

def fieldText (style : Style) (field : String × List Char) : List Char :=
  dumpsString field.1 ++ style.keySeparator.toList ++ field.2

def joinFields (style : Style) (fields : List (String × List Char)) : List Char :=
  join style.itemSeparator.toList
    ((if style.sortKeys then sortByKey fields else fields).map (fieldText style))

mutual

def encode (style : Style) : Json → List Char
  | .null => "null".toList
  | .bool true => "true".toList
  | .bool false => "false".toList
  | .int n => intText n
  | .float literal => literal.toList
  | .str s => dumpsString s
  | .arr items => '[' :: join style.itemSeparator.toList (encodeItems style items) ++ [']']
  | .obj fields => openBrace :: joinFields style (encodeFields style fields) ++ [closeBrace]

def encodeItems (style : Style) : List Json → List (List Char)
  | [] => []
  | item :: rest => encode style item :: encodeItems style rest

def encodeFields (style : Style) : List (String × Json) → List (String × List Char)
  | [] => []
  | (key, value) :: rest => (key, encode style value) :: encodeFields style rest

end

theorem join_ne_nil {separator : List Char} {texts : List (List Char)} (hne : texts ≠ [])
    (htext : ∀ text ∈ texts, text ≠ []) : join separator texts ≠ [] := by
  cases texts with
  | nil => exact absurd rfl hne
  | cons text rest =>
    have hfirst := htext text (List.mem_cons_self ..)
    cases rest with
    | nil => exact hfirst
    | cons next rest => simp [join, hfirst]

theorem length_encodeFields (style : Style) (fields : List (String × Json)) :
    (encodeFields style fields).length = fields.length := by
  induction fields with
  | nil => rfl
  | cons field rest ih => simp [encodeFields, ih]

/-- The text between the braces of an object with fields. -/
theorem joinFields_ne_nil {style : Style} {fields : List (String × Json)} (h : fields ≠ []) :
    joinFields style (encodeFields style fields) ≠ [] := by
  have hlength : (if style.sortKeys then sortByKey (encodeFields style fields) else encodeFields style fields).length =
      fields.length := by
    split
    · rw [sortByKey, List.length_insertionSort, length_encodeFields]
    · exact length_encodeFields style fields
  apply join_ne_nil
  · intro hnil
    have hzero := congrArg List.length hnil
    rw [List.length_map, hlength] at hzero
    exact h (List.length_eq_zero_iff.mp hzero)
  · intro text htext
    obtain ⟨field, _, rfl⟩ := List.mem_map.mp htext
    exact List.cons_ne_nil _ _

section Lengths

variable (style : Style)

theorem length_join (separator : List Char) (texts : List (List Char)) :
    (join separator texts).length = (texts.map List.length).sum + separator.length * (texts.length - 1) := by
  induction texts with
  | nil => simp [join]
  | cons text rest ih =>
    cases rest with
    | nil => simp [join]
    | cons next rest =>
      simp only [join, List.length_append, ih, List.map_cons, List.sum_cons, List.length_cons, Nat.add_sub_cancel]
      rw [Nat.mul_succ]
      omega

/-- Sorting the fields does not change how long their text is. -/
theorem length_joinFields (fields : List (String × List Char)) :
    (joinFields style fields).length =
      ((fields.map (fieldText style)).map List.length).sum + style.itemSeparator.toList.length * (fields.length - 1) := by
  unfold joinFields
  rw [length_join]
  split
  · have hperm : (sortByKey fields).Perm fields := List.perm_insertionSort _ fields
    rw [((hperm.map (fieldText style)).map List.length).sum_eq, List.length_map, hperm.length_eq]
  · rw [List.length_map]

theorem encodeFields_append (fields more : List (String × Json)) :
    encodeFields style (fields ++ more) = encodeFields style fields ++ encodeFields style more := by
  induction fields with
  | nil => rfl
  | cons field rest ih => simp [encodeFields, ih]

theorem length_encode_obj_lt (fields : List (String × Json)) (field : String × Json) :
    (encode style (.obj fields)).length < (encode style (.obj (fields ++ [field]))).length := by
  obtain ⟨key, value⟩ := field
  have hnew : 0 < (fieldText style (key, encode style value)).length := by simp [fieldText, dumpsString]
  have hmono : style.itemSeparator.toList.length * ((encodeFields style fields).length - 1) ≤
      style.itemSeparator.toList.length * ((encodeFields style fields).length + (0 + 1) - 1) :=
    Nat.mul_le_mul_left _ (by omega)
  have hobj (l : List (String × Json)) : encode style (.obj l) =
      openBrace :: joinFields style (encodeFields style l) ++ [closeBrace] := rfl
  simp only [hobj, List.length_append, List.length_cons, length_joinFields, encodeFields_append, encodeFields,
    List.map_append, List.map_cons, List.map_nil, List.sum_append, List.sum_cons, List.sum_nil, List.length_nil]
  omega

end Lengths

/-- `json.dumps`. -/
def write (style : Style) (value : Json) : String := String.ofList (encode style value)

/-- How a number goes on. -/
def nextNumber : NumberState → Char → Option NumberState
  | .minus, c => if c = '0' then some .zero else if isDigit c then some .digits else none
  | .zero, c => if c = '.' then some .point else if c = 'e' ∨ c = 'E' then some .exponent else none
  | .digits, c =>
    if isDigit c then some .digits else if c = '.' then some .point
    else if c = 'e' ∨ c = 'E' then some .exponent else none
  | .point, c => if isDigit c then some .fraction else none
  | .fraction, c => if isDigit c then some .fraction else if c = 'e' ∨ c = 'E' then some .exponent else none
  | .exponent, c =>
    if c = '+' ∨ c = '-' then some .exponentSign else if isDigit c then some .exponentDigits else none
  | .exponentSign, c => if isDigit c then some .exponentDigits else none
  | .exponentDigits, c => if isDigit c then some .exponentDigits else none

def startNumber (c : Char) : Option NumberState :=
  if c = '-' then some .minus else if c = '0' then some .zero else if isDigit c then some .digits else none

def readNumber : NumberState → List Char → Option NumberState
  | state, [] => some state
  | state, c :: rest => (nextNumber state c).bind fun next => readNumber next rest

/-- The texts of numbers with a fraction or an exponent, and of the three that are none. -/
def isFloatLiteral (literal : String) : Bool :=
  literal = "NaN" || literal = "Infinity" || literal = "-Infinity" ||
    match literal.toList with
    | [] => false
    | c :: rest =>
      match (startNumber c).bind fun state => readNumber state rest with
      | some .fraction | some .exponentDigits => true
      | _ => false

mutual

/-- A value a program can hold: keys are distinct, floats are literals. -/
def wellFormed : Json → Bool
  | .float literal => isFloatLiteral literal
  | .arr items => wellFormedItems items
  | .obj fields => wellFormedFields fields
  | .null | .bool _ | .int _ | .str _ => true

def wellFormedItems : List Json → Bool
  | [] => true
  | item :: rest => wellFormed item && wellFormedItems rest

def wellFormedFields : List (String × Json) → Bool
  | [] => true
  | (key, value) :: rest => decide (key ∉ rest.map Prod.fst) && (wellFormed value && wellFormedFields rest)

end

theorem wellFormedItems_iff {items : List Json} : wellFormedItems items = true ↔ ∀ item ∈ items, wellFormed item = true := by
  induction items with
  | nil => simp [wellFormedItems]
  | cons item rest ih => simp only [wellFormedItems, Bool.and_eq_true, ih, List.forall_mem_cons]

theorem wellFormedFields_iff {fields : List (String × Json)} : wellFormedFields fields = true ↔
    (fields.map Prod.fst).Nodup ∧ ∀ field ∈ fields, wellFormed field.2 = true := by
  induction fields with
  | nil => simp [wellFormedFields]
  | cons field rest ih =>
    obtain ⟨key, value⟩ := field
    simp only [wellFormedFields, Bool.and_eq_true, decide_eq_true_eq, ih, List.map_cons, List.nodup_cons,
      List.forall_mem_cons]
    constructor
    · rintro ⟨hkey, hvalue, hnodup, hrest⟩
      exact ⟨⟨hkey, hnodup⟩, hvalue, hrest⟩
    · rintro ⟨⟨hkey, hnodup⟩, hvalue, hrest⟩
      exact ⟨hkey, hvalue, hnodup, hrest⟩

theorem map_fst_setField (fields : List (String × Json)) (key : String) (value : Json) :
    (setField fields key value).map Prod.fst =
      if key ∈ fields.map Prod.fst then fields.map Prod.fst else fields.map Prod.fst ++ [key] := by
  induction fields with
  | nil => rfl
  | cons field rest ih =>
    obtain ⟨k, v⟩ := field
    rw [setField]
    split
    next hk => simp [hk]
    next hk =>
      have hne : ¬key = k := fun he => hk he.symm
      simp only [List.map_cons, ih, List.mem_cons, hne, false_or]
      split <;> rfl

theorem wellFormedFields_setField {fields : List (String × Json)} {value : Json} (key : String)
    (hfields : wellFormedFields fields = true) (hvalue : wellFormed value = true) :
    wellFormedFields (setField fields key value) = true := by
  induction fields with
  | nil => simp [setField, wellFormedFields, hvalue]
  | cons field rest ih =>
    obtain ⟨k, v⟩ := field
    simp only [wellFormedFields, Bool.and_eq_true, decide_eq_true_eq] at hfields
    obtain ⟨hkey, hv, hrest⟩ := hfields
    rw [setField]
    split
    next => simp only [wellFormedFields, hkey, hvalue, hrest, not_false_eq_true, decide_true, Bool.and_self]
    next hk =>
      have hkeys : k ∉ (setField rest key value).map Prod.fst := by
        rw [map_fst_setField]
        split
        · exact hkey
        · rw [List.mem_append, List.mem_singleton, not_or]
          exact ⟨hkey, hk⟩
      simp only [wellFormedFields, hkeys, hv, ih hrest, not_false_eq_true, decide_true, Bool.and_self]

/-- Separators that the reader takes: a comma or a colon, and blanks. -/
structure Style.Readable (style : Style) : Prop where
  item : ∃ blanks, style.itemSeparator.toList = ',' :: blanks ∧ ∀ c ∈ blanks, isWhitespace c = true
  key : ∃ blanks, style.keySeparator.toList = ':' :: blanks ∧ ∀ c ∈ blanks, isWhitespace c = true

theorem defaultStyle_readable : defaultStyle.Readable := by
  constructor
  · refine ⟨[' '], rfl, ?_⟩
    simp [isWhitespace]
  · refine ⟨[' '], rfl, ?_⟩
    simp [isWhitespace]

theorem compactStyle_readable : compactStyle.Readable := by
  constructor
  · exact ⟨[], rfl, nofun⟩
  · exact ⟨[], rfl, nofun⟩

section Complete

variable {stack : List Frame}

/-- The reader has taken in a value: it goes on with what may follow one. -/
structure Complete (r : Reader) (value : Json) (stack : List Frame) : Prop where
  step : ∀ c, c = ',' ∨ c = ']' ∨ c = closeBrace → Json.step r c = closeValue value c stack
  result : stack = [] → result? r = some value

theorem complete_after (value : Json) : Complete (.after value, stack) value stack := by
  constructor
  · intro c _
    rfl
  · rintro rfl
    rfl

theorem complete_word (value : Json) : Complete (.word [] value, stack) value stack := by
  constructor
  · intro c _
    rfl
  · rintro rfl
    rfl

def isFinal : NumberState → Bool
  | .zero | .digits | .fraction | .exponentDigits => true
  | .minus | .point | .exponent | .exponentSign => false

theorem complete_number {state : NumberState} (h : isFinal state = true) (literal : List Char) :
    Complete (.number state literal, stack) (numberValue state literal) stack := by
  have hdelims : ∀ c, c = ',' ∨ c = ']' ∨ c = closeBrace →
      isDigit c = false ∧ c ≠ '.' ∧ ¬(c = 'e' ∨ c = 'E') := by
    rintro c (rfl | rfl | rfl) <;> decide
  constructor
  · intro c hc
    obtain ⟨hd, hp, he⟩ := hdelims c hc
    cases state with
    | zero | digits | fraction | exponentDigits => simp [step, stepNumber, hd, hp, he]
    | minus | point | exponent | exponentSign => cases h
  · rintro rfl
    cases state with
    | zero | digits | fraction | exponentDigits => rfl
    | minus | point | exponent | exponentSign => cases h

end Complete

section Numbers

variable {stack : List Frame}

theorem step_nextNumber {state next : NumberState} {c : Char} (h : nextNumber state c = some next)
    (literal : List Char) : step (.number state literal, stack) c = (.number next (literal ++ [c]), stack) := by
  change stepNumber state literal c stack = _
  unfold nextNumber at h
  unfold stepNumber
  cases state with
  | point | exponentSign | exponentDigits =>
    dsimp only at h ⊢
    split at h
    next hdigit => cases h; rw [if_pos hdigit]
    next => cases h
  | minus | zero | fraction | exponent =>
    dsimp only at h ⊢
    split at h
    next hfirst => cases h; rw [if_pos hfirst]
    next hfirst =>
      split at h
      next hsecond => cases h; rw [if_neg hfirst, if_pos hsecond]
      next => cases h
  | digits =>
    dsimp only at h ⊢
    split at h
    next hdigit => cases h; rw [if_pos hdigit]
    next hdigit =>
      split at h
      next hpoint => cases h; rw [if_neg hdigit, if_pos hpoint]
      next hpoint =>
        split at h
        next hexponent => cases h; rw [if_neg hdigit, if_neg hpoint, if_pos hexponent]
        next => cases h

theorem foldl_readNumber {state final : NumberState} {rest : List Char} (h : readNumber state rest = some final)
    (literal : List Char) :
    rest.foldl step (.number state literal, stack) = (.number final (literal ++ rest), stack) := by
  induction rest generalizing state literal with
  | nil =>
    cases h
    simp
  | cons c rest ih =>
    obtain ⟨next, hnext, hrest⟩ := Option.bind_eq_some_iff.mp h
    rw [List.foldl_cons, step_nextNumber hnext, ih hrest, List.append_assoc, List.singleton_append]

theorem startNumber_value {c : Char} {state : NumberState} (h : startNumber c = some state) :
    step (.value, stack) c = (.number state [c], stack) ∧ isWhitespace c = false ∧ c ≠ ']' := by
  unfold startNumber at h
  split at h
  next hc =>
    cases h
    subst hc
    exact ⟨rfl, rfl, by decide⟩
  next hminus =>
    split at h
    next hc =>
      cases h
      subst hc
      exact ⟨rfl, rfl, by decide⟩
    next hzero =>
      split at h
      next hdigit =>
        cases h
        have hrange : 0x30 ≤ c.toNat ∧ c.toNat ≤ 0x39 := by simpa [isDigit] using hdigit
        have hnot : ∀ d : Char, d.toNat < 0x30 ∨ 0x39 < d.toNat → c ≠ d := by
          rintro d hd rfl
          omega
        have hw : isWhitespace c = false := by
          simp only [isWhitespace, List.mem_cons, List.not_mem_nil, or_false, decide_eq_false_iff_not]
          omega
        have hq : c ≠ quote := hnot _ (by decide)
        have hb : c ≠ openBrace := hnot _ (by decide)
        have hs : c ≠ '[' := hnot _ (by decide)
        refine ⟨?_, hw, hnot _ (by decide)⟩
        simp [step, hw, startValue, hq, hb, hs, hminus, hzero, hdigit]
      next => cases h

theorem startNumber_head {c : Char} {state : NumberState} (h : startNumber c = some state) :
    isWhitespace c = false ∧ c ≠ ']' :=
  (@startNumber_value [] c state h).2

theorem read_number {c : Char} {rest : List Char} {state final : NumberState} (hstart : startNumber c = some state)
    (hread : readNumber state rest = some final) (hfinal : isFinal final = true) :
    Complete ((c :: rest).foldl step (.value, stack)) (numberValue final (c :: rest)) stack := by
  rw [List.foldl_cons, (startNumber_value hstart).1, foldl_readNumber hread]
  exact complete_number hfinal _

theorem readNumber_digits {rest : List Char} (h : ∀ c ∈ rest, isDigit c = true) :
    readNumber .digits rest = some .digits := by
  induction rest with
  | nil => rfl
  | cons c rest ih =>
    have hc : isDigit c = true := h c (List.mem_cons_self ..)
    simp [readNumber, nextNumber, hc, ih fun d hd => h d (List.mem_cons_of_mem _ hd)]

theorem natOf_append (l : List Char) (c : Char) : natOf (l ++ [c]) = natOf l * 10 + (c.toNat - 0x30) := by
  simp [natOf]

/-- The digits of a positive number: read back as the number, and no zero in front. -/
structure Digits (n : Nat) (text : List Char) : Prop where
  digits : ∀ c ∈ text, isDigit c = true
  value : natOf text = n
  head : ∃ c rest, text = c :: rest ∧ c ≠ '0'

theorem digitChar_value {d : Nat} (h : d < 10) :
    isDigit (Nat.digitChar d) = true ∧ (Nat.digitChar d).toNat - 0x30 = d ∧ (0 < d → Nat.digitChar d ≠ '0') := by
  interval_cases d <;> decide

theorem toDigits_digits {n : Nat} (hn : 0 < n) : Digits n (Nat.toDigits 10 n) := by
  induction n using Nat.strong_induction_on with
  | _ n ih =>
    by_cases hlt : n < 10
    · obtain ⟨hd, hv, h0⟩ := digitChar_value hlt
      rw [Nat.toDigits_of_lt_base hlt]
      refine ⟨?_, ?_, _, _, rfl, h0 hn⟩
      · intro c hc
        rw [List.mem_singleton.mp hc]
        exact hd
      · simpa [natOf] using hv
    · obtain ⟨hd, hv, _⟩ := digitChar_value (Nat.mod_lt n (by omega : 0 < 10))
      have hprev := ih (n / 10) (by omega) (by omega)
      obtain ⟨c, rest, htext, hc⟩ := hprev.head
      rw [Nat.toDigits_of_base_le (by omega) (by omega)]
      refine ⟨?_, ?_, c, rest ++ [Nat.digitChar (n % 10)], by rw [htext, List.cons_append], hc⟩
      · intro d hd'
        rcases List.mem_append.mp hd' with hd' | hd'
        · exact hprev.digits d hd'
        · rw [List.mem_singleton.mp hd']
          exact hd
      · rw [natOf_append, hprev.value, hv]
        omega

theorem startNumber_digit {c : Char} (hd : isDigit c = true) (h0 : c ≠ '0') : startNumber c = some .digits := by
  have hm : c ≠ '-' := by
    rintro rfl
    cases hd
  simp [startNumber, hm, h0, hd]

/-- A text of digits is read digit by digit. -/
theorem Digits.read {n : Nat} {text : List Char} (h : Digits n text) :
    ∃ c rest, text = c :: rest ∧ isDigit c = true ∧ c ≠ '0' ∧ readNumber .digits rest = some .digits := by
  obtain ⟨c, rest, rfl, h0⟩ := h.head
  refine ⟨c, rest, rfl, h.digits c (List.mem_cons_self ..), h0, ?_⟩
  exact readNumber_digits fun d hd => h.digits d (List.mem_cons_of_mem _ hd)

theorem read_intText (n : Int) : ∃ c rest state final, intText n = c :: rest ∧ startNumber c = some state ∧
    readNumber state rest = some final ∧ isFinal final = true ∧ numberValue final (c :: rest) = .int n := by
  cases n with
  | ofNat n =>
    cases n with
    | zero => exact ⟨'0', [], .zero, .zero, rfl, rfl, rfl, rfl, rfl⟩
    | succ n =>
      have hdigits := toDigits_digits (Nat.succ_pos n)
      obtain ⟨c, rest, htext, hc, h0, hrest⟩ := hdigits.read
      have hminus : c ≠ '-' := by
        rintro rfl
        cases hc
      have hvalue : numberValue .digits (c :: rest) = .int (natOf (c :: rest)) := by
        dsimp only [numberValue]
        split
        next hl =>
          cases hl
          exact absurd rfl hminus
        next => rfl
      refine ⟨c, rest, .digits, .digits, htext, startNumber_digit hc h0, hrest, rfl, ?_⟩
      rw [hvalue, ← htext, hdigits.value]
      rfl
  | negSucc n =>
    have hdigits := toDigits_digits (Nat.succ_pos n)
    obtain ⟨c, rest, htext, hc, h0, hrest⟩ := hdigits.read
    have hread : readNumber .minus (c :: rest) = some .digits := by
      simp only [readNumber, nextNumber, h0, hc, if_false, if_true, Option.bind_some]
      exact hrest
    refine ⟨'-', c :: rest, .minus, .digits, by rw [intText, htext], rfl, hread, rfl, ?_⟩
    have hvalue : natOf (c :: rest) = n + 1 := by
      rw [← htext]
      exact hdigits.value
    simp only [numberValue, hvalue]
    rfl

end Numbers

section Values

variable {stack : List Frame}

theorem isFloatLiteral_cases {literal : String} (h : isFloatLiteral literal = true) :
    literal = "NaN" ∨ literal = "Infinity" ∨ literal = "-Infinity" ∨
    ∃ c rest state final, literal.toList = c :: rest ∧ startNumber c = some state ∧
      readNumber state rest = some final ∧ (final = .fraction ∨ final = .exponentDigits) := by
  simp only [isFloatLiteral, Bool.or_eq_true, decide_eq_true_eq] at h
  rcases h with ((h | h) | h) | h
  · exact Or.inl h
  · exact Or.inr (Or.inl h)
  · exact Or.inr (Or.inr (Or.inl h))
  · refine Or.inr (Or.inr (Or.inr ?_))
    split at h
    next => cases h
    next c rest htext =>
      cases hrun : (startNumber c).bind fun state => readNumber state rest with
      | none => simp [hrun] at h
      | some final =>
        obtain ⟨state, hstart, hread⟩ := Option.bind_eq_some_iff.mp hrun
        refine ⟨c, rest, state, final, htext, hstart, hread, ?_⟩
        cases final <;> simp_all

theorem read_float {literal : String} (h : isFloatLiteral literal = true) :
    Complete (literal.toList.foldl step (.value, stack)) (.float literal) stack := by
  rcases isFloatLiteral_cases h with rfl | rfl | rfl | ⟨c, rest, state, final, htext, hstart, hread, hfinal⟩
  · exact complete_word _
  · exact complete_word _
  · exact complete_word _
  · have hvalue : numberValue final (c :: rest) = .float literal := by
      rw [← htext]
      rcases hfinal with rfl | rfl <;> simp [numberValue]
    have hterminal : isFinal final = true := by
      rcases hfinal with rfl | rfl <;> rfl
    rw [htext, ← hvalue]
    exact read_number hstart hread hterminal

theorem encode_head (style : Style) (value : Json) (h : wellFormed value = true) :
    ∃ c rest, encode style value = c :: rest ∧ isWhitespace c = false ∧ c ≠ ']' := by
  cases value with
  | null => exact ⟨_, _, rfl, rfl, by decide⟩
  | bool b => cases b <;> exact ⟨_, _, rfl, rfl, by decide⟩
  | int n =>
    obtain ⟨c, rest, state, _, htext, hstart, _⟩ := read_intText n
    obtain ⟨hw, hb⟩ := startNumber_head hstart
    exact ⟨c, rest, htext, hw, hb⟩
  | float literal =>
    rcases isFloatLiteral_cases h with rfl | rfl | rfl | ⟨c, rest, state, _, htext, hstart, _⟩
    · exact ⟨_, _, rfl, rfl, by decide⟩
    · exact ⟨_, _, rfl, rfl, by decide⟩
    · exact ⟨_, _, rfl, rfl, by decide⟩
    · obtain ⟨hw, hb⟩ := startNumber_head hstart
      exact ⟨c, rest, htext, hw, hb⟩
  | str s => exact ⟨quote, _, rfl, rfl, by decide⟩
  | arr items => exact ⟨'[', _, rfl, rfl, by decide⟩
  | obj fields => exact ⟨openBrace, _, rfl, rfl, by decide⟩

theorem foldl_blanks {blanks : List Char} (h : ∀ c ∈ blanks, isWhitespace c = true) {mode : Mode}
    (hm : mode = .value ∨ mode = .nextKey) : blanks.foldl step (mode, stack) = (mode, stack) := by
  induction blanks with
  | nil => rfl
  | cons c rest ih =>
    have hc := h c (List.mem_cons_self ..)
    have hstep : step (mode, stack) c = (mode, stack) := by
      rcases hm with rfl | rfl <;> simp [step, hc]
    rw [List.foldl_cons, hstep, ih fun d hd => h d (List.mem_cons_of_mem _ hd)]

variable {style : Style}

/-- What follows a complete item in a list. -/
theorem read_separator (hr : style.Readable) {r : Reader} {value : Json} {done : List Json}
    (hc : Complete r value (.items done :: stack)) :
    style.itemSeparator.toList.foldl step r = (.value, .items (done ++ [value]) :: stack) := by
  obtain ⟨blanks, hsep, hblanks⟩ := hr.item
  rw [hsep, List.foldl_cons, hc.step ',' (Or.inl rfl)]
  exact foldl_blanks hblanks (Or.inl rfl)

theorem read_field_separator (hr : style.Readable) {r : Reader} {value : Json} {done : List (String × Json)}
    {key : String} (hc : Complete r value (.fields done key :: stack)) :
    style.itemSeparator.toList.foldl step r = (.nextKey, .fields (setField done key value) "" :: stack) := by
  obtain ⟨blanks, hsep, hblanks⟩ := hr.item
  rw [hsep, List.foldl_cons, hc.step ',' (Or.inl rfl)]
  exact foldl_blanks hblanks (Or.inr rfl)

theorem read_key (hr : style.Readable) {mode : Mode} (hm : expectsKey mode) (k : String) {done : List (String × Json)}
    {key : String} :
    (dumpsString k ++ style.keySeparator.toList).foldl step (mode, .fields done key :: stack) =
      (.value, .fields done k :: stack) := by
  have hstart : step (mode, .fields done key :: stack) quote = (.text true .plain [], .fields done key :: stack) := by
    have hw : isWhitespace quote = false := by decide
    have hc : ¬quote = closeBrace := by decide
    rcases hm with rfl | rfl <;> simp [step, hw, hc]
  obtain ⟨blanks, hsep, hblanks⟩ := hr.key
  rw [List.foldl_append, dumpsString, List.cons_append, List.foldl_cons, hstart, read_dumpsString_rest, hsep,
    List.foldl_cons]
  exact foldl_blanks hblanks (Or.inl rfl)

theorem setField_append {done : List (String × Json)} {key : String} (h : key ∉ done.map Prod.fst) (value : Json) :
    setField done key value = done ++ [(key, value)] := by
  induction done with
  | nil => rfl
  | cons field rest ih =>
    obtain ⟨k, v⟩ := field
    simp only [List.map_cons, List.mem_cons, not_or] at h
    rw [setField, if_neg (Ne.symm h.1), ih h.2, List.cons_append]

/-- Distinct keys stay new when the first of them is taken in. -/
theorem new_after_append {done rest : List (String × Json)} {key : String} {value : Json}
    (hnew : ∀ f ∈ (key, value) :: rest, f.1 ∉ done.map Prod.fst) (hkey : key ∉ rest.map Prod.fst) :
    ∀ f ∈ rest, f.1 ∉ (done ++ [(key, value)]).map Prod.fst := by
  intro f hf hmem
  rw [List.map_append] at hmem
  rcases List.mem_append.mp hmem with hmem | hmem
  · exact hnew f (List.mem_cons_of_mem _ hf) hmem
  · have hfk : f.1 = key := List.mem_singleton.mp hmem
    exact hkey (List.mem_map.mpr ⟨f, hf, hfk⟩)

theorem foldl_firstItem {text : List Char} (h : ∃ c rest, text = c :: rest ∧ isWhitespace c = false ∧ c ≠ ']') :
    text.foldl step (.firstItem, stack) = text.foldl step (.value, stack) := by
  obtain ⟨c, rest, rfl, hw, hb⟩ := h
  have hstep : step (.firstItem, stack) c = step (.value, stack) c := by simp [step, hw, hb]
  rw [List.foldl_cons, List.foldl_cons, hstep]

end Values

section RoundTrip

variable {style : Style}

mutual

/-- The reader takes in a value as it was written, whatever surrounds it. -/
theorem read_value (hs : style.sortKeys = false) (hr : style.Readable) (value : Json) (hw : wellFormed value = true)
    (stack : List Frame) :
    Complete ((encode style value).foldl step (.value, stack)) value stack := by
  cases value with
  | null => exact complete_word _
  | bool b => cases b <;> exact complete_word _
  | int n =>
    obtain ⟨c, rest, state, final, htext, hstart, hread, hfinal, hvalue⟩ := read_intText n
    rw [encode, htext, ← hvalue]
    exact read_number hstart hread hfinal
  | float literal => exact read_float hw
  | str s =>
    rw [encode, read_string_value]
    exact complete_after _
  | arr items =>
    have hopen : step (.value, stack) '[' = (.firstItem, .items [] :: stack) := rfl
    rw [encode, List.cons_append, List.foldl_cons, hopen]
    cases items with
    | nil => exact complete_after _
    | cons item rest =>
      have hitems := read_items hs hr (item :: rest) hw (List.cons_ne_nil _ _) [] stack
      have hhead : ∃ c text, join style.itemSeparator.toList (encodeItems style (item :: rest)) ++ [']'] = c :: text ∧
          isWhitespace c = false ∧ c ≠ ']' := by
        simp only [wellFormed, wellFormedItems, Bool.and_eq_true] at hw
        obtain ⟨c, text, htext, hc⟩ := encode_head style item hw.1
        cases rest with
        | nil => exact ⟨c, text ++ [']'], by simp [encodeItems, join, htext], hc⟩
        | cons next rest => exact ⟨c, _, by simp [encodeItems, join, htext]; rfl, hc⟩
      rw [foldl_firstItem hhead, hitems]
      exact complete_after _
  | obj fields =>
    have hopen : step (.value, stack) openBrace = (.firstKey, .fields [] "" :: stack) := rfl
    rw [encode, List.cons_append, List.foldl_cons, hopen]
    cases fields with
    | nil =>
      have hjoin : joinFields style (encodeFields style []) = [] := by simp [joinFields, encodeFields, hs, join]
      rw [hjoin]
      exact complete_after _
    | cons field rest =>
      have hfields := read_entries hs hr (field :: rest) hw (List.cons_ne_nil _ _) [] "" stack (Or.inl rfl)
        (fun f _ hf => by cases hf)
      rw [hfields]
      exact complete_after _

theorem read_items (hs : style.sortKeys = false) (hr : style.Readable) (items : List Json)
    (hw : wellFormedItems items = true) (hne : items ≠ []) (done : List Json) (stack : List Frame) :
    (join style.itemSeparator.toList (encodeItems style items) ++ [']']).foldl step (.value, .items done :: stack) =
      (.after (.arr (done ++ items)), stack) := by
  cases items with
  | nil => exact absurd rfl hne
  | cons item rest =>
    simp only [wellFormedItems, Bool.and_eq_true] at hw
    have hitem := read_value hs hr item hw.1 (.items done :: stack)
    cases rest with
    | nil =>
      rw [encodeItems, encodeItems, join, List.foldl_append, List.foldl_cons, hitem.step ']' (Or.inr (Or.inl rfl))]
      rfl
    | cons next rest =>
      have hrest := read_items hs hr (next :: rest) hw.2 (List.cons_ne_nil _ _) (done ++ [item]) stack
      have htext : join style.itemSeparator.toList (encodeItems style (item :: next :: rest)) ++ [']'] =
          encode style item ++ (style.itemSeparator.toList ++
            (join style.itemSeparator.toList (encodeItems style (next :: rest)) ++ [']'])) := by
        simp [encodeItems, join]
      rw [htext, List.foldl_append, List.foldl_append, read_separator hr hitem, hrest, List.append_assoc,
        List.singleton_append]

theorem read_entries (hs : style.sortKeys = false) (hr : style.Readable) (fields : List (String × Json))
    (hw : wellFormedFields fields = true) (hne : fields ≠ []) (done : List (String × Json)) (key : String)
    (stack : List Frame) {mode : Mode} (hm : expectsKey mode)
    (hnew : ∀ f ∈ fields, f.1 ∉ done.map Prod.fst) :
    (joinFields style (encodeFields style fields) ++ [closeBrace]).foldl step (mode, .fields done key :: stack) =
      (.after (.obj (done ++ fields)), stack) := by
  cases fields with
  | nil => exact absurd rfl hne
  | cons field rest =>
    obtain ⟨k, v⟩ := field
    simp only [wellFormedFields, Bool.and_eq_true, decide_eq_true_eq] at hw
    obtain ⟨hk, hv, hrest⟩ := hw
    have hvalue := read_value hs hr v hv (.fields done k :: stack)
    have hset := setField_append (hnew (k, v) (List.mem_cons_self ..)) v
    cases rest with
    | nil =>
      simp only [joinFields, hs, encodeFields, join, fieldText, List.map_cons, List.map_nil, if_false,
        Bool.false_eq_true]
      rw [List.foldl_append, List.foldl_append, read_key hr hm, List.foldl_cons,
        hvalue.step closeBrace (Or.inr (Or.inr rfl))]
      have hclose : closeValue v closeBrace (.fields done k :: stack) = (.after (.obj (setField done k v)), stack) := rfl
      rw [hclose, hset]
      rfl
    | cons next rest =>
      have hlater := new_after_append hnew hk
      have hnext := read_entries hs hr (next :: rest) hrest (List.cons_ne_nil _ _) (done ++ [(k, v)]) "" stack (Or.inr rfl)
        hlater
      have htext : joinFields style (encodeFields style ((k, v) :: next :: rest)) ++ [closeBrace] =
          (dumpsString k ++ style.keySeparator.toList) ++ (encode style v ++ (style.itemSeparator.toList ++
            (joinFields style (encodeFields style (next :: rest)) ++ [closeBrace]))) := by
        simp [joinFields, hs, encodeFields, join, fieldText]
      rw [htext, List.foldl_append, read_key hr hm, List.foldl_append, List.foldl_append,
        read_field_separator hr hvalue, hset, hnext, List.append_assoc]
      rfl

end

/-- What is written in a readable style, keys in place, is read back. -/
theorem loads_write (hs : style.sortKeys = false) (hr : style.Readable) (value : Json) (hw : wellFormed value = true) :
    loads (write style value) = some value := by
  rw [loads, write, String.toList_ofList]
  exact (read_value hs hr value hw []).result rfl

end RoundTrip

end Json
