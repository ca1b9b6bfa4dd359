import AgentNetwork.Library.Json
import Mathlib.Tactic.IntervalCases

/-! Reading and writing JSON text. The reader takes one character at a time, so
that it runs over a concatenation piece by piece. -/

namespace Json

def quote : Char := Char.ofNat 0x22
def backslash : Char := Char.ofNat 0x5c
def openBrace : Char := Char.ofNat 0x7b
def closeBrace : Char := Char.ofNat 0x7d

def isWhitespace (c : Char) : Bool := c.toNat ∈ [0x20, 0x09, 0x0a, 0x0d]

def hexDigit (c : Char) : Option Nat :=
  let n := c.toNat
  if 0x30 ≤ n ∧ n ≤ 0x39 then some (n - 0x30)
  else if 0x61 ≤ n ∧ n ≤ 0x66 then some (n - 0x57)
  else if 0x41 ≤ n ∧ n ≤ 0x46 then some (n - 0x37)
  else none

/-- The code point of the character a backslash and `c` stand for. -/
def shortEscape (c : Char) : Option Nat :=
  if c = quote ∨ c = backslash ∨ c = '/' then some c.toNat
  else if c = 'b' then some 0x08
  else if c = 'f' then some 0x0c
  else if c = 'n' then some 0x0a
  else if c = 'r' then some 0x0d
  else if c = 't' then some 0x09
  else none

/-- A lone surrogate, which no character is, reads as U+FFFD. -/
def charOf (n : Nat) : Char := if n.isValidChar then Char.ofNat n else Char.ofNat 0xfffd

/-- The characters of a list of code points, with surrogate pairs joined. -/
def ofUnits : List Nat → List Char
  | [] => []
  | [n] => [charOf n]
  | hi :: lo :: rest =>
    if 0xd800 ≤ hi ∧ hi < 0xdc00 ∧ 0xdc00 ≤ lo ∧ lo < 0xe000 then
      charOf (0x10000 + (hi - 0xd800) * 0x400 + (lo - 0xdc00)) :: ofUnits rest
    else charOf hi :: ofUnits (lo :: rest)

inductive StringState
  | plain
  | escaped
  | hex (missing value : Nat)

inductive NumberState
  | minus
  | zero
  | digits
  | point
  | fraction
  | exponent
  | exponentSign
  | exponentDigits

/-- What surrounds the value being read. -/
inductive Frame
  | items (done : List Json)
  | fields (done : List (String × Json)) (key : String)

inductive Mode
  | value
  | firstItem
  | firstKey
  | nextKey
  | colon
  | text (isKey : Bool) (state : StringState) (units : List Nat)
  | number (state : NumberState) (literal : List Char)
  | word (rest : List Char) (result : Json)
  | after (result : Json)
  | failed

abbrev Reader := Mode × List Frame

def isDigit (c : Char) : Bool := 0x30 ≤ c.toNat ∧ c.toNat ≤ 0x39

/-- The first character of a value. -/
def startValue (c : Char) (stack : List Frame) : Reader :=
  if c = quote then (.text false .plain [], stack)
  else if c = openBrace then (.firstKey, .fields [] "" :: stack)
  else if c = '[' then (.firstItem, .items [] :: stack)
  else if c = '-' then (.number .minus [c], stack)
  else if c = '0' then (.number .zero [c], stack)
  else if isDigit c then (.number .digits [c], stack)
  else if c = 'n' then (.word "ull".toList .null, stack)
  else if c = 't' then (.word "rue".toList (.bool true), stack)
  else if c = 'f' then (.word "alse".toList (.bool false), stack)
  else if c = 'N' then (.word "aN".toList (.float "NaN"), stack)
  else if c = 'I' then (.word "nfinity".toList (.float "Infinity"), stack)
  else (.failed, stack)

/-- A character after a complete value. -/
def closeValue (result : Json) (c : Char) (stack : List Frame) : Reader :=
  if isWhitespace c then (.after result, stack)
  else
    match stack with
    | .items done :: rest =>
      if c = ',' then (.value, .items (done ++ [result]) :: rest)
      else if c = ']' then (.after (.arr (done ++ [result])), rest)
      else (.failed, stack)
    | .fields done key :: rest =>
      if c = ',' then (.nextKey, .fields (setField done key result) "" :: rest)
      else if c = closeBrace then (.after (.obj (setField done key result)), rest)
      else (.failed, stack)
    | [] => (.failed, stack)

def natOf (digits : List Char) : Nat := digits.foldl (fun n c => n * 10 + (c.toNat - 0x30)) 0

def numberValue (state : NumberState) (literal : List Char) : Json :=
  match state with
  | .zero | .digits =>
    match literal with
    | '-' :: rest => .int (-(natOf rest : Int))
    | _ => .int (natOf literal)
  | _ => .float (String.ofList literal)

def stepNumber (state : NumberState) (literal : List Char) (c : Char) (stack : List Frame) : Reader :=
  let extend (next : NumberState) : Reader := (.number next (literal ++ [c]), stack)
  let finish : Reader := closeValue (numberValue state literal) c stack
  let isExponent := c = 'e' ∨ c = 'E'
  match state with
  | .minus =>
    if c = '0' then extend .zero
    else if isDigit c then extend .digits
    else if c = 'I' then (.word "nfinity".toList (.float "-Infinity"), stack)
    else (.failed, stack)
  | .zero => if c = '.' then extend .point else if isExponent then extend .exponent else finish
  | .digits =>
    if isDigit c then extend .digits else if c = '.' then extend .point
    else if isExponent then extend .exponent else finish
  | .point => if isDigit c then extend .fraction else (.failed, stack)
  | .fraction => if isDigit c then extend .fraction else if isExponent then extend .exponent else finish
  | .exponent =>
    if c = '+' ∨ c = '-' then extend .exponentSign else if isDigit c then extend .exponentDigits else (.failed, stack)
  | .exponentSign => if isDigit c then extend .exponentDigits else (.failed, stack)
  | .exponentDigits => if isDigit c then extend .exponentDigits else finish

/-- A complete string is a value or the key of the innermost object. -/
def closeString (isKey : Bool) (s : String) (stack : List Frame) : Reader :=
  if isKey then
    match stack with
    | .fields done _ :: rest => (.colon, .fields done s :: rest)
    | _ => (.failed, stack)
  else (.after (.str s), stack)

def stepString (isKey : Bool) (state : StringState) (units : List Nat) (c : Char) (stack : List Frame) : Reader :=
  match state with
  | .plain =>
    if c = quote then closeString isKey (String.ofList (ofUnits units)) stack
    else if c = backslash then (.text isKey .escaped units, stack)
    else if c.toNat < 0x20 then (.failed, stack)
    else (.text isKey .plain (units ++ [c.toNat]), stack)
  | .escaped =>
    if c = 'u' then (.text isKey (.hex 4 0) units, stack)
    else
      match shortEscape c with
      | some n => (.text isKey .plain (units ++ [n]), stack)
      | none => (.failed, stack)
  | .hex missing value =>
    match hexDigit c with
    | none => (.failed, stack)
    | some d =>
      if missing ≤ 1 then (.text isKey .plain (units ++ [value * 16 + d]), stack)
      else (.text isKey (.hex (missing - 1) (value * 16 + d)) units, stack)

def step (reader : Reader) (c : Char) : Reader :=
  let stack := reader.2
  match reader.1 with
  | .text isKey state units => stepString isKey state units c stack
  | .number state literal => stepNumber state literal c stack
  | .word [] result => closeValue result c stack
  | .word (w :: rest) result => if c = w then (.word rest result, stack) else (.failed, stack)
  | .after result => closeValue result c stack
  | .failed => (.failed, stack)
  | .value => if isWhitespace c then reader else startValue c stack
  | .firstItem =>
    if isWhitespace c then reader
    else if c = ']' then (.after (.arr []), stack.tail)
    else startValue c stack
  | .firstKey =>
    if isWhitespace c then reader
    else if c = closeBrace then (.after (.obj []), stack.tail)
    else if c = quote then (.text true .plain [], stack)
    else (.failed, stack)
  | .nextKey =>
    if isWhitespace c then reader
    else if c = quote then (.text true .plain [], stack)
    else (.failed, stack)
  | .colon =>
    if isWhitespace c then reader
    else if c = ':' then (.value, stack)
    else (.failed, stack)

/-- The value at the end of the text, if that is where it ends. -/
def result? (reader : Reader) : Option Json :=
  match reader with
  | (.after result, []) => some result
  | (.word [] result, []) => some result
  | (.number state literal, []) =>
    match state with
    | .zero | .digits | .fraction | .exponentDigits => some (numberValue state literal)
    | .minus | .point | .exponent | .exponentSign => none
  | _ => none

/-- `json.loads`. -/
def loads (text : String) : Option Json := result? (text.toList.foldl step (.value, []))

def hexDigits (n : Nat) : List Char :=
  [Nat.digitChar (n / 0x1000 % 16), Nat.digitChar (n / 0x100 % 16), Nat.digitChar (n / 0x10 % 16), Nat.digitChar (n % 16)]

def unitEscape (n : Nat) : List Char := backslash :: 'u' :: hexDigits n

/-- How `json.dumps` writes one character of a string. -/
def escape (c : Char) : List Char :=
  let n := c.toNat
  if c = quote then [backslash, quote]
  else if c = backslash then [backslash, backslash]
  else if n = 0x0a then [backslash, 'n']
  else if n = 0x0d then [backslash, 'r']
  else if n = 0x09 then [backslash, 't']
  else if n = 0x0c then [backslash, 'f']
  else if n = 0x08 then [backslash, 'b']
  else if 0x20 ≤ n ∧ n ≤ 0x7e then [c]
  else if n < 0x10000 then unitEscape n
  else unitEscape (0xd800 + (n - 0x10000) / 0x400) ++ unitEscape (0xdc00 + (n - 0x10000) % 0x400)

def dumpsString (s : String) : List Char := quote :: s.toList.flatMap escape ++ [quote]

def dumpsFields : List (String × String) → List Char
  | [] => []
  | [(k, v)] => dumpsString k ++ ": ".toList ++ dumpsString v
  | (k, v) :: rest => dumpsString k ++ ": ".toList ++ dumpsString v ++ ", ".toList ++ dumpsFields rest

/-- `json.dumps` of a dictionary of strings. -/
def dumps (fields : List (String × String)) : String := String.ofList (openBrace :: dumpsFields fields ++ [closeBrace])

section Escape

variable {isKey : Bool} {units : List Nat} {stack : List Frame}

/-- The code points the reader collects for one character. -/
def unitsOf (c : Char) : List Nat :=
  let n := c.toNat
  if n < 0x10000 then [n] else [0xd800 + (n - 0x10000) / 0x400, 0xdc00 + (n - 0x10000) % 0x400]

theorem hexDigit_digitChar {d : Nat} (h : d < 16) : hexDigit (Nat.digitChar d) = some d := by
  interval_cases d <;> rfl

theorem step_plain {c : Char} (hquote : c ≠ quote) (hbackslash : c ≠ backslash) (hlow : ¬c.toNat < 0x20) :
    step (.text isKey .plain units, stack) c = (.text isKey .plain (units ++ [c.toNat]), stack) := by
  change stepString isKey .plain units c stack = _
  simp only [stepString, if_neg hquote, if_neg hbackslash, if_neg hlow]

theorem step_backslash : step (.text isKey .plain units, stack) backslash = (.text isKey .escaped units, stack) := rfl

theorem step_shortEscape {c : Char} {n : Nat} (hc : c ≠ 'u') (hn : shortEscape c = some n) :
    step (.text isKey .escaped units, stack) c = (.text isKey .plain (units ++ [n]), stack) := by
  change stepString isKey .escaped units c stack = _
  simp only [stepString, if_neg hc, hn]

theorem step_u : step (.text isKey .escaped units, stack) 'u' = (.text isKey (.hex 4 0) units, stack) := rfl

theorem step_hexDigit {c : Char} {missing value d : Nat} (h : hexDigit c = some d) (hmissing : 1 < missing) :
    step (.text isKey (.hex missing value) units, stack) c = (.text isKey (.hex (missing - 1) (value * 16 + d)) units, stack) := by
  change stepString isKey (.hex missing value) units c stack = _
  simp only [stepString, h]
  exact if_neg (by omega)

theorem step_lastDigit {c : Char} {value d : Nat} (h : hexDigit c = some d) :
    step (.text isKey (.hex 1 value) units, stack) c = (.text isKey .plain (units ++ [value * 16 + d]), stack) := by
  change stepString isKey (.hex 1 value) units c stack = _
  simp only [stepString, h]
  exact if_pos (by omega)

theorem step_unitEscape {n : Nat} (h : n < 0x10000) :
    (unitEscape n).foldl step (.text isKey .plain units, stack) = (.text isKey .plain (units ++ [n]), stack) := by
  have h₁ := hexDigit_digitChar (Nat.mod_lt (n / 0x1000) (by omega : 0 < 16))
  have h₂ := hexDigit_digitChar (Nat.mod_lt (n / 0x100) (by omega : 0 < 16))
  have h₃ := hexDigit_digitChar (Nat.mod_lt (n / 0x10) (by omega : 0 < 16))
  have h₄ := hexDigit_digitChar (Nat.mod_lt n (by omega : 0 < 16))
  have hn : (((0 * 16 + n / 0x1000 % 16) * 16 + n / 0x100 % 16) * 16 + n / 0x10 % 16) * 16 + n % 16 = n := by omega
  have htext : unitEscape n = [backslash, 'u', Nat.digitChar (n / 0x1000 % 16), Nat.digitChar (n / 0x100 % 16),
      Nat.digitChar (n / 0x10 % 16), Nat.digitChar (n % 16)] := rfl
  rw [htext, List.foldl_cons, List.foldl_cons, List.foldl_cons, List.foldl_cons, List.foldl_cons, List.foldl_cons,
    List.foldl_nil, step_backslash, step_u, step_hexDigit h₁ (by omega), step_hexDigit h₂ (by omega),
    step_hexDigit h₃ (by omega), step_lastDigit h₄, hn]

theorem step_escape (c : Char) :
    (escape c).foldl step (.text isKey .plain units, stack) = (.text isKey .plain (units ++ unitsOf c), stack) := by
  have hshort (d : Char) (n : Nat) (hd : d ≠ 'u') (hs : shortEscape d = some n) (hc : unitsOf c = [n]) :
      [backslash, d].foldl step (.text isKey .plain units, stack) =
        (.text isKey .plain (units ++ unitsOf c), stack) := by
    rw [List.foldl_cons, List.foldl_cons, List.foldl_nil, step_backslash, step_shortEscape hd hs, hc]
  have hbmp (h : c.toNat < 0x10000) : unitsOf c = [c.toNat] := by simp [unitsOf, h]
  unfold escape
  dsimp only
  by_cases hquote : c = quote
  · rw [if_pos hquote]
    exact hshort quote 0x22 (by decide) (by decide) (by rw [hquote]; rfl)
  rw [if_neg hquote]
  by_cases hbackslash : c = backslash
  · rw [if_pos hbackslash]
    exact hshort backslash 0x5c (by decide) (by decide) (by rw [hbackslash]; rfl)
  rw [if_neg hbackslash]
  by_cases hn : c.toNat = 0x0a
  · rw [if_pos hn]
    exact hshort 'n' 0x0a (by decide) (by decide) (by rw [hbmp (by omega), hn])
  rw [if_neg hn]
  by_cases hr : c.toNat = 0x0d
  · rw [if_pos hr]
    exact hshort 'r' 0x0d (by decide) (by decide) (by rw [hbmp (by omega), hr])
  rw [if_neg hr]
  by_cases ht : c.toNat = 0x09
  · rw [if_pos ht]
    exact hshort 't' 0x09 (by decide) (by decide) (by rw [hbmp (by omega), ht])
  rw [if_neg ht]
  by_cases hf : c.toNat = 0x0c
  · rw [if_pos hf]
    exact hshort 'f' 0x0c (by decide) (by decide) (by rw [hbmp (by omega), hf])
  rw [if_neg hf]
  by_cases hb : c.toNat = 0x08
  · rw [if_pos hb]
    exact hshort 'b' 0x08 (by decide) (by decide) (by rw [hbmp (by omega), hb])
  rw [if_neg hb]
  by_cases hprintable : 0x20 ≤ c.toNat ∧ c.toNat ≤ 0x7e
  · rw [if_pos hprintable, List.foldl_cons, List.foldl_nil, step_plain hquote hbackslash (by omega), hbmp (by omega)]
  rw [if_neg hprintable]
  by_cases h : c.toNat < 0x10000
  · rw [if_pos h, step_unitEscape h, hbmp h]
  · have htop : c.toNat < 0x110000 := by
      rcases c.valid with hv | hv
      · have : c.toNat = c.val.toNat := rfl
        omega
      · exact hv.2
    rw [if_neg h, List.foldl_append, step_unitEscape (by omega), step_unitEscape (by omega)]
    have hunits : unitsOf c = [0xd800 + (c.toNat - 0x10000) / 0x400, 0xdc00 + (c.toNat - 0x10000) % 0x400] := by
      simp [unitsOf, h]
    rw [hunits, List.append_assoc]
    rfl

theorem step_escapes (cs : List Char) :
    (cs.flatMap escape).foldl step (.text isKey .plain units, stack) =
      (.text isKey .plain (units ++ cs.flatMap unitsOf), stack) := by
  induction cs generalizing units with
  | nil => simp
  | cons c cs ih => rw [List.flatMap_cons, List.foldl_append, step_escape, ih, List.flatMap_cons, List.append_assoc]

end Escape

section Units

theorem isValidChar_toNat (c : Char) : c.toNat.isValidChar := c.valid

theorem charOf_toNat (c : Char) : charOf c.toNat = c := by
  rw [charOf, if_pos (isValidChar_toNat c)]
  exact Char.ofNat_toNat c

/-- What the reader collects for a text is read back as the text. -/
theorem ofUnits_unitsOf (cs : List Char) : ofUnits (cs.flatMap unitsOf) = cs := by
  induction cs with
  | nil => rfl
  | cons c cs ih =>
    rw [List.flatMap_cons]
    by_cases h : c.toNat < 0x10000
    · have hunits : unitsOf c = [c.toNat] := by simp [unitsOf, h]
      rw [hunits, List.singleton_append]
      have hplain : ¬(0xd800 ≤ c.toNat ∧ c.toNat < 0xdc00) := by
        have hv := isValidChar_toNat c
        unfold Nat.isValidChar at hv
        omega
      generalize cs.flatMap unitsOf = rest at ih ⊢
      cases rest with
      | nil =>
        have hcs : cs = [] := by simpa [ofUnits] using ih.symm
        rw [ofUnits, charOf_toNat, hcs]
      | cons lo rest =>
        rw [ofUnits, if_neg (fun hp => hplain ⟨hp.1, hp.2.1⟩), charOf_toNat, ih]
    · have hunits : unitsOf c = [0xd800 + (c.toNat - 0x10000) / 0x400, 0xdc00 + (c.toNat - 0x10000) % 0x400] := by
        simp [unitsOf, h]
      have hv := isValidChar_toNat c
      unfold Nat.isValidChar at hv
      have hpair : 0x10000 + (0xd800 + (c.toNat - 0x10000) / 0x400 - 0xd800) * 0x400 +
          (0xdc00 + (c.toNat - 0x10000) % 0x400 - 0xdc00) = c.toNat := by omega
      rw [hunits, List.cons_append, List.singleton_append, ofUnits, if_pos (by omega), hpair, charOf_toNat, ih]

end Units

section RoundTrip

variable {stack : List Frame} {done : List (String × Json)} {key : String}

theorem step_quote {isKey : Bool} {units : List Nat} :
    step (.text isKey .plain units, stack) quote = closeString isKey (String.ofList (ofUnits units)) stack := by
  simp [step, stepString]

theorem read_dumpsString_rest (isKey : Bool) (s : String) :
    (s.toList.flatMap escape ++ [quote]).foldl step (.text isKey .plain [], stack) = closeString isKey s stack := by
  rw [List.foldl_append, step_escapes, List.nil_append, List.foldl_cons, List.foldl_nil, step_quote, ofUnits_unitsOf,
    String.ofList_toList]

theorem read_string_value (s : String) :
    (dumpsString s).foldl step (.value, stack) = (.after (.str s), stack) := by
  have hstart : step (.value, stack) quote = (.text false .plain [], stack) := by
    have hw : isWhitespace quote = false := by decide
    simp [step, hw, startValue]
  rw [dumpsString, List.cons_append, List.foldl_cons, hstart, read_dumpsString_rest]
  rfl

/-- An object that expects a key, after its brace or after a comma and a blank. -/
def expectsKey (mode : Mode) : Prop := mode = .firstKey ∨ mode = .nextKey

theorem read_field {mode : Mode} (hm : expectsKey mode) (k v : String) :
    (dumpsString k ++ ": ".toList ++ dumpsString v).foldl step (mode, .fields done key :: stack) =
      (.after (.str v), .fields done k :: stack) := by
  have hstart : step (mode, .fields done key :: stack) quote = (.text true .plain [], .fields done key :: stack) := by
    have hw : isWhitespace quote = false := by decide
    have hc : ¬quote = closeBrace := by decide
    rcases hm with rfl | rfl <;> simp [step, hw, hc]
  have hcolon : (": ".toList).foldl step (.colon, .fields done k :: stack) = (.value, .fields done k :: stack) := rfl
  rw [List.foldl_append, List.foldl_append, dumpsString, List.cons_append, List.foldl_cons, hstart,
    read_dumpsString_rest]
  change (dumpsString v).foldl step ((": ".toList).foldl step (.colon, .fields done k :: stack)) = _
  rw [hcolon, read_string_value]

def strFields (fields : List (String × String)) (done : List (String × Json)) : List (String × Json) :=
  fields.foldl (fun done f => setField done f.1 (.str f.2)) done

theorem read_fields {mode : Mode} (hm : expectsKey mode) (fields : List (String × String)) (hne : fields ≠ []) :
    (dumpsFields fields ++ [closeBrace]).foldl step (mode, .fields done key :: stack) =
      (.after (.obj (strFields fields done)), stack) := by
  induction fields generalizing mode done key with
  | nil => exact absurd rfl hne
  | cons field rest ih =>
    obtain ⟨k, v⟩ := field
    cases rest with
    | nil =>
      have hclose : closeValue (.str v) closeBrace (.fields done k :: stack) =
          (.after (.obj (setField done k (.str v))), stack) := by
        have hw : isWhitespace closeBrace = false := by decide
        have hc : ¬closeBrace = ',' := by decide
        simp [closeValue, hw, hc]
      rw [dumpsFields, List.foldl_append, read_field hm]
      exact hclose
    | cons next rest =>
      have hcomma : (", ".toList).foldl step (.after (.str v), .fields done k :: stack) =
          (.nextKey, .fields (setField done k (.str v)) "" :: stack) := rfl
      have hrest : (dumpsFields (next :: rest) ++ [closeBrace]).foldl step
          (.nextKey, .fields (setField done k (.str v)) "" :: stack) =
            (.after (.obj (strFields (next :: rest) (setField done k (.str v)))), stack) :=
        ih (Or.inr rfl) (List.cons_ne_nil next rest)
      rw [dumpsFields, List.foldl_append, List.foldl_append, List.foldl_append, read_field hm, hcomma,
        ← List.foldl_append, hrest]
      · rfl
      · simp

/-- A dictionary of strings is read back as it was written. -/
theorem loads_dumps (fields : List (String × String)) : loads (dumps fields) = some (.obj (strFields fields [])) := by
  have hopen : step (.value, []) openBrace = (.firstKey, [.fields [] ""]) := by
    have hw : isWhitespace openBrace = false := by decide
    have hq : ¬openBrace = quote := by decide
    simp [step, hw, startValue, hq]
  rw [loads, dumps, String.toList_ofList, List.cons_append, List.foldl_cons, hopen]
  by_cases h : fields = []
  · subst h
    rfl
  · rw [read_fields (Or.inl rfl) fields h]
    rfl

end RoundTrip

end Json
