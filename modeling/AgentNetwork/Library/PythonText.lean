import AgentNetwork.Library.Json
import Mathlib.Data.String.Basic

/-! `str` and `repr` of JSON values as a Python program holds them. Which
characters outside ASCII are printable is for the Unicode tables to say. A text that
starts with a separator is split there. -/

namespace Python

variable (isPrintable : Char → Bool)

def hexText (width n : Nat) : List Char :=
  let digits := Nat.toDigits 16 n
  List.replicate (width - digits.length) '0' ++ digits

def singleQuote : Char := Char.ofNat 0x27
def doubleQuote : Char := Char.ofNat 0x22
def backslash : Char := Char.ofNat 0x5c

def reprChar (quote c : Char) : List Char :=
  let n := c.toNat
  if c = quote ∨ c = backslash then [backslash, c]
  else if n = 0x09 then [backslash, 't']
  else if n = 0x0a then [backslash, 'n']
  else if n = 0x0d then [backslash, 'r']
  else if n < 0x20 ∨ n = 0x7f then backslash :: 'x' :: hexText 2 n
  else if n < 0x7f ∨ isPrintable c then [c]
  else if n ≤ 0xff then backslash :: 'x' :: hexText 2 n
  else if n ≤ 0xffff then backslash :: 'u' :: hexText 4 n
  else backslash :: 'U' :: hexText 8 n

/-- A text with single quotes and no double ones is put between double quotes. -/
def reprString (s : String) : List Char :=
  let quote := if singleQuote ∈ s.toList ∧ doubleQuote ∉ s.toList then doubleQuote else singleQuote
  quote :: s.toList.flatMap (reprChar isPrintable quote) ++ [quote]

def floatText (literal : String) : String :=
  if literal = "NaN" then "nan" else if literal = "Infinity" then "inf"
  else if literal = "-Infinity" then "-inf" else literal

def commaJoin : List (List Char) → List Char
  | [] => []
  | [text] => text
  | text :: rest => text ++ [',', ' '] ++ commaJoin rest

mutual

def reprChars : Json → List Char
  | .null => "None".toList
  | .bool true => "True".toList
  | .bool false => "False".toList
  | .int n => (toString n).toList
  | .float literal => (floatText literal).toList
  | .str s => reprString isPrintable s
  | .arr items => '[' :: commaJoin (reprItems items) ++ [']']
  | .obj fields => Char.ofNat 0x7b :: commaJoin (reprFields fields) ++ [Char.ofNat 0x7d]

def reprItems : List Json → List (List Char)
  | [] => []
  | item :: rest => reprChars item :: reprItems rest

def reprFields : List (String × Json) → List (List Char)
  | [] => []
  | (key, value) :: rest => (reprString isPrintable key ++ [':', ' '] ++ reprChars value) :: reprFields rest

end

/-- `str(value)`, which is also how an f-string shows it. -/
def str (value : Json) : String :=
  match value with
  | .str s => s
  | _ => String.ofList (reprChars isPrintable value)

/-- `type(value).__name__`. -/
def typeName : Json → String
  | .null => "NoneType"
  | .bool _ => "bool"
  | .int _ => "int"
  | .float _ => "float"
  | .str _ => "str"
  | .arr _ => "list"
  | .obj _ => "dict"

section Split

open String

/-- The search for a separator that never comes: what remains is one part. -/
theorem splitOnAux_last {separator : List Char} {mark : Char} (hmark : mark ∈ separator) (l m found rest ahead : List Char)
    (parts : List String) (hsep : separator = found ++ ahead) (hahead : ahead ≠ []) (hnot : mark ∉ found ++ rest) :
    splitOnAux (ofList (l ++ m ++ found ++ rest)) (ofList separator) ⟨utf8Len l⟩ ⟨utf8Len l + utf8Len m + utf8Len found⟩
      ⟨utf8Len found⟩ parts = parts.reverse ++ [ofList (m ++ found ++ rest)] := by
  unfold splitOnAux
  match rest, hnot with
  | [], _ =>
    have hend := (atEnd_of_valid (l ++ m ++ found) []).mpr rfl
    have hpart := extract_of_valid l (m ++ found) []
    simp only [utf8Len_append, List.append_nil, Nat.add_assoc, List.append_assoc] at hend hpart ⊢
    rw [if_pos hend, hpart, List.reverse_cons]
  | c :: rest, hnot =>
    obtain ⟨next, ahead, rfl⟩ := List.exists_cons_of_ne_nil hahead
    have hend : ¬Pos.Raw.atEnd (ofList (l ++ m ++ found ++ c :: rest)) ⟨utf8Len (l ++ m ++ found)⟩ = true :=
      fun h => nomatch (atEnd_of_valid (l ++ m ++ found) (c :: rest)).mp h
    have hget := get_of_valid (l ++ m ++ found) (c :: rest)
    have hnext := next_of_valid (l ++ m ++ found) c rest
    have hgetSep := get_of_valid found (next :: ahead)
    have hnextSep := next_of_valid found next ahead
    rw [← hsep] at hgetSep hnextSep
    simp only [utf8Len_append, List.headD_cons] at hend hget hnext hgetSep hnextSep
    rw [if_neg hend, hget, hgetSep]
    by_cases hc : c = next
    · subst hc
      have hmore : ahead ≠ [] := by
        rintro rfl
        apply hnot
        rw [hsep] at hmark
        simp only [List.mem_append, List.mem_cons, List.not_mem_nil, or_false] at hmark ⊢
        tauto
      have hendSep : ¬Pos.Raw.atEnd (ofList separator) ⟨utf8Len (found ++ [c])⟩ = true := by
        rw [hsep, List.append_cons]
        exact fun h => hmore ((atEnd_of_valid (found ++ [c]) ahead).mp h)
      have hrest := splitOnAux_last hmark l m (found ++ [c]) rest ahead parts (by simpa using hsep) hmore (by simpa using hnot)
      simp only [utf8Len_append, utf8Len_cons, utf8Len_nil, Nat.zero_add] at hendSep hrest
      simp only [beq_self_eq_true, if_true, hnext, hnextSep, if_neg hendSep]
      simpa [Nat.add_assoc] using hrest
    · have hne : (c == next) = false := by simpa using hc
      obtain ⟨first, tail, htail⟩ : ∃ first tail, found ++ c :: rest = first :: tail :=
        List.exists_cons_of_ne_nil (by simp)
      have hlength : tail.length = found.length + rest.length := by
        have hsame := congrArg List.length htail
        simp only [List.length_append, List.length_cons] at hsame
        omega
      have hsepNe : separator ≠ [] := List.ne_nil_of_mem hmark
      have hafter : mark ∉ [] ++ tail := by
        rw [htail, List.mem_cons, not_or] at hnot
        exact hnot.2
      -- the search goes on after the first letter of what had been found
      have hback : (Pos.Raw.unoffsetBy ⟨utf8Len l + utf8Len m + utf8Len found⟩ ⟨utf8Len found⟩) = ⟨utf8Len (l ++ m)⟩ := by
        simp [Pos.Raw.unoffsetBy]
      have hnextBack := next_of_valid (l ++ m) first tail
      have hrest := splitOnAux_last hmark l (m ++ [first]) [] tail separator parts rfl hsepNe hafter
      have htext : l ++ m ++ found ++ c :: rest = l ++ m ++ first :: tail := by
        rw [List.append_assoc (l ++ m), htail]
      have hlast : m ++ found ++ c :: rest = m ++ [first] ++ [] ++ tail := by
        rw [List.append_assoc m, htail]
        simp
      rw [hne, hback, htext, hnextBack, hlast]
      simpa [Nat.add_assoc] using hrest
termination_by (found.length + rest.length, rest.length)
decreasing_by
  · simp only [List.length_append, List.length_cons, List.length_nil]
    exact Prod.Lex.right' _ (by omega) (by omega)
  · exact Prod.Lex.left _ _ (by simp only [List.length_nil, List.length_cons, hlength]; omega)

/-- The search for a separator that comes at once. -/
theorem splitOnAux_first {separator found ahead : List Char} (rest : List Char) (hsep : separator = found ++ ahead) (hahead : ahead ≠ []) :
    splitOnAux (ofList (separator ++ rest)) (ofList separator) 0 ⟨utf8Len found⟩ ⟨utf8Len found⟩ [] =
      splitOnAux (ofList (separator ++ rest)) (ofList separator) ⟨utf8Len separator⟩ ⟨utf8Len separator⟩ 0 [""] := by
  induction ahead generalizing found with
  | nil => exact absurd rfl hahead
  | cons next ahead ih =>
    have hend : ¬Pos.Raw.atEnd (ofList (found ++ (next :: ahead ++ rest))) ⟨utf8Len found⟩ = true :=
      fun h => nomatch (atEnd_of_valid found (next :: ahead ++ rest)).mp h
    have hget := get_of_valid found (next :: ahead ++ rest)
    have hnext := next_of_valid found next (ahead ++ rest)
    have hgetSep := get_of_valid found (next :: ahead)
    have hnextSep := next_of_valid found next ahead
    rw [← List.append_assoc, ← hsep] at hend hget
    rw [← List.cons_append, ← List.append_assoc, ← hsep] at hnext
    rw [← hsep] at hgetSep hnextSep
    rw [splitOnAux, if_neg hend, hget, hgetSep]
    simp only [List.cons_append, List.headD_cons, beq_self_eq_true, if_true, hnext, hnextSep]
    cases ahead with
    | nil =>
      have hendSep : Pos.Raw.atEnd (ofList separator) ⟨utf8Len found + next.utf8Size⟩ = true := by
        have h := (atEnd_of_valid separator []).mpr rfl
        rw [List.append_nil] at h
        simpa [hsep] using h
      have hlength : utf8Len found + next.utf8Size = utf8Len separator := by simp [hsep]
      have hback : Pos.Raw.unoffsetBy ⟨utf8Len separator⟩ ⟨utf8Len separator⟩ = 0 := by simp [Pos.Raw.unoffsetBy]
      have hempty : Pos.Raw.extract (ofList (separator ++ rest)) 0 0 = "" := extract_of_valid [] [] (separator ++ rest)
      rw [if_pos hendSep, hlength, hback, hempty]
    | cons more ahead =>
      have hendSep : ¬Pos.Raw.atEnd (ofList separator) ⟨utf8Len found + next.utf8Size⟩ = true := by
        have h := atEnd_of_valid (found ++ [next]) (more :: ahead)
        simp only [utf8Len_append, utf8Len_cons, utf8Len_nil, Nat.zero_add, List.append_assoc, List.singleton_append, ← hsep] at h
        exact fun he => nomatch h.mp he
      rw [if_neg hendSep]
      have hsep' : separator = (found ++ [next]) ++ (more :: ahead) := by simpa using hsep
      have hrest := ih hsep' (List.cons_ne_nil _ _)
      simpa [Nat.add_assoc] using hrest

theorem splitOn_prefix {separator rest : List Char} {mark : Char} (hmark : mark ∈ separator) (hnot : mark ∉ rest) :
    (ofList (separator ++ rest)).splitOn (ofList separator) = ["", ofList rest] := by
  have hne : separator ≠ [] := List.ne_nil_of_mem hmark
  have hsep : (ofList separator == "") = false := by
    rw [beq_eq_false_iff_ne, ← ofList_nil]
    exact fun he => hne (ofList_injective he)
  have hfirst := splitOnAux_first rest (List.nil_append separator).symm hne
  have hlast := splitOnAux_last hmark separator [] [] rest separator [""] rfl hne hnot
  simp only [utf8Len_nil, Nat.add_zero, List.append_nil, List.nil_append] at hfirst hlast
  rw [splitOn, hsep]
  exact hfirst.trans hlast

end Split

end Python
