import Mathlib.Tactic.Common

/-! Dotted subjects, and the patterns of subscriptions: `*` stands for one part,
`>` at the end for one or more. -/

namespace Subject

/-- `subject.split(".")`. -/
def parts (subject : String) : List String := (subject.toList.splitOn '.').map String.ofList

def matchParts : List String → List String → Bool
  | [], [] => true
  | pattern :: patterns, part :: rest =>
    (decide (pattern = ">") && patterns.isEmpty) ||
      ((decide (pattern = "*") || decide (pattern = part)) && matchParts patterns rest)
  | _, _ => false

/-- The subject a message is published on matches the one of a subscription. -/
def covers (pattern subject : String) : Bool := matchParts (parts pattern) (parts subject)

theorem parts_ne_nil (subject : String) : parts subject ≠ [] := by
  simp [parts]

theorem parts_dot (first rest : String) : parts (first ++ "." ++ rest) = parts first ++ parts rest := by
  have hsplit := List.splitOn_append_cons_self (a := '.') first.toList rest.toList
  simp [parts, hsplit]

/-- A part without a dot is the only part of itself. -/
theorem parts_of_no_dot {part : String} (h : '.' ∉ part.toList) : parts part = [part] := by
  simp [parts, List.splitOn_eq_singleton h]

/-- A subject of one part is that part. -/
theorem eq_of_parts {subject part : String} (h : parts subject = [part]) : subject = part := by
  obtain ⟨chars, hchars, hpart⟩ := List.map_eq_singleton_iff.mp h
  have hjoin : ['.'].intercalate (subject.toList.splitOn '.') = subject.toList := List.intercalate_splitOn '.'
  rw [hchars] at hjoin
  have hsame : chars = subject.toList := by simpa using hjoin
  rw [← hpart, hsame, String.ofList_toList]

theorem parts_cases (subject : String) :
    parts subject = [subject] ∨ ∃ first second rest, parts subject = first :: second :: rest := by
  cases h : parts subject with
  | nil => exact absurd h (parts_ne_nil subject)
  | cons first tail =>
    cases tail with
    | nil => exact Or.inl (by rw [eq_of_parts h])
    | cons second rest => exact Or.inr ⟨first, second, rest, rfl⟩

theorem matchParts_self {parts : List String} : matchParts parts parts = true := by
  induction parts with
  | nil => rfl
  | cons part rest ih => simp [matchParts, ih]

/-- A subject covers itself. -/
theorem covers_self (subject : String) : covers subject subject = true := matchParts_self

end Subject
