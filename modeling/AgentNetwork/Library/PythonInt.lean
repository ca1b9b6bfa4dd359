import AgentNetwork.Library.JsonWriter
import AgentNetwork.Library.PythonNumber

/-! `int(…)` of the text of an integer and of a JSON value. -/

namespace Python

/-- The characters around a number that `int` passes over. -/
def isPadding (c : Char) : Bool :=
  c.toNat ∈ [0x09, 0x0a, 0x0b, 0x0c, 0x0d, 0x1c, 0x1d, 0x1e, 0x1f, 0x20, 0x85, 0xa0, 0x1680, 0x2028, 0x2029,
    0x202f, 0x205f, 0x3000] ∨ (0x2000 ≤ c.toNat ∧ c.toNat ≤ 0x200a)

/-- Groups of ASCII digits with one underscore between them. -/
def digitsValue? (cs : List Char) : Option Nat :=
  let groups := cs.splitOn '_'
  if groups.all fun group => !group.isEmpty && group.all Json.isDigit then some (Json.natOf groups.flatten) else none

/-- `int(text)`; `none` where it raises. -/
def parseInt (text : String) : Option Int :=
  match ((text.toList.dropWhile isPadding).reverse.dropWhile isPadding).reverse with
  | '-' :: cs => (digitsValue? cs).map fun n => -Int.ofNat n
  | '+' :: cs => (digitsValue? cs).map Int.ofNat
  | cs => (digitsValue? cs).map Int.ofNat

/-- `int(value)`; `none` where it raises. -/
def toInt? : Json → Option Int
  | .int n => some n
  | .bool b => some (if b then 1 else 0)
  | .float literal =>
    match Number.ofLiteral literal with
    | .finite q => some (Double.trunc q)
    | .posInf | .negInf | .nan => none
  | .str s => parseInt s
  | .null | .arr _ | .obj _ => none

theorem digitsValue?_digits {cs : List Char} (hne : cs ≠ []) (h : ∀ c ∈ cs, Json.isDigit c = true) :
    digitsValue? cs = some (Json.natOf cs) := by
  have hplain : '_' ∉ cs := fun hc => absurd (h _ hc) (by decide)
  have hgroups : cs.splitOn '_' = [cs] := List.splitOn_eq_singleton hplain
  have hempty : cs.isEmpty = false := by simpa using hne
  have hall : cs.all Json.isDigit = true := List.all_eq_true.mpr h
  simp [digitsValue?, hgroups, hempty, hall]

theorem isDigit_not_padding {c : Char} (h : Json.isDigit c = true) : isPadding c = false := by
  have hrange : 0x30 ≤ c.toNat ∧ c.toNat ≤ 0x39 := by simpa [Json.isDigit] using h
  unfold isPadding
  simp only [List.mem_cons, List.not_mem_nil, or_false, decide_eq_false_iff_not]
  omega

theorem dropWhile_padding_digits {cs : List Char} (h : ∀ c ∈ cs, Json.isDigit c = true) : cs.dropWhile isPadding = cs := by
  cases cs with
  | nil => rfl
  | cons c rest => rw [List.dropWhile_cons, isDigit_not_padding (h c List.mem_cons_self), if_neg Bool.false_ne_true]

theorem toDigits_value (n : Nat) : Nat.toDigits 10 n ≠ [] ∧ (∀ c ∈ Nat.toDigits 10 n, Json.isDigit c = true) ∧
    Json.natOf (Nat.toDigits 10 n) = n := by
  rcases Nat.eq_zero_or_pos n with rfl | hn
  · have hzero : Nat.toDigits 10 0 = ['0'] := rfl
    rw [hzero]
    exact ⟨List.cons_ne_nil _ _, List.forall_mem_singleton.mpr rfl, rfl⟩
  · have h := Json.toDigits_digits hn
    obtain ⟨c, rest, htext, -⟩ := h.head
    exact ⟨by simp [htext], h.digits, h.value⟩

/-- The text of a natural number is read back. -/
theorem parseInt_toDigits (n : Nat) : parseInt (String.ofList (Nat.toDigits 10 n)) = some (n : Int) := by
  obtain ⟨hne, hall, hvalue⟩ := toDigits_value n
  have hback : ∀ c ∈ (Nat.toDigits 10 n).reverse, Json.isDigit c = true := fun c hc => hall c (List.mem_reverse.mp hc)
  unfold parseInt
  rw [String.toList_ofList, dropWhile_padding_digits hall, dropWhile_padding_digits hback, List.reverse_reverse]
  split
  next htext =>
    rw [htext] at hall
    exact absurd (hall _ List.mem_cons_self) (by decide)
  next htext =>
    rw [htext] at hall
    exact absurd (hall _ List.mem_cons_self) (by decide)
  next =>
    rw [digitsValue?_digits hne hall, hvalue]
    rfl

/-- The text of an integer in an f-string. -/
theorem toList_repr (n : Int) : n.repr.toList = Json.intText n := by
  cases n with
  | ofNat n => simp only [Int.repr, Nat.repr_eq_ofList_toDigits, String.toList_ofList, Json.intText]
  | negSucc n =>
    simp only [Int.repr, String.toList_append, Nat.repr_eq_ofList_toDigits, String.toList_ofList, Json.intText]
    rfl

theorem mem_intText {n : Int} {c : Char} (h : c ∈ Json.intText n) : c = '-' ∨ Json.isDigit c = true := by
  cases n with
  | ofNat n => exact .inr ((toDigits_value n).2.1 c h)
  | negSucc n =>
    rcases List.mem_cons.mp h with rfl | h
    · exact .inl rfl
    · exact .inr ((toDigits_value (n + 1)).2.1 c h)

theorem intText_injective : Function.Injective Json.intText := by
  have hdigit {m n : Nat} : Nat.toDigits 10 m ≠ '-' :: Nat.toDigits 10 n := by
    intro heq
    have hminus := (toDigits_value m).2.1 '-' (heq ▸ List.mem_cons_self)
    exact absurd hminus (by decide)
  intro m n h
  cases m with
  | ofNat m =>
    cases n with
    | ofNat n =>
      have hvalue := congrArg Json.natOf h
      rw [Json.intText, Json.intText, (toDigits_value m).2.2, (toDigits_value n).2.2] at hvalue
      rw [hvalue]
    | negSucc n => exact absurd h hdigit
  | negSucc m =>
    cases n with
    | ofNat n => exact absurd h.symm hdigit
    | negSucc n =>
      have hvalue := congrArg Json.natOf (List.cons.inj h).2
      rw [(toDigits_value (m + 1)).2.2, (toDigits_value (n + 1)).2.2] at hvalue
      rw [Nat.succ.inj hvalue]

end Python
