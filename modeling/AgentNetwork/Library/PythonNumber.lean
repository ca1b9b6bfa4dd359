import AgentNetwork.Library.Double
import AgentNetwork.Library.JsonText
import Mathlib.Order.WithBot

/-! Numbers of JSON values: exact integers, and floats with the infinities and
the value that is no number. -/

namespace Python

inductive Number
  | finite (q : ℚ)
  | posInf
  | negInf
  | nan
  deriving DecidableEq

namespace Number

/-- The digits before and after the point, and the exponent, of an unsigned literal. -/
def splitLiteral (cs : List Char) : List Char × List Char × Int :=
  let mantissa := cs.takeWhile fun c => c ≠ 'e' ∧ c ≠ 'E'
  let exponent := cs.drop (mantissa.length + 1)
  let whole := mantissa.takeWhile (· ≠ '.')
  let power : Int :=
    match exponent with
    | '-' :: digits => -(Json.natOf digits : Int)
    | '+' :: digits => Json.natOf digits
    | digits => Json.natOf digits
  (whole, mantissa.drop (whole.length + 1), power)

def ofDecimal (cs : List Char) : ℚ :=
  let (whole, fraction, power) := splitLiteral cs
  Double.nearest ((Json.natOf (whole ++ fraction) : ℚ) * (10 : ℚ) ^ (power - fraction.length))

def ofLiteral (literal : String) : Number :=
  if literal = "NaN" then .nan else if literal = "Infinity" then .posInf
  else if literal = "-Infinity" then .negInf
  else
    match literal.toList with
    | '-' :: cs => .finite (-ofDecimal cs)
    | cs => .finite (ofDecimal cs)

/-- The number a value is; a boolean is an integer. -/
def ofJson? : Json → Option Number
  | .int n => some (.finite n)
  | .bool b => some (.finite (if b then 1 else 0))
  | .float literal => some (ofLiteral literal)
  | .null | .str _ | .arr _ | .obj _ => none

/-- `a <= b`. -/
def le : Number → Number → Bool
  | .nan, _ | _, .nan => false
  | .negInf, _ | _, .posInf => true
  | .finite a, .finite b => decide (a ≤ b)
  | .finite _, .negInf | .posInf, .finite _ | .posInf, .negInf => false

/-- `a < b`. -/
def lt : Number → Number → Bool
  | .nan, _ | _, .nan => false
  | a, b => !le b a

/-- `a * p` with a positive float `p`. -/
def times (p : ℚ) : Number → Number
  | .finite q => .finite (Double.nearest (Double.nearest q * p))
  | .posInf => .posInf
  | .negInf => .negInf
  | .nan => .nan

/-- The place of a number on the line; what is no number stands at its lower end. -/
def place : Number → WithBot (WithTop ℚ)
  | .finite q => ((q : WithTop ℚ) : WithBot (WithTop ℚ))
  | .posInf => ((⊤ : WithTop ℚ) : WithBot (WithTop ℚ))
  | .negInf => ⊥
  | .nan => ⊥

theorem le_iff_place {a b : Number} (ha : a ≠ .nan) (hb : b ≠ .nan) : a.le b = true ↔ a.place ≤ b.place := by
  cases a with
  | nan => exact absurd rfl ha
  | finite | posInf | negInf =>
    cases b with
    | nan => exact absurd rfl hb
    | finite | posInf | negInf => simp [le, place]

theorem lt_iff_place {a b : Number} (ha : a ≠ .nan) : a.lt b = true ↔ a.place < b.place := by
  by_cases hb : b = .nan
  · rw [hb]
    cases a <;> simp [lt, place]
  · have hnot : a.lt b = !b.le a := by
      cases a with
      | nan => exact absurd rfl ha
      | finite | posInf | negInf =>
        cases b with
        | nan => exact absurd rfl hb
        | finite | posInf | negInf => rfl
    rw [hnot, Bool.not_eq_true', ← Bool.not_eq_true, le_iff_place hb ha, not_le]

theorem eq_of_place {a b : Number} (ha : a ≠ .nan) (hb : b ≠ .nan) (h : a.place = b.place) : a = b := by
  cases a with
  | nan => exact absurd rfl ha
  | finite | posInf | negInf =>
    cases b with
    | nan => exact absurd rfl hb
    | finite | posInf | negInf => simp_all [place]

theorem ne_nan_of_lt {a b : Number} (h : a.lt b = true) : b ≠ .nan := by
  rintro rfl
  cases a <;> cases h

theorem ne_nan_of_le {a b : Number} (h : a.le b = true) : a ≠ .nan ∧ b ≠ .nan := by
  constructor
  · rintro rfl
    cases b <;> cases h
  · rintro rfl
    cases a <;> cases h

theorem nan_of_ofLiteral {literal : String} (h : ofLiteral literal = .nan) : literal = "NaN" := by
  unfold ofLiteral at h
  split at h
  next hnan => exact hnan
  next =>
    split at h
    next => cases h
    next =>
      split at h
      next => cases h
      next => split at h <;> cases h

/-- Only one value is no number. -/
theorem nan_of_ofJson {value : Json} (h : ofJson? value = some .nan) : value = .float "NaN" := by
  cases value with
  | null | str | arr | obj => cases h
  | int n => simp [ofJson?] at h
  | bool b => simp [ofJson?] at h
  | float literal => rw [nan_of_ofLiteral (Option.some.inj h)]

end Number

end Python
