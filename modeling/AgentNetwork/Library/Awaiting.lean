import Mathlib.Data.List.Basic

/-! The exceptions that more than one part of a program raises. -/

namespace Python

structure ValueError where
  message : String
  deriving DecidableEq

structure TypeError where
  message : String
  deriving DecidableEq

structure IndexError where
  message : String
  deriving DecidableEq

end Python

/-! Calls of plain and of coroutine functions, and what a caller can do with what
it gets. -/

namespace Python

/-- What a call gives: the value, or a coroutine that returns it once awaited. -/
inductive Called (α : Type)
  | value (a : α)
  | coroutine (a : α)

namespace Called

variable {α : Type}

/-- What comes of the call in the end. -/
def result : Called α → α
  | .value a => a
  | .coroutine a => a

/-- `await` on the call; the name is that of the type of its value. -/
def await (typeName : String) : Called α → Except TypeError α
  | .value _ => .error ⟨s!"object {typeName} can't be used in 'await' expression"⟩
  | .coroutine a => .ok a

/-- What a loop over the call gets. -/
def iterate : Called (List α) → Except TypeError (List α)
  | .value l => .ok l
  | .coroutine _ => .error ⟨"'coroutine' object is not iterable"⟩

/-- The value as `json.dumps` gets it. -/
def serializable : Called α → Except TypeError α
  | .value a => .ok a
  | .coroutine _ => .error ⟨"Object of type coroutine is not JSON serializable"⟩

@[simp] theorem await_coroutine (typeName : String) (a : α) : (coroutine a).await typeName = .ok a := rfl

@[simp] theorem iterate_value (l : List α) : (value l).iterate = .ok l := rfl

theorem iterate_eq_ok {c : Called (List α)} {l : List α} : c.iterate = .ok l ↔ c = .value l := by
  cases c <;> simp [iterate]

/-- `extend` with one call after the other. -/
def extendAll : List (Called (List α)) → List α → Except TypeError (List α)
  | [], l => .ok l
  | c :: calls, l =>
    match c.iterate with
    | .ok more => extendAll calls (l ++ more)
    | .error e => .error e

/-- The list can be extended with all the calls only if none is a coroutine. -/
theorem extendAll_eq_ok {calls : List (Called (List α))} {l m : List α} (h : extendAll calls l = .ok m) :
    ∀ c ∈ calls, ∃ more, c = .value more := by
  induction calls generalizing l with
  | nil => exact List.forall_mem_nil _
  | cons c calls ih =>
    unfold extendAll at h
    cases hc : c.iterate with
    | error e =>
      rw [hc] at h
      cases h
    | ok more =>
      rw [hc] at h
      exact List.forall_mem_cons.mpr ⟨⟨more, iterate_eq_ok.mp hc⟩, ih h⟩

end Called

end Python
