import Mathlib.Logic.Function.Basic

/-! Content-addressed stores: a content is kept at a place computed from it, and what
is written there once stays. -/

/-- Where contents are kept: different contents at different places. -/
structure Addressing (content place : Type) where
  home : content → place
  collisionFree : Function.Injective home

namespace Addressing

variable {content place : Type}

/-- What is kept at each place: at the home of a content nothing else. -/
structure Store (a : Addressing content place) where
  at? : place → Option content
  intact : ∀ {c d : content}, at? (a.home c) = some d → d = c

namespace Store

variable [DecidableEq place] {a : Addressing content place}

def empty : a.Store := ⟨fun _ => none, nofun⟩

/-- A content that is there already is not written again. -/
def put (s : a.Store) (c : content) : a.Store :=
  if (s.at? (a.home c)).isSome then s
  else
    { at? := fun p => if p = a.home c then some c else s.at? p
      intact := by
        intro d e h
        split at h
        next heq => rw [← Option.some.inj h, a.collisionFree heq]
        next => exact s.intact h }

def putAll (s : a.Store) (cs : List content) : a.Store := cs.foldl put s

variable {s : a.Store} {p : place} {c d : content}

theorem at?_put : (s.put c).at? p = if p = a.home c then some c else s.at? p := by
  unfold put
  split
  next hsome =>
    split
    next hp =>
      obtain ⟨d, hd⟩ := Option.isSome_iff_exists.mp hsome
      rw [hp, hd, s.intact hd]
    next => rfl
  next => rfl

theorem at?_put_iff : (s.put c).at? p = some d ↔ s.at? p = some d ∨ d = c ∧ p = a.home d := by
  rw [at?_put]
  split
  next hp =>
    constructor
    · intro h
      cases h
      exact Or.inr ⟨rfl, hp⟩
    · rintro (h | ⟨rfl, _⟩)
      · rw [hp] at h
        rw [s.intact h]
      · rfl
  next hp =>
    constructor
    · exact Or.inl
    · rintro (h | ⟨rfl, h⟩)
      · exact h
      · exact absurd h hp

/-- After a run of writes the store holds what it held, and each content at its home. -/
theorem at?_putAll_iff (cs : List content) :
    (s.putAll cs).at? p = some d ↔ s.at? p = some d ∨ d ∈ cs ∧ p = a.home d := by
  induction cs generalizing s with
  | nil => simp [putAll]
  | cons c cs ih =>
    have hstep : s.putAll (c :: cs) = (s.put c).putAll cs := rfl
    rw [hstep, ih, at?_put_iff, List.mem_cons]
    constructor
    · rintro ((h | ⟨hc, hp⟩) | ⟨hcs, hp⟩)
      · exact Or.inl h
      · exact Or.inr ⟨Or.inl hc, hp⟩
      · exact Or.inr ⟨Or.inr hcs, hp⟩
    · rintro (h | ⟨hc | hcs, hp⟩)
      · exact Or.inl (Or.inl h)
      · exact Or.inl (Or.inr ⟨hc, hp⟩)
      · exact Or.inr ⟨hcs, hp⟩

theorem at?_putAll_home {cs : List content} (h : c ∈ cs) : (s.putAll cs).at? (a.home c) = some c :=
  (at?_putAll_iff cs).mpr (Or.inr ⟨h, rfl⟩)

/-- What is not held after a run of writes. -/
theorem at?_putAll_eq_none_iff (cs : List content) :
    (s.putAll cs).at? p = none ↔ s.at? p = none ∧ ∀ c ∈ cs, p ≠ a.home c := by
  simp only [Option.eq_none_iff_forall_ne_some, ne_eq, at?_putAll_iff, not_or, not_and]
  constructor
  · intro h
    exact ⟨fun d => (h d).1, fun c hc => (h c).2 hc⟩
  · rintro ⟨hold, hnew⟩ d
    exact ⟨hold d, hnew d⟩

theorem putAll_append (cs ds : List content) : s.putAll (cs ++ ds) = (s.putAll cs).putAll ds := List.foldl_append

end Store

end Addressing
