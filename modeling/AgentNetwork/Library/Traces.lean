import Mathlib.Tactic.Common

/-! Runs of a labelled transition system whose steps all meet a condition. -/

namespace Transition

variable {σ α : Type}

/-- The states that runs from `start` pass through, each step allowed by `ok`
in the state where it is taken. -/
inductive Visits (step : σ → α → σ → Prop) (ok : σ → α → Prop) (start : σ) : σ → Prop
  | start : Visits step ok start start
  | next {s s' : σ} {a : α} : Visits step ok start s → ok s a → step s a s' → Visits step ok start s'

/-- What holds at the start and survives every allowed step holds wherever a run gets. -/
theorem Visits.invariant {step : σ → α → σ → Prop} {ok : σ → α → Prop} {start s : σ} {I : σ → Prop}
    (h : Visits step ok start s) (init : I start) (preserved : ∀ {s a s'}, I s → ok s a → step s a s' → I s') : I s := by
  induction h with
  | start => exact init
  | next _ hok hstep ih => exact preserved ih hok hstep

/-- A state that further steps never change. -/
theorem Visits.trans {step : σ → α → σ → Prop} {ok : σ → α → Prop} {start s s' : σ}
    (h : Visits step ok start s) (h' : Visits step ok s s') : Visits step ok start s' := by
  induction h' with
  | start => exact h
  | next _ hok hstep ih => exact .next ih hok hstep

theorem Visits.ofActions {next : σ → α → Option σ} {s s' : σ} {actions : List α} (h : actions.foldlM next s = some s') :
    Visits (fun s a s' => next s a = some s') (fun _ _ => True) s s' := by
  induction actions generalizing s with
  | nil =>
    cases h
    exact .start
  | cons a rest ih =>
    obtain ⟨s₁, hfirst, hrest⟩ := Option.bind_eq_some_iff.mp h
    exact (Visits.next .start trivial hfirst).trans (ih hrest)

/-- Calls made one after the other, each allowed, are a run. -/
theorem Visits.ofCalls {step : σ → α → σ → Prop} {ok : σ → α → Prop} {call : σ → α → σ} {s : σ} {calls : List α}
    (h : calls.foldr (fun a rest s => (ok s a ∧ step s a (call s a)) ∧ rest (call s a)) (fun _ => True) s) :
    Visits step ok s (calls.foldl call s) := by
  induction calls generalizing s with
  | nil => exact .start
  | cons a rest ih =>
    obtain ⟨⟨hok, hstep⟩, hrest⟩ := h
    exact (Visits.next .start hok hstep).trans (ih hrest)

/-- A run with the steps it takes, the last one last. -/
inductive Trace (step : σ → α → σ → Prop) (start : σ) : List (σ × α × σ) → σ → Prop
  | start : Trace step start [] start
  | next {steps : List (σ × α × σ)} {s s' : σ} {a : α} : Trace step start steps s → step s a s' →
      Trace step start (steps ++ [(s, a, s')]) s'

/-- In a run of allowed steps, what holds at the start and survives them holds at the end. -/
theorem Trace.invariant {step : σ → α → σ → Prop} {start s : σ} {steps : List (σ × α × σ)} {ok : σ → α → Prop} {I : σ → Prop}
    (h : Trace step start steps s) (init : I start) (preserved : ∀ {s a s'}, I s → ok s a → step s a s' → I s')
    (allowed : ∀ e ∈ steps, ok e.1 e.2.1) : I s := by
  induction h with
  | start => exact init
  | next _ hstep ih =>
    have hlast := allowed _ (List.mem_append_right _ (List.mem_singleton_self _))
    exact preserved (ih fun e he => allowed e (List.mem_append_left _ he)) hlast hstep

/-- Where allowed steps keep an invariant and have a property under it, a run of allowed
steps has the property at every step. -/
theorem Trace.forall_of {step : σ → α → σ → Prop} {start s : σ} {steps : List (σ × α × σ)} {ok : σ → α → Prop}
    {I : σ → Prop} {P : σ → α → σ → Prop} (h : Trace step start steps s) (init : I start)
    (preserved : ∀ {s a s'}, I s → ok s a → step s a s' → I s') (has : ∀ {s a s'}, I s → ok s a → step s a s' → P s a s')
    (allowed : ∀ e ∈ steps, ok e.1 e.2.1) : ∀ e ∈ steps, P e.1 e.2.1 e.2.2 := by
  induction h with
  | start => exact List.forall_mem_nil _
  | next hrun hstep ih =>
    obtain ⟨hbefore, hlast⟩ := List.forall_mem_append.mp allowed
    refine List.forall_mem_append.mpr ⟨ih hbefore, List.forall_mem_singleton.mpr ?_⟩
    exact has (hrun.invariant init preserved hbefore) (hlast _ (List.mem_singleton_self _)) hstep

/-- Where allowed steps keep an invariant under which a step has the property just when it
is allowed, a run has the property at every step just when each of its steps is allowed. -/
theorem Trace.forall_iff {step : σ → α → σ → Prop} {start s : σ} {steps : List (σ × α × σ)} {ok : σ → α → Prop}
    {I : σ → Prop} {P : σ → α → σ → Prop} (h : Trace step start steps s) (init : I start)
    (preserved : ∀ {s a s'}, I s → ok s a → step s a s' → I s')
    (exactly : ∀ {s a s'}, I s → step s a s' → (P s a s' ↔ ok s a)) :
    (∀ e ∈ steps, P e.1 e.2.1 e.2.2) ↔ ∀ e ∈ steps, ok e.1 e.2.1 := by
  constructor
  · intro hP
    induction h with
    | start => exact List.forall_mem_nil _
    | next hrun hstep ih =>
      obtain ⟨hbefore, hlast⟩ := List.forall_mem_append.mp hP
      have hok := ih hbefore
      refine List.forall_mem_append.mpr ⟨hok, List.forall_mem_singleton.mpr ?_⟩
      exact (exactly (hrun.invariant init preserved hok) hstep).mp (hlast _ (List.mem_singleton_self _))
  · exact h.forall_of init preserved fun hI hok hstep => (exactly hI hstep).mpr hok

/-- The steps of calls made one after the other. -/
def stepsOf (call : σ → α → σ) : σ → List α → List (σ × α × σ)
  | _, [] => []
  | s, a :: rest => (s, a, call s a) :: stepsOf call (call s a) rest

theorem Trace.trans {step : σ → α → σ → Prop} {start s s' : σ} {steps steps' : List (σ × α × σ)}
    (h : Trace step start steps s) (h' : Trace step s steps' s') : Trace step start (steps ++ steps') s' := by
  induction h' with
  | start => simpa using h
  | next _ hstep ih =>
    rw [← List.append_assoc]
    exact .next ih hstep

theorem Trace.ofCalls {step : σ → α → σ → Prop} {call : σ → α → σ} {s : σ} {calls : List α}
    (h : ∀ e ∈ stepsOf call s calls, step e.1 e.2.1 e.2.2) : Trace step s (stepsOf call s calls) (calls.foldl call s) := by
  induction calls generalizing s with
  | nil => exact .start
  | cons a rest ih =>
    obtain ⟨hfirst, hrest⟩ := List.forall_mem_cons.mp h
    exact (Trace.next .start hfirst).trans (ih hrest)

theorem stepsOf_call {call : σ → α → σ} {s : σ} {calls : List α} : ∀ e ∈ stepsOf call s calls, e.2.2 = call e.1 e.2.1 := by
  induction calls generalizing s with
  | nil => exact nofun
  | cons a rest ih => exact List.forall_mem_cons.mpr ⟨rfl, ih⟩

theorem mem_of_mem_stepsOf {call : σ → α → σ} {s : σ} {calls : List α} {e : σ × α × σ} (h : e ∈ stepsOf call s calls) :
    e.2.1 ∈ calls := by
  induction calls generalizing s with
  | nil => cases h
  | cons a rest ih =>
    rcases List.mem_cons.mp h with rfl | hrest
    · exact List.mem_cons_self
    · exact List.mem_cons_of_mem _ (ih hrest)

theorem stepsOf_append (call : σ → α → σ) (s : σ) (calls more : List α) :
    stepsOf call s (calls ++ more) = stepsOf call s calls ++ stepsOf call (calls.foldl call s) more := by
  induction calls generalizing s with
  | nil => rfl
  | cons a rest ih => exact congrArg _ (ih (call s a))

theorem last_mem_stepsOf (call : σ → α → σ) (s : σ) (calls : List α) (a : α) :
    (calls.foldl call s, a, call (calls.foldl call s) a) ∈ stepsOf call s (calls ++ [a]) := by
  rw [stepsOf_append]
  exact List.mem_append_right _ (List.mem_singleton_self _)

section Since

/-- The events of a list after one that counts, none of which resets it. -/
def Since (counts : List α → α → Prop) (resets : α → Prop) (events after : List α) : Prop :=
  ∃ before event, events = before ++ event :: after ∧ counts before event ∧ ∀ e ∈ after, ¬resets e

variable {counts : List α → α → Prop} {resets : α → Prop} {events after : List α} {event : α}

theorem not_since_nil : ¬Since counts resets [] after := by
  intro ⟨before, event, h, _⟩
  exact List.append_ne_nil_of_right_ne_nil before (List.cons_ne_nil event after) h.symm

theorem since_concat : Since counts resets (events ++ [event]) after ↔
    (after = [] ∧ counts events event) ∨ ∃ rest, after = rest ++ [event] ∧ ¬resets event ∧ Since counts resets events rest := by
  constructor
  · intro ⟨before, first, hevents, hcounts, hresets⟩
    rcases List.eq_nil_or_concat after with rfl | ⟨rest, last, rfl⟩
    · obtain ⟨rfl, hlast⟩ := List.append_inj' hevents rfl
      cases hlast
      exact Or.inl ⟨rfl, hcounts⟩
    · rw [List.concat_eq_append, ← List.cons_append, ← List.append_assoc] at hevents
      obtain ⟨rfl, hlast⟩ := List.append_inj' hevents rfl
      cases hlast
      rw [List.concat_eq_append] at hresets
      obtain ⟨hrest, hevent⟩ := List.forall_mem_append.mp hresets
      exact Or.inr ⟨rest, List.concat_eq_append, hevent event (List.mem_singleton_self _), before, first, rfl, hcounts, hrest⟩
  · rintro (⟨rfl, hcounts⟩ | ⟨rest, rfl, hevent, before, first, rfl, hcounts, hrest⟩)
    · exact ⟨events, event, rfl, hcounts, nofun⟩
    · refine ⟨before, first, List.append_assoc .., hcounts, ?_⟩
      exact List.forall_mem_append.mpr ⟨hrest, List.forall_mem_singleton.mpr hevent⟩

end Since

section Streaks

/-- How many of the last events in a row are as asked. -/
def streak (p : α → Bool) (events : List α) : Nat := (events.reverse.takeWhile p).length

variable {p : α → Bool} {events : List α}

@[simp] theorem streak_nil : streak p [] = 0 := rfl

theorem streak_concat (event : α) : streak p (events ++ [event]) = if p event then streak p events + 1 else 0 := by
  rw [streak, List.reverse_append, List.reverse_singleton, List.singleton_append, List.takeWhile_cons]
  split
  · rfl
  · rfl

theorem le_streak_iff {n : Nat} : n ≤ streak p events ↔
    ∃ before recent, events = before ++ recent ∧ n ≤ recent.length ∧ ∀ e ∈ recent, p e = true := by
  constructor
  · intro h
    refine ⟨(events.reverse.dropWhile p).reverse, (events.reverse.takeWhile p).reverse, ?_, ?_, ?_⟩
    · rw [← List.reverse_append, List.takeWhile_append_dropWhile, List.reverse_reverse]
    · rw [List.length_reverse]
      exact h
    · intro e he
      exact List.all_eq_true.mp List.all_takeWhile e (List.mem_reverse.mp he)
  · rintro ⟨before, recent, rfl, hlength, hrecent⟩
    have hall : ∀ e ∈ recent.reverse, p e = true := fun e he => hrecent e (List.mem_reverse.mp he)
    rw [streak, List.reverse_append, List.takeWhile_append_of_pos hall, List.length_append, List.length_reverse]
    omega

end Streaks

end Transition
