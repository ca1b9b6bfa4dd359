import Mathlib.Algebra.Order.Group.Defs
import Mathlib.Algebra.Order.Sub.Basic
import Mathlib.Data.List.Count
import Mathlib.Data.List.Induction

/-! A limit on the events of a sliding window: each event is let in at a check that
finds fewer than so many events in the window before it. -/

namespace SlidingWindow

variable {K : Type} [AddCommGroup K] [LinearOrder K] [IsOrderedAddMonoid K]

/-- The events that a check at `now` still sees. -/
def recent (width now : K) (times : List K) : List K := times.filter fun t => now - width < t

/-- The times of events of which each was let in after a check, in their order. -/
inductive Admitted (width : K) (limit : Nat) : List K → Prop
  | nil : Admitted width limit []
  | snoc {times : List K} {checked t : K} : Admitted width limit times → checked ≤ t →
      (recent width checked times).length < limit → Admitted width limit (times ++ [t])

/-- Of some events at most so many lie in an interval of the width. -/
theorem Admitted.length_le {width : K} {limit : Nat} {times : List K} (h : Admitted width limit times) (p : K → Bool)
    (hp : ∀ t, p t = true → ∀ s, p s = true → t - width < s) : (times.filter p).length ≤ limit := by
  induction h with
  | nil => exact Nat.zero_le _
  | @snoc times checked t hbefore hchecked hfew ih =>
    rw [List.filter_append, List.length_append]
    cases hpt : p t with
    | false => simpa [hpt] using ih
    | true =>
      have hsub : (times.filter p).length ≤ (recent width checked times).length := by
        rw [recent, ← List.countP_eq_length_filter, ← List.countP_eq_length_filter]
        refine List.countP_mono_left ?_
        intro s _ hs
        have hnear := hp t hpt s hs
        exact decide_eq_true (lt_of_le_of_lt (sub_le_sub_right hchecked width) hnear)
      have hone : ([t].filter p).length = 1 := by simp [hpt]
      omega

theorem Admitted.length_Ico_le {width : K} {limit : Nat} {times : List K} (h : Admitted width limit times) (a : K) :
    (times.filter fun t => a ≤ t ∧ t < a + width).length ≤ limit := by
  refine h.length_le _ ?_
  intro t ht s hs
  obtain ⟨_, ht⟩ := of_decide_eq_true ht
  obtain ⟨hs, _⟩ := of_decide_eq_true hs
  exact sub_lt_iff_lt_add.mpr (lt_of_lt_of_le ht (add_le_add_left hs width))

theorem Admitted.length_Ioc_le {width : K} {limit : Nat} {times : List K} (h : Admitted width limit times) (a : K) :
    (times.filter fun t => a < t ∧ t ≤ a + width).length ≤ limit := by
  refine h.length_le _ ?_
  intro t ht s hs
  obtain ⟨_, ht⟩ := of_decide_eq_true ht
  obtain ⟨hs, _⟩ := of_decide_eq_true hs
  exact sub_lt_iff_lt_add.mpr (lt_of_le_of_lt ht (add_lt_add_left hs width))

/-- Events let in are those that find room in the window before them. -/
theorem admitted_append_iff {width : K} {limit : Nat} {times : List K} {t : K} :
    Admitted width limit (times ++ [t]) ↔ Admitted width limit times ∧ (recent width t times).length < limit := by
  constructor
  · intro h
    generalize hall : times ++ [t] = all at h
    cases h with
    | nil => simp at hall
    | @snoc before checked t' hbefore hchecked hfew =>
      obtain ⟨rfl, hlast⟩ := List.append_inj' hall rfl
      obtain rfl := List.singleton_inj.mp hlast
      refine ⟨hbefore, lt_of_le_of_lt ?_ hfew⟩
      rw [recent, recent, ← List.countP_eq_length_filter, ← List.countP_eq_length_filter]
      refine List.countP_mono_left ?_
      intro s _ hs
      have hnear := of_decide_eq_true hs
      exact decide_eq_true (lt_of_le_of_lt (sub_le_sub_right hchecked width) hnear)
  · rintro ⟨hbefore, hfew⟩
    exact .snoc hbefore le_rfl hfew

/-- Where the events come in order, an interval of the width with too many of them
ends at one of them. -/
theorem admitted_iff_length_Ioc_le {width : K} {limit : Nat} {times : List K} (hwidth : 0 < width)
    (sorted : times.Pairwise (· ≤ ·)) :
    Admitted width limit times ↔ ∀ a, (times.filter fun t => a < t ∧ t ≤ a + width).length ≤ limit := by
  refine ⟨Admitted.length_Ioc_le, fun h => ?_⟩
  induction times using List.reverseRecOn with
  | nil => exact .nil
  | append_singleton times t ih =>
    obtain ⟨hsorted, _, hlast⟩ := List.pairwise_append.mp sorted
    have hbefore : ∀ a, (times.filter fun t => a < t ∧ t ≤ a + width).length ≤ limit := by
      intro a
      have hall := h a
      rw [List.filter_append, List.length_append] at hall
      omega
    refine admitted_append_iff.mpr ⟨ih hsorted hbefore, ?_⟩
    have hall := h (t - width)
    have hone : ([t].filter fun s => t - width < s ∧ s ≤ t - width + width).length = 1 := by simp [hwidth]
    have hsame : (times.filter fun s => t - width < s ∧ s ≤ t - width + width) = recent width t times := by
      refine List.filter_congr ?_
      intro s hs
      have hle := hlast s hs t (List.mem_singleton_self t)
      simp [hle]
    rw [List.filter_append, List.length_append, hone, hsame] at hall
    omega

omit [IsOrderedAddMonoid K] in
theorem recent_append (width now : K) (times more : List K) :
    recent width now (times ++ more) = recent width now times ++ recent width now more := List.filter_append ..

/-- What one check has dropped no later check would see. -/
theorem recent_recent {width checked now : K} (h : checked ≤ now) (times : List K) :
    recent width now (recent width checked times) = recent width now times := by
  unfold recent
  rw [List.filter_filter]
  refine List.filter_congr ?_
  intro t _
  have hlater : now - width < t → checked - width < t := fun ht => lt_of_le_of_lt (sub_le_sub_right h width) ht
  simpa using hlater

end SlidingWindow
