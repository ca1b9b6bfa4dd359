import AgentNetwork.Library.Double
import Mathlib.Data.List.Nodup

/-! `random.choices` with weights: independent draws, each put back. -/

namespace Python

inductive ChoiceError
  | valueError (message : String)
  | indexError (message : String)
  deriving DecidableEq

def accumulateFrom (total : ℚ) : List ℚ → List ℚ
  | [] => []
  | weight :: rest => Double.nearest (total + weight) :: accumulateFrom (Double.nearest (total + weight)) rest

/-- `itertools.accumulate` of floats. -/
def accumulate : List ℚ → List ℚ
  | [] => []
  | weight :: rest => weight :: accumulateFrom weight rest

/-- `bisect.bisect(a, x, lo, hi)`. -/
def bisect (a : List ℚ) (x : ℚ) (lo hi : Nat) : Nat :=
  if lo < hi then
    let mid := (lo + hi) / 2
    if x < a.getD mid 0 then bisect a x lo mid else bisect a x (mid + 1) hi
  else lo
termination_by hi - lo

/-- Where among the running totals of the weights a draw falls. -/
def place (weights : List ℚ) (draw : ℚ) : Nat :=
  let cumWeights := accumulate weights
  bisect cumWeights (Double.nearest (draw * cumWeights.getLastD 0)) 0 (weights.length - 1)

/-- `random.choices(population, weights=weights, k=k)`. -/
def choices {α : Type} (population : List α) (weights : List ℚ) (random : Nat → ℚ) (k : Int) :
    Except ChoiceError (List α) :=
  if weights.length ≠ population.length then
    .error (.valueError "The number of weights does not match the population")
  else
    match (accumulate weights).getLast? with
    | none => .error (.indexError "list index out of range")
    | some total =>
      if total ≤ 0 then .error (.valueError "Total of weights must be greater than zero")
      else .ok ((List.range k.toNat).filterMap fun i => population[place weights (random i)]?)

theorem bisect_le (a : List ℚ) (x : ℚ) {lo hi : Nat} (h : lo ≤ hi) : bisect a x lo hi ≤ hi := by
  fun_induction bisect a x lo hi with
  | case1 lo hi hlt mid _ ih =>
    have hmid : lo ≤ mid := by omega
    have hlast : mid ≤ hi := by omega
    exact (ih hmid).trans hlast
  | case2 lo hi hlt mid _ ih =>
    have hmid : mid + 1 ≤ hi := by omega
    exact ih hmid
  | case3 lo hi => exact h

theorem place_lt {weights : List ℚ} (h : 0 < weights.length) (draw : ℚ) : place weights draw < weights.length := by
  have hle : place weights draw ≤ weights.length - 1 := bisect_le _ _ (Nat.zero_le _)
  omega

theorem map_some_filterMap {α β : Type} {f : α → Option β} {l : List α} (h : ∀ a ∈ l, f a ≠ none) :
    (l.filterMap f).map some = l.map f := by
  induction l with
  | nil => rfl
  | cons a rest ih =>
    obtain ⟨b, hb⟩ := Option.ne_none_iff_exists'.mp (h a (List.mem_cons_self ..))
    have hrest := ih fun a ha => h a (List.mem_cons_of_mem _ ha)
    rw [List.filterMap_cons_some hb, List.map_cons, List.map_cons, hrest, hb]

section Drawn

variable {α : Type} {population drawn : List α} {weights : List ℚ} {random : Nat → ℚ} {k : Int}

/-- No draw falls outside the population. -/
theorem choices_ok (h : choices population weights random k = .ok drawn) :
    drawn.map some = (List.range k.toNat).map fun i => population[place weights (random i)]? := by
  unfold choices at h
  split at h
  next => cases h
  next hlength =>
    split at h
    next => cases h
    next total htotal =>
      split at h
      next => cases h
      next =>
        cases Except.ok.inj h
        apply map_some_filterMap
        intro i _
        have hpositive : 0 < weights.length := by
          cases weights with
          | nil => cases htotal
          | cons weight rest => exact Nat.succ_pos _
        have hplace := place_lt hpositive (random i)
        rw [List.getElem?_eq_getElem (by omega)]
        exact Option.some_ne_none _

theorem length_choices (h : choices population weights random k = .ok drawn) : drawn.length = k.toNat := by
  have hlength := congrArg List.length (choices_ok h)
  simpa using hlength

theorem mem_of_choices (h : choices population weights random k = .ok drawn) {a : α} (ha : a ∈ drawn) : a ∈ population := by
  have hmem : some a ∈ drawn.map some := List.mem_map_of_mem ha
  rw [choices_ok h] at hmem
  obtain ⟨i, _, hi⟩ := List.mem_map.mp hmem
  exact List.mem_of_getElem? hi

/-- Nothing is drawn twice exactly when no two draws fall on one place. -/
theorem nodup_choices {β : Type} {key : α → β} (distinct : (population.map key).Nodup)
    (h : choices population weights random k = .ok drawn) :
    (drawn.map key).Nodup ↔ ((List.range k.toNat).map fun i => place weights (random i)).Nodup := by
  have hkeys : (drawn.map key).map some =
      (List.range k.toNat).map fun i => (population.map key)[place weights (random i)]? := by
    have hmapped := congrArg (List.map (Option.map key)) (choices_ok h)
    simpa [Function.comp_def] using hmapped
  have hinside : ∀ i ∈ List.range k.toNat, place weights (random i) < (population.map key).length := by
    intro i hi
    by_contra hout
    have hnone : (population.map key)[place weights (random i)]? = none := List.getElem?_eq_none (by omega)
    have hmem : none ∈ (drawn.map key).map some := by
      rw [hkeys]
      exact List.mem_map.mpr ⟨i, hi, hnone⟩
    simp at hmem
  rw [← List.nodup_map_iff (Option.some_injective β), hkeys, List.nodup_map_iff_inj_on List.nodup_range,
    List.nodup_map_iff_inj_on List.nodup_range]
  constructor
  · intro hinj i hi j hj hsame
    exact hinj i hi j hj (by rw [hsame])
  · intro hinj i hi j hj hsame
    exact hinj i hi j hj ((List.getElem?_inj (hinside i hi) distinct).mp hsame)

end Drawn

end Python
