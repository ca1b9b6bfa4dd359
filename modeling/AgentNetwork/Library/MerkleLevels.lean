import Mathlib.Data.List.Basic
import Mathlib.Tactic.Common

/-! The levels of a Merkle tree over any values, an odd last node being paired with
itself, and the paths that lead from a node up to the root. -/

namespace MerkleLevels

variable {D : Type} (pair : D → D → D)

/-- The nodes of a level two by two. -/
def couples : List D → List (D × D)
  | [] => []
  | [left] => [(left, left)]
  | left :: right :: rest => (left, right) :: couples rest

def parents (level : List D) : List D := (couples level).map fun children => pair children.1 children.2

/-- This level and those above it, as long as there is more than one node. -/
def levelsFrom : Nat → List D → List (List D)
  | 0, level => [level]
  | fuel + 1, level => if 1 < level.length then level :: levelsFrom fuel (parents pair level) else [level]

/-- A level has at most as many levels above it as it has nodes. -/
def levels (leaves : List D) : List (List D) := levelsFrom pair leaves.length leaves

/-- The first node of the last level. -/
def top? (tree : List (List D)) : Option D := tree.getLast?.bind List.head?

/-- `level[i]`, counted from the end when negative; `none` where it raises. -/
def index? (level : List D) (i : Int) : Option D :=
  if 0 ≤ i then level[i.toNat]?
  else if 0 ≤ i + level.length then level[(i + level.length).toNat]?
  else none

def sibling? (level : List D) (i : Int) : Option D :=
  let siblingIndex := if i % 2 = 0 then i + 1 else i - 1
  if siblingIndex < level.length then index? level siblingIndex else index? level i

/-- The siblings on the way up from a node, each with whether it is the right one. -/
def climb : List (List D) → Int → Option (List (D × Bool))
  | level :: above :: rest, i => do
    let sibling ← sibling? level i
    let siblings ← climb (above :: rest) (i / 2)
    some ((sibling, decide (i % 2 = 0)) :: siblings)
  | _, _ => some []

/-- A node and its sibling in their order. -/
def ordered (x : D) (sibling : D × Bool) : D × D := if sibling.2 then (x, sibling.1) else (sibling.1, x)

def combine (x : D) (sibling : D × Bool) : D := pair (ordered x sibling).1 (ordered x sibling).2

def walk (x : D) (siblings : List (D × Bool)) : D := siblings.foldl (combine pair) x

/-- What is hashed on the way up from a node. -/
def walked : D → List (D × Bool) → List (D × D)
  | _, [] => []
  | x, sibling :: siblings => ordered x sibling :: walked (combine pair x sibling) siblings

/-- What is hashed when the tree is built. -/
def hashed (tree : List (List D)) : List (D × D) := tree.dropLast.flatMap couples

/-- The siblings of a node, of its parent and so on up to the root. -/
inductive IsPath : List (List D) → Nat → D → List (D × Bool) → Prop
  | root {level i x} (here : level[i]? = some x) : IsPath [level] i x []
  | step {level above rest i x sibling siblings} (here : level[i]? = some x)
      (couple : (couples level)[i / 2]? = some (ordered x sibling))
      (up : IsPath (above :: rest) (i / 2) (combine pair x sibling) siblings) :
      IsPath (level :: above :: rest) i x (sibling :: siblings)

variable {pair}

theorem IsPath.ne_nil {tree : List (List D)} {i : Nat} {x : D} {siblings : List (D × Bool)}
    (h : IsPath pair tree i x siblings) : tree ≠ [] := by
  cases h <;> exact List.cons_ne_nil _ _

theorem IsPath.here {level : List D} {above : List (List D)} {i : Nat} {x : D} {siblings : List (D × Bool)}
    (h : IsPath pair (level :: above) i x siblings) : level[i]? = some x := by
  cases h with
  | root here => exact here
  | step here _ _ => exact here

@[simp] theorem length_couples (level : List D) : (couples level).length = (level.length + 1) / 2 := by
  fun_induction couples level with
  | case1 => simp
  | case2 => simp
  | case3 left right rest ih =>
    simp only [List.length_cons, ih]
    omega

@[simp] theorem length_parents (level : List D) : (parents pair level).length = (level.length + 1) / 2 := by
  simp [parents]

theorem getElem?_couples (level : List D) (j : Nat) :
    (couples level)[j]? = level[2 * j]?.map fun left => (left, level[2 * j + 1]?.getD left) := by
  induction j generalizing level with
  | zero => match level with
    | [] | [_] | _ :: _ :: _ => rfl
  | succ j ih =>
    match level with
    | [] => rfl
    | [_] => rfl
    | _ :: _ :: rest => exact ih rest

theorem mem_of_mem_couples {level : List D} {children : D × D} (h : children ∈ couples level) :
    children.1 ∈ level ∧ children.2 ∈ level := by
  fun_induction couples level with
  | case1 => simp at h
  | case2 node =>
    obtain rfl : children = (node, node) := by simpa using h
    simp
  | case3 left right rest ih =>
    rcases List.mem_cons.mp h with rfl | hrest
    · simp
    · have := ih hrest
      simp [this]

/-! ### The levels -/

theorem levelsFrom_eq {fuel fuel' : Nat} {level : List D} (h : level.length ≤ fuel) (h' : level.length ≤ fuel') :
    levelsFrom pair fuel level = levelsFrom pair fuel' level := by
  induction fuel generalizing fuel' level with
  | zero =>
    have hnil : ¬1 < level.length := by omega
    cases fuel' with
    | zero => rfl
    | succ fuel' => rw [levelsFrom, levelsFrom, if_neg hnil]
  | succ fuel ih =>
    by_cases hmany : 1 < level.length
    · obtain ⟨fuel', rfl⟩ : ∃ n, fuel' = n + 1 := ⟨fuel' - 1, by omega⟩
      rw [levelsFrom, levelsFrom, if_pos hmany, if_pos hmany]
      have hfewer : (parents pair level).length < level.length := by
        rw [length_parents]
        omega
      rw [@ih fuel' _ (by omega) (by omega)]
    · cases fuel' with
      | zero => rw [levelsFrom, levelsFrom, if_neg hmany]
      | succ fuel' => rw [levelsFrom, levelsFrom, if_neg hmany, if_neg hmany]

theorem levels_of_one_lt {level : List D} (h : 1 < level.length) :
    levels pair level = level :: levels pair (parents pair level) := by
  obtain ⟨n, hn⟩ : ∃ n, level.length = n + 1 := ⟨level.length - 1, by omega⟩
  unfold levels
  rw [hn, levelsFrom, if_pos h]
  congr 1
  exact levelsFrom_eq (by rw [length_parents]; omega) (Nat.le_refl _)

theorem levels_of_le_one {level : List D} (h : level.length ≤ 1) : levels pair level = [level] := by
  unfold levels
  cases hn : level.length with
  | zero => rfl
  | succ n => rw [levelsFrom, if_neg (by omega)]

variable (pair) in
/-- The levels are built on one node or less, or on the level above. -/
theorem levels_induction {motive : List D → Prop} (few : ∀ level, level.length ≤ 1 → motive level)
    (many : ∀ level, 1 < level.length → motive (parents pair level) → motive level) (level : List D) : motive level := by
  induction hn : level.length using Nat.strongRecOn generalizing level with
  | ind n ih =>
    by_cases hmany : 1 < level.length
    · exact many level hmany (ih _ (by rw [length_parents]; omega) _ rfl)
    · exact few level (by omega)

variable (pair) in
theorem levels_eq_cons (level : List D) : ∃ above, levels pair level = level :: above := by
  by_cases h : 1 < level.length
  · exact ⟨_, levels_of_one_lt h⟩
  · exact ⟨[], levels_of_le_one (by omega)⟩

theorem top?_levels_of_one_lt {level : List D} (h : 1 < level.length) :
    top? (levels pair level) = top? (levels pair (parents pair level)) := by
  obtain ⟨above, habove⟩ := levels_eq_cons pair (parents pair level)
  rw [levels_of_one_lt h, habove]
  rfl

theorem top?_levels_of_le_one {level : List D} (h : level.length ≤ 1) : top? (levels pair level) = level.head? := by
  rw [levels_of_le_one h]
  rfl

theorem hashed_levels_of_one_lt {level : List D} (h : 1 < level.length) :
    hashed (levels pair level) = couples level ++ hashed (levels pair (parents pair level)) := by
  obtain ⟨above, habove⟩ := levels_eq_cons pair (parents pair level)
  rw [levels_of_one_lt h, habove]
  rfl

/-- What holds of the leaves and of every hash holds of all that is hashed. -/
theorem forall_hashed {P : D → Prop} (hpair : ∀ a b, P (pair a b)) {leaves : List D} (hleaves : ∀ a ∈ leaves, P a) :
    ∀ children ∈ hashed (levels pair leaves), P children.1 ∧ P children.2 := by
  induction leaves using levels_induction pair with
  | few level hfew =>
    intro children hchildren
    rw [levels_of_le_one hfew] at hchildren
    simp [hashed] at hchildren
  | many level hmany ih =>
    intro children hchildren
    rw [hashed_levels_of_one_lt hmany] at hchildren
    rcases List.mem_append.mp hchildren with hhere | habove
    · obtain ⟨hleft, hright⟩ := mem_of_mem_couples hhere
      exact ⟨hleaves _ hleft, hleaves _ hright⟩
    · refine ih (fun a ha => ?_) children habove
      obtain ⟨couple, -, rfl⟩ := List.mem_map.mp ha
      exact hpair _ _

variable (pair) in
theorem getLast?_levels {leaves : List D} (h : leaves ≠ []) : ∃ root, (levels pair leaves).getLast? = some [root] := by
  induction leaves using levels_induction pair with
  | few level hfew =>
    rw [levels_of_le_one hfew]
    match level, h, hfew with
    | [root], _, _ => exact ⟨root, rfl⟩
  | many level hmany ih =>
    obtain ⟨above, habove⟩ := levels_eq_cons pair (parents pair level)
    have hnext : parents pair level ≠ [] := fun hnil => by
      have := congrArg List.length hnil
      simp only [length_parents, List.length_nil] at this
      omega
    obtain ⟨root, hroot⟩ := ih hnext
    rw [levels_of_one_lt hmany]
    rw [habove] at hroot ⊢
    exact ⟨root, hroot⟩

theorem top?_levels_isSome {leaves : List D} (h : leaves ≠ []) : (top? (levels pair leaves)).isSome := by
  obtain ⟨root, hroot⟩ := getLast?_levels pair h
  rw [top?, hroot]
  rfl

variable (pair) in
def root (leaves : List D) (h : leaves ≠ []) : D := (top? (levels pair leaves)).get (top?_levels_isSome h)

theorem top?_eq_some_root {leaves : List D} (h : leaves ≠ []) : top? (levels pair leaves) = some (root pair leaves h) :=
  (Option.some_get _).symm

/-! ### Completeness -/

theorem index?_natCast (level : List D) (i : Nat) : index? level (i : Int) = level[i]? := by
  rw [index?, if_pos (Int.natCast_nonneg i), Int.toNat_natCast]

/-- A node and its sibling are the two children of their parent. -/
theorem couple_of_sibling? {level : List D} {i : Nat} (h : i < level.length) :
    ∃ sibling, sibling? level (i : Int) = some sibling ∧
      (couples level)[i / 2]? = some (ordered level[i] (sibling, decide ((i : Int) % 2 = 0))) := by
  by_cases heven : (i : Int) % 2 = 0
  · have hleft : 2 * (i / 2) = i := by omega
    simp only [sibling?, heven, decide_true, ordered, if_true, getElem?_couples, hleft,
      List.getElem?_eq_getElem h, Option.map_some]
    by_cases hnext : i + 1 < level.length
    · have hindex := index?_natCast level (i + 1)
      rw [List.getElem?_eq_getElem hnext] at hindex
      refine ⟨level[i + 1], ?_, by rw [List.getElem?_eq_getElem hnext]; rfl⟩
      rw [if_pos (by omega)]
      exact hindex
    · have hindex := index?_natCast level i
      rw [List.getElem?_eq_getElem h] at hindex
      refine ⟨level[i], ?_, by rw [List.getElem?_eq_none (by omega)]; rfl⟩
      rw [if_neg (by omega)]
      exact hindex
  · have hright : 2 * (i / 2) + 1 = i := by omega
    have hindex := index?_natCast level (2 * (i / 2))
    rw [List.getElem?_eq_getElem (by omega)] at hindex
    simp only [sibling?, heven, if_false, decide_false, Bool.false_eq_true, ordered, getElem?_couples, hright,
      List.getElem?_eq_getElem h, Option.getD_some]
    refine ⟨level[2 * (i / 2)], ?_, by rw [List.getElem?_eq_getElem (by omega)]; rfl⟩
    rw [if_pos (by omega), ← hindex]
    congr 1
    omega

theorem climb_levels_of_one_lt {level : List D} (h : 1 < level.length) (i : Int) :
    climb (levels pair level) i = (sibling? level i).bind fun sibling =>
      (climb (levels pair (parents pair level)) (i / 2)).map ((sibling, decide (i % 2 = 0)) :: ·) := by
  obtain ⟨above, habove⟩ := levels_eq_cons pair (parents pair level)
  rw [levels_of_one_lt h, habove, climb]
  cases sibling? level i with
  | none => rfl
  | some sibling => cases climb (parents pair level :: above) (i / 2) <;> rfl

variable (pair) in
theorem getElem?_parents_of_couple {level : List D} {j : Nat} {x : D} {sibling : D × Bool}
    (h : (couples level)[j]? = some (ordered x sibling)) :
    (parents pair level)[j]? = some (combine pair x sibling) := by
  rw [parents, List.getElem?_map, h]
  rfl

theorem isPath_levels_of_one_lt {level : List D} {i : Nat} {x : D} {sibling : D × Bool} {siblings : List (D × Bool)}
    (h : 1 < level.length) (here : level[i]? = some x) (couple : (couples level)[i / 2]? = some (ordered x sibling))
    (up : IsPath pair (levels pair (parents pair level)) (i / 2) (combine pair x sibling) siblings) :
    IsPath pair (levels pair level) i x (sibling :: siblings) := by
  obtain ⟨above, habove⟩ := levels_eq_cons pair (parents pair level)
  rw [habove] at up
  rw [levels_of_one_lt h, habove]
  exact .step here couple up

variable (pair) in
theorem climb_isPath {leaves : List D} {i : Nat} (h : i < leaves.length) :
    ∃ siblings, climb (levels pair leaves) (i : Int) = some siblings ∧
      IsPath pair (levels pair leaves) i leaves[i] siblings := by
  induction leaves using levels_induction pair generalizing i with
  | few level hfew =>
    rw [levels_of_le_one hfew]
    exact ⟨[], rfl, .root (List.getElem?_eq_getElem h)⟩
  | many level hmany ih =>
    obtain ⟨sibling, hsibling, hcouple⟩ := couple_of_sibling? h
    have hparent := getElem?_parents_of_couple pair hcouple
    obtain ⟨hlt, hget⟩ := List.getElem?_eq_some_iff.mp hparent
    obtain ⟨siblings, hclimb, hpath⟩ := ih hlt
    rw [hget] at hpath
    refine ⟨_, ?_, isPath_levels_of_one_lt hmany (List.getElem?_eq_getElem h) hcouple hpath⟩
    have hhalf : (i : Int) / 2 = ((i / 2 : Nat) : Int) := by omega
    rw [climb_levels_of_one_lt hmany, hsibling, hhalf, hclimb]
    rfl

theorem IsPath.walk_eq {tree : List (List D)} {i : Nat} {x : D} {siblings : List (D × Bool)}
    (h : IsPath pair tree i x siblings) (hlast : ∃ root, tree.getLast? = some [root]) :
    top? tree = some (walk pair x siblings) := by
  induction h with
  | @root level i x here =>
    obtain ⟨node, hnode⟩ := hlast
    obtain rfl : level = [node] := by simpa using hnode
    obtain ⟨-, rfl⟩ : i = 0 ∧ node = x := by
      cases i with
      | zero => simpa using here
      | succ i => simp at here
    rfl
  | step _ _ _ ih => exact ih hlast

/-! ### Soundness -/

theorem walked_append (x : D) (before after : List (D × Bool)) :
    walked pair x (before ++ after) = walked pair x before ++ walked pair (walk pair x before) after := by
  induction before generalizing x with
  | nil => rfl
  | cons sibling before ih => simp only [List.cons_append, walked, ih, walk, List.foldl_cons]

/-- One of every two that a walk hashes is the node it came from. -/
theorem forall_walked {P : D → Prop} (hpair : ∀ a b, P (pair a b)) {x : D} (hx : P x) (siblings : List (D × Bool)) :
    ∀ children ∈ walked pair x siblings, P children.1 ∨ P children.2 := by
  induction siblings generalizing x with
  | nil => simp [walked]
  | cons sibling siblings ih =>
    obtain ⟨sibling, isRight⟩ := sibling
    intro children hchildren
    rcases List.mem_cons.mp hchildren with rfl | hrest
    · cases isRight with
      | true => exact .inl hx
      | false => exact .inr hx
    · exact ih (hpair _ _) children hrest

theorem walk_concat (x : D) (before : List (D × Bool)) (last : D × Bool) :
    walk pair x (before ++ [last]) = combine pair (walk pair x before) last := by
  simp [walk]

theorem exists_child_of_couple {level : List D} {i : Nat} {x : D} {sibling : D × Bool}
    (h : (couples level)[i]? = some (ordered x sibling)) : ∃ j, j / 2 = i ∧ level[j]? = some x := by
  rw [getElem?_couples] at h
  obtain ⟨left, hleft, hordered⟩ := Option.map_eq_some_iff.mp h
  obtain ⟨sibling, isRight⟩ := sibling
  cases isRight with
  | true =>
    obtain ⟨rfl, -⟩ := Prod.mk.inj hordered
    exact ⟨2 * i, by omega, hleft⟩
  | false =>
    obtain ⟨rfl, hright⟩ := Prod.mk.inj hordered
    cases hnext : level[2 * i + 1]? with
    | some right =>
      rw [hnext] at hright
      exact ⟨2 * i + 1, by omega, by rw [hnext]; exact congrArg some hright⟩
    | none =>
      rw [hnext] at hright
      exact ⟨2 * i, by omega, by rw [hleft]; exact congrArg some hright⟩

/-- A walk that ends in the root is a path from some level, or comes by the leaves
with a first stretch of its own. -/
theorem path_of_walk_eq {leaves : List D} {x : D} {siblings : List (D × Bool)}
    (commits : ∀ p ∈ walked pair x siblings, ∀ q ∈ hashed (levels pair leaves), pair p.1 p.2 = pair q.1 q.2 → p = q)
    (htop : top? (levels pair leaves) = some (walk pair x siblings)) :
    (∃ k i, IsPath pair ((levels pair leaves).drop k) i x siblings) ∨
      ∃ before last after i, siblings = before ++ last :: after ∧
        IsPath pair (levels pair leaves) i (combine pair (walk pair x before) last) after := by
  induction leaves using levels_induction pair with
  | few level hfew =>
    have hroot := htop
    rw [top?_levels_of_le_one hfew] at hroot
    rw [levels_of_le_one hfew]
    have hhere : level[0]? = some (walk pair x siblings) := by rw [← hroot, List.head?_eq_getElem?]
    rcases List.eq_nil_or_concat siblings with rfl | ⟨before, last, rfl⟩
    · exact .inl ⟨0, 0, .root hhere⟩
    · rw [List.concat_eq_append, walk_concat] at hhere
      exact .inr ⟨before, last, [], 0, List.concat_eq_append, .root hhere⟩
  | many level hmany ih =>
    rw [top?_levels_of_one_lt hmany] at htop
    rw [hashed_levels_of_one_lt hmany] at commits
    rcases ih (fun p hp q hq => commits p hp q (List.mem_append_right _ hq)) htop with
      ⟨k, i, hpath⟩ | ⟨before, last, after, i, rfl, hpath⟩
    · refine .inl ⟨k + 1, i, ?_⟩
      rw [levels_of_one_lt hmany]
      exact hpath
    · have hparent : (parents pair level)[i]? = some (combine pair (walk pair x before) last) := by
        obtain ⟨above, habove⟩ := levels_eq_cons pair (parents pair level)
        rw [habove] at hpath
        exact hpath.here
      rw [parents, List.getElem?_map] at hparent
      obtain ⟨children, hchildren, heq⟩ := Option.map_eq_some_iff.mp hparent
      have hwalked : ordered (walk pair x before) last ∈ walked pair x (before ++ last :: after) := by
        rw [walked_append]
        exact List.mem_append_right _ List.mem_cons_self
      have hsame := commits _ hwalked children
        (List.mem_append_left _ (List.mem_of_getElem? hchildren)) heq.symm
      rw [← hsame] at hchildren
      obtain ⟨j, rfl, hhere⟩ := exists_child_of_couple hchildren
      have hdown := isPath_levels_of_one_lt hmany hhere hchildren hpath
      rcases List.eq_nil_or_concat before with rfl | ⟨before, previous, rfl⟩
      · exact .inl ⟨0, j, hdown⟩
      · rw [List.concat_eq_append, walk_concat] at hdown
        exact .inr ⟨before, previous, last :: after, j, by simp, hdown⟩

/-- Where no leaf is a hash, the walks to the root are the paths from the nodes. -/
theorem walk_eq_root_iff {leaves : List D} {x : D} {siblings : List (D × Bool)} (hne : leaves ≠ [])
    (commits : ∀ p ∈ walked pair x siblings, ∀ q ∈ hashed (levels pair leaves), pair p.1 p.2 = pair q.1 q.2 → p = q)
    (hleaf : ∀ p ∈ walked pair x siblings, pair p.1 p.2 ∉ leaves) :
    top? (levels pair leaves) = some (walk pair x siblings) ↔
      ∃ k i, IsPath pair ((levels pair leaves).drop k) i x siblings := by
  constructor
  · intro htop
    rcases path_of_walk_eq commits htop with hpath | ⟨before, last, after, i, rfl, hpath⟩
    · exact hpath
    · exfalso
      have hwalked : ordered (walk pair x before) last ∈ walked pair x (before ++ last :: after) := by
        rw [walked_append]
        exact List.mem_append_right _ List.mem_cons_self
      refine hleaf _ hwalked (List.mem_of_getElem? (i := i) ?_)
      obtain ⟨above, habove⟩ := levels_eq_cons pair leaves
      rw [habove] at hpath
      exact hpath.here
  · rintro ⟨k, i, hpath⟩
    obtain ⟨root, hroot⟩ := getLast?_levels pair hne
    have hlast : ((levels pair leaves).drop k).getLast? = some [root] := by
      have hk : (levels pair leaves).drop k ≠ [] := hpath.ne_nil
      rw [List.getLast?_drop, if_neg (by simpa using hk), hroot]
    rw [← hpath.walk_eq ⟨root, hlast⟩, top?, top?, hroot, hlast]

theorem IsPath.length_eq {tree : List (List D)} {i : Nat} {x : D} {siblings : List (D × Bool)}
    (h : IsPath pair tree i x siblings) : siblings.length + 1 = tree.length := by
  induction h with
  | root => rfl
  | step _ _ _ ih => simp only [List.length_cons] at ih ⊢; omega

/-- A path with a sibling for every level below the root starts at a leaf. -/
theorem IsPath.leaf {leaves : List D} {k i : Nat} {x : D} {siblings : List (D × Bool)}
    (h : IsPath pair ((levels pair leaves).drop k) i x siblings)
    (hlen : siblings.length + 1 = (levels pair leaves).length) : leaves[i]? = some x := by
  have hk : k = 0 := by
    have := h.length_eq
    rw [List.length_drop] at this
    omega
  subst hk
  obtain ⟨above, habove⟩ := levels_eq_cons pair leaves
  rw [habove] at h
  exact h.here

/-! ### Binding -/

theorem couples_injective {A B : List D} (hlen : A.length = B.length) (h : couples A = couples B) : A = B := by
  fun_induction couples A generalizing B with
  | case1 => exact (List.eq_nil_of_length_eq_zero hlen.symm).symm
  | case2 a =>
    match B, hlen with
    | [b], _ =>
      obtain ⟨⟨rfl, -⟩, -⟩ : (a = b ∧ a = b) ∧ True := by simpa [couples] using h
      rfl
  | case3 left right rest ih =>
    match B, hlen with
    | left' :: right' :: rest', hlen =>
      obtain ⟨⟨rfl, rfl⟩, hrest⟩ : (left = left' ∧ right = right') ∧ couples rest = couples rest' := by
        simpa [couples] using h
      rw [ih (by simpa using hlen) hrest]

variable (pair) in
/-- Trees of as many leaves and the same root have the same leaves. -/
theorem leaves_eq_of_top?_eq {A B : List D} (hlen : A.length = B.length)
    (commits : ∀ p ∈ hashed (levels pair A), ∀ q ∈ hashed (levels pair B), pair p.1 p.2 = pair q.1 q.2 → p = q)
    (htop : top? (levels pair A) = top? (levels pair B)) : A = B := by
  induction A using levels_induction pair generalizing B with
  | few A hfew =>
    rw [top?_levels_of_le_one hfew, top?_levels_of_le_one (hlen ▸ hfew)] at htop
    match A, B, hfew, hlen, htop with
    | [], [], _, _, _ => rfl
    | [a], [b], _, _, htop => exact congrArg (fun x => [x]) (Option.some.inj htop)
  | many A hmany ih =>
    have hmany' : 1 < B.length := hlen ▸ hmany
    rw [top?_levels_of_one_lt hmany, top?_levels_of_one_lt hmany'] at htop
    rw [hashed_levels_of_one_lt hmany, hashed_levels_of_one_lt hmany'] at commits
    have habove := ih (by rw [length_parents, length_parents, hlen])
      (fun p hp q hq => commits p (List.mem_append_right _ hp) q (List.mem_append_right _ hq)) htop
    refine couples_injective hlen (List.ext_getElem (by simp only [length_couples, hlen]) fun j hj hj' => ?_)
    refine commits _ (List.mem_append_left _ (List.getElem_mem _)) _ (List.mem_append_left _ (List.getElem_mem _)) ?_
    have hat : (parents pair A)[j]? = (parents pair B)[j]? := by rw [habove]
    rw [parents, parents, List.getElem?_map, List.getElem?_map, List.getElem?_eq_getElem hj,
      List.getElem?_eq_getElem hj'] at hat
    exact Option.some.inj hat

/-- A last node without a partner is paired as if it were given twice. -/
theorem couples_repeat_last {level : List D} (hodd : level.length % 2 = 1) (last : D) (hlast : level.getLast? = some last) :
    couples (level ++ [last]) = couples level := by
  fun_induction couples level with
  | case1 => simp at hodd
  | case2 a =>
    obtain rfl : a = last := by simpa using hlast
    rfl
  | case3 left right rest ih =>
    have hrest : rest ≠ [] := by
      rintro rfl
      simp at hodd
    rw [List.cons_append, List.cons_append, couples, ih ?_ ?_]
    · simp only [List.length_cons] at hodd
      omega
    · rw [← hlast, List.getLast?_cons_cons, List.getLast?_cons_of_ne_nil hrest]

variable (pair) in
theorem top?_levels_repeat_last {level : List D} (hmany : 1 < level.length) (hodd : level.length % 2 = 1) (last : D)
    (hlast : level.getLast? = some last) : top? (levels pair (level ++ [last])) = top? (levels pair level) := by
  have hmore : 1 < (level ++ [last]).length := by
    rw [List.length_append]
    omega
  rw [top?_levels_of_one_lt hmany, top?_levels_of_one_lt hmore, parents, parents,
    couples_repeat_last hodd last hlast]

end MerkleLevels
