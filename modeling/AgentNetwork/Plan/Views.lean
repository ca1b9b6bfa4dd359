import AgentNetwork.Library.DepthFirst
import AgentNetwork.Library.Table

namespace AgentNetwork.Plan

open Relation Relational DepthFirst

/-- `self.reverse_edges[child].append(parent)`. -/
def addParent (parent : String) (reverseEdges : Table String (List String)) (child : String) :
    Table String (List String) :=
  reverseEdges.upsert child ((reverseEdges.get? child).getD [] ++ [parent])

/-- `_build_reverse_edges`. -/
def buildReverseEdges (edges : Table String (List String)) : Table String (List String) :=
  edges.entries.foldl (fun reverseEdges entry => entry.2.foldl (addParent entry.1) reverseEdges) .empty

/-- The edges of the plan and their reverse index. -/
structure GraphView where
  edges : Table String (List String)
  reverseEdges : Table String (List String)
  mem_reverseEdges : ∀ child, child ∈ reverseEdges.keys ↔ ∃ entry ∈ edges.entries, child ∈ entry.2

theorem mem_keys_addParents {parent child : String} {children : List String} {reverseEdges : Table String (List String)} :
    child ∈ (children.foldl (addParent parent) reverseEdges).keys ↔ child ∈ children ∨ child ∈ reverseEdges.keys := by
  induction children generalizing reverseEdges with
  | nil => simp
  | cons c rest ih =>
    rw [List.foldl_cons, ih, addParent, Table.mem_keys_upsert, List.mem_cons]
    tauto

theorem mem_keys_buildReverseEdges {edges : Table String (List String)} {child : String} :
    child ∈ (buildReverseEdges edges).keys ↔ ∃ entry ∈ edges.entries, child ∈ entry.2 := by
  have hfold (entries : List (String × List String)) (reverseEdges : Table String (List String)) :
      child ∈ (entries.foldl (fun acc entry => entry.2.foldl (addParent entry.1) acc) reverseEdges).keys ↔
        (∃ entry ∈ entries, child ∈ entry.2) ∨ child ∈ reverseEdges.keys := by
    induction entries generalizing reverseEdges with
    | nil => simp
    | cons entry rest ih =>
      rw [List.foldl_cons, ih, mem_keys_addParents, List.exists_mem_cons_iff, ← or_assoc]
      exact or_congr_left or_comm
  have hempty : child ∉ (Table.empty : Table String (List String)).keys := Table.get?_eq_none_iff.mp rfl
  rw [buildReverseEdges, hfold]
  exact or_iff_left hempty

namespace GraphView

def init (edges : Table String (List String)) : GraphView :=
  ⟨edges, buildReverseEdges edges, fun _ => mem_keys_buildReverseEdges⟩

variable (view : GraphView)

def getChildren (taskId : String) : List String := (view.edges.get? taskId).getD []

def getParents (taskId : String) : List String := (view.reverseEdges.get? taskId).getD []

/-- What the search has gathered; `path` is the list handed from call to call. -/
structure Search where
  cycles : List (List String)
  visited : List String
  recStack : List String
  path : List String
  deriving DecidableEq

inductive SearchError
  | notInList (child : String)
  | outOfFuel
  deriving DecidableEq

/-- The loop of `dfs` over the children of a task. -/
def visitChildren (dfs : String → Search → Except SearchError (Bool × Search)) :
    List String → Search → Except SearchError (Bool × Search)
  | [], s => .ok (false, s)
  | child :: rest, s =>
    if child ∉ s.visited then
      match dfs child s with
      | .ok (false, s') => visitChildren dfs rest s'
      | outcome => outcome
    else if child ∈ s.recStack then
      match s.path.idxOf? child with
      | some cycleStart => .ok (true, { s with cycles := s.cycles ++ [s.path.drop cycleStart ++ [child]] })
      | none => .error (.notInList child)
    else visitChildren dfs rest s

/-- `dfs`, to a depth of at most `fuel` calls. -/
def dfs : Nat → String → Search → Except SearchError (Bool × Search)
  | 0, _, _ => .error .outOfFuel
  | fuel + 1, taskId, s =>
    match visitChildren (dfs fuel) (view.getChildren taskId)
      { s with visited := taskId :: s.visited, recStack := taskId :: s.recStack, path := s.path ++ [taskId] } with
    | .ok (false, s') => .ok (false, { s' with path := s'.path.dropLast, recStack := s'.recStack.erase taskId })
    | outcome => outcome

/-- The loop over all nodes: each search starts with a path of its own. -/
def searchRoots (fuel : Nat) : List String → Search → Except SearchError (List (List String))
  | [], s => .ok s.cycles
  | taskId :: rest, s =>
    if taskId ∉ s.visited then
      match view.dfs fuel taskId { s with path := [] } with
      | .ok (_, s') => searchRoots fuel rest s'
      | .error e => .error e
    else searchRoots fuel rest s

/-- The order in which the set of all nodes is iterated. -/
structure NodeOrder where
  nodes : List String
  nodup : nodes.Nodup
  mem_iff : ∀ taskId, taskId ∈ nodes ↔ taskId ∈ view.edges.keys ∨ taskId ∈ view.reverseEdges.keys

variable {view} in
/-- `detect_cycles`; no search is deeper than there are nodes. -/
def detectCycles (order : NodeOrder view) : Except SearchError (List (List String)) :=
  view.searchRoots order.nodes.length order.nodes ⟨[], [], [], []⟩

variable {view}

theorem NodeOrder.mem_of_edge (order : NodeOrder view) {u v : String} (h : Edge view.getChildren u v) :
    u ∈ order.nodes ∧ v ∈ order.nodes := by
  unfold Edge getChildren at h
  cases hu : view.edges.get? u with
  | none => simp [hu] at h
  | some children =>
    rw [hu, Option.getD_some] at h
    have hentry := Table.get?_eq_some_iff.mp hu
    rw [order.mem_iff, order.mem_iff]
    refine ⟨Or.inl (List.mem_map.mpr ⟨(u, children), hentry, rfl⟩), Or.inr ?_⟩
    exact (view.mem_reverseEdges v).mpr ⟨(u, children), hentry, h⟩

/-- What a search that ends with a finding leaves in the view's own words. -/
def outcome (s : Search) (left : List String) : Option (Finding String × List String) →
    Except SearchError (Bool × Search)
  | none => .error .outOfFuel
  | some (.clear, visited) => .ok (false, { s with visited := visited })
  | some (.back stack child, visited) =>
    match stack.reverse.idxOf? child with
    | some cycleStart => .ok (true,
        ⟨s.cycles ++ [stack.reverse.drop cycleStart ++ [child]], visited, stack ++ left, stack.reverse⟩)
    | none => .error (.notInList child)

theorem visitChildren_eq {dfs : String → Search → Except SearchError (Bool × Search)} {left stack : List String}
    {down : List String → String → Option (Finding String × List String)}
    (hdown : ∀ c s, s.recStack = stack ++ left → s.path = stack.reverse → dfs c s = outcome s left (down s.visited c))
    {pending : List String} {s : Search} (hrec : s.recStack = stack ++ left) (hpath : s.path = stack.reverse) :
    visitChildren dfs pending s = outcome s left (scan left down stack s.visited pending) := by
  induction pending generalizing s with
  | nil => rfl
  | cons c rest ih =>
    rw [visitChildren, scan]
    by_cases hc : c ∈ s.visited
    · rw [if_neg (not_not.mpr hc), if_neg (not_not.mpr hc)]
      by_cases hs : c ∈ stack ∨ c ∈ left
      · have hmem : c ∈ s.recStack := by rw [hrec]; exact List.mem_append.mpr hs
        rw [if_pos hs, if_pos hmem, outcome, hpath]
        cases stack.reverse.idxOf? c with
        | none => rfl
        | some cycleStart => simp [hrec]
      · have hmem : c ∉ s.recStack := by rw [hrec]; exact fun hm => hs (List.mem_append.mp hm)
        rw [if_neg hs, if_neg hmem]
        exact ih hrec hpath
    · rw [if_pos hc, if_pos hc, hdown c s hrec hpath]
      cases down s.visited c with
      | none => rfl
      | some found =>
        obtain ⟨found, visited⟩ := found
        cases found with
        | clear => exact @ih { s with visited := visited } hrec hpath
        | back st w =>
          simp only [outcome]
          cases st.reverse.idxOf? w <;> rfl

theorem dfs_eq (left : List String) {fuel : Nat} {stack : List String} {taskId : String} {s : Search}
    (hrec : s.recStack = stack ++ left) (hpath : s.path = stack.reverse) :
    view.dfs fuel taskId s = outcome s left (explore view.getChildren left fuel stack s.visited taskId) := by
  induction fuel generalizing stack taskId s with
  | zero => rfl
  | succ fuel ih =>
    have hdown : ∀ c s', s'.recStack = taskId :: stack ++ left → s'.path = (taskId :: stack).reverse →
        view.dfs fuel c s' =
          outcome s' left (explore view.getChildren left fuel (taskId :: stack) s'.visited c) :=
      fun _ _ hrec' hpath' => ih hrec' hpath'
    have hrec' : taskId :: s.recStack = taskId :: stack ++ left := by rw [hrec, List.cons_append]
    have hpath' : s.path ++ [taskId] = (taskId :: stack).reverse := by rw [hpath, List.reverse_cons]
    rw [dfs, visitChildren_eq hdown hrec' hpath', explore]
    cases scan left (explore view.getChildren left fuel (taskId :: stack)) (taskId :: stack) (taskId :: s.visited)
        (view.getChildren taskId) with
    | none => rfl
    | some found =>
      obtain ⟨found, visited⟩ := found
      cases found with
      | clear => simp [outcome]
      | back st w =>
        simp only [outcome]
        cases st.reverse.idxOf? w <;> rfl

/-- A walk along edges that ends where it started. -/
def ClosedWalk (view : GraphView) (cycle : List String) : Prop :=
  cycle.IsChain (Edge view.getChildren) ∧ 2 ≤ cycle.length ∧ cycle.head? = cycle.getLast?

theorem closedWalk_of_stack {stack : List String} {child : String} {i : Nat}
    (hchain : List.IsChain (fun x y => Leads view.getChildren y x) (child :: stack))
    (hi : stack.reverse.idxOf? child = some i) : view.ClosedWalk (stack.reverse.drop i ++ [child]) := by
  obtain ⟨hlt, hget, _⟩ := List.idxOf?_eq_some_iff.mp hi
  have hforward : List.IsChain (Edge view.getChildren) (stack.reverse ++ [child]) := by
    rw [← List.reverse_cons, List.isChain_reverse]
    exact hchain.imp fun _ _ => Leads.edge
  have hdrop : stack.reverse.drop i ++ [child] = (stack.reverse ++ [child]).drop i :=
    (List.drop_append_of_le_length hlt.le).symm
  refine ⟨hdrop ▸ hforward.drop i, ?_, ?_⟩
  · rw [List.length_append, List.length_drop, List.length_singleton]
    omega
  · rw [List.getLast?_concat, List.drop_eq_getElem_cons hlt, hget]
    rfl

/-- Where the search stands when it has gone over the nodes `before`. -/
structure Scanned (view : GraphView) (before : List String) (s : Search) : Prop where
  visited : ∀ t ∈ before, t ∈ s.visited
  onTrail : ∀ t, t ∈ s.recStack ↔ ∃ r ∈ before, Live view.getChildren r ∧ Trail view.getChildren r t
  recVisited : ∀ t ∈ s.recStack, t ∈ s.visited
  sorted : Sorted view.getChildren s.recStack [] s.visited
  found : s.cycles ≠ [] ↔ ∃ r ∈ before, Live view.getChildren r
  closed : ∀ cycle ∈ s.cycles, view.ClosedWalk cycle

theorem Scanned.start : Scanned view [] ⟨[], [], [], []⟩ where
  visited := List.forall_mem_nil _
  onTrail := by simp
  recVisited := List.forall_mem_nil _
  sorted := List.forall_mem_nil _
  found := by simp
  closed := List.forall_mem_nil _

/-- The trail of `r` meets no earlier trail, unless `r` itself lies on one. -/
def Apart (view : GraphView) (before : List String) (r : String) : Prop :=
  (∃ q ∈ before, Live view.getChildren q ∧ Trail view.getChildren q r) ∨
    ∀ q ∈ before, Live view.getChildren q → ∀ t, Trail view.getChildren q t → ¬Trail view.getChildren r t

theorem Scanned.live {before : List String} {s : Search} (h : Scanned view before s) : ∀ t ∈ s.recStack, Live view.getChildren t := by
  intro t ht
  obtain ⟨r, _, hr, htrail⟩ := (h.onTrail t).mp ht
  exact htrail.live hr

/-- A node that an earlier search has visited adds nothing. -/
theorem Scanned.skip {before : List String} {s : Search} {r : String} (h : Scanned view before s)
    (hr : r ∈ s.visited) : Scanned view (before ++ [r]) s ∧ (Live view.getChildren r → Apart view before r) := by
  have hold : Live view.getChildren r → ∃ q ∈ before, Live view.getChildren q ∧ Trail view.getChildren q r := by
    intro hlive
    rcases h.sorted r hr with hs | hs | hdead
    · cases hs
    · exact (h.onTrail r).mp hs
    · exact absurd hlive hdead
  refine ⟨⟨?_, ?_, h.recVisited, h.sorted, ?_, h.closed⟩, fun hlive => Or.inl (hold hlive)⟩
  · intro t ht
    rcases List.mem_append.mp ht with ht | ht
    · exact h.visited t ht
    · exact List.mem_singleton.mp ht ▸ hr
  · intro t
    rw [h.onTrail]
    constructor
    · rintro ⟨q, hq, hqt⟩
      exact ⟨q, List.mem_append_left _ hq, hqt⟩
    · rintro ⟨q, hq, hlive, htrail⟩
      rcases List.mem_append.mp hq with hq | hq
      · exact ⟨q, hq, hlive, htrail⟩
      · obtain rfl := List.mem_singleton.mp hq
        obtain ⟨p, hp, hlp, hpr⟩ := hold hlive
        exact ⟨p, hp, hlp, hpr.trans htrail⟩
  · rw [h.found]
    constructor
    · rintro ⟨q, hq, hlive⟩
      exact ⟨q, List.mem_append_left _ hq, hlive⟩
    · rintro ⟨q, hq, hlive⟩
      rcases List.mem_append.mp hq with hq | hq
      · exact ⟨q, hq, hlive⟩
      · obtain rfl := List.mem_singleton.mp hq
        obtain ⟨p, hp, hlp, _⟩ := hold hlive
        exact ⟨p, hp, hlp⟩

theorem exists_mem_concat {p : String → Prop} {l : List String} {r : String} :
    (∃ q ∈ l ++ [r], p q) ↔ (∃ q ∈ l, p q) ∨ p r := by
  simp [or_and_right, exists_or]

/-- A search that finds nothing starts from a dead node. -/
theorem Scanned.clear {before visited : List String} {s : Search} {r : String} (h : Scanned view before s)
    (hr : r ∈ visited) (hgrows : ∀ t ∈ s.visited, t ∈ visited) (hdead : ¬Live view.getChildren r)
    (hsorted : Sorted view.getChildren s.recStack [] visited) :
    Scanned view (before ++ [r]) { s with visited := visited, path := [] } where
  visited := by
    intro t ht
    rcases List.mem_append.mp ht with ht | ht
    · exact hgrows t (h.visited t ht)
    · exact List.mem_singleton.mp ht ▸ hr
  onTrail := by
    intro t
    rw [exists_mem_concat]
    simpa [hdead] using h.onTrail t
  recVisited := fun t ht => hgrows t (h.recVisited t ht)
  sorted := hsorted
  found := by
    rw [exists_mem_concat]
    simpa [hdead] using h.found
  closed := h.closed

/-- A search that closes a cycle leaves the whole trail of its node behind. -/
theorem Scanned.back {before visited stack : List String} {s : Search} {r w : String} {i : Nat}
    (h : Scanned view before s) (hgrows : ∀ t ∈ s.visited, t ∈ visited) (hlive : Live view.getChildren r)
    (hchain : List.IsChain (fun x y => Leads view.getChildren y x) (w :: stack)) (hlast : stack.getLast? = some r)
    (hw : w ∈ stack) (hstack : ∀ t ∈ stack, t ∈ visited)
    (hsorted : Sorted view.getChildren s.recStack stack visited) (hi : stack.reverse.idxOf? w = some i) :
    Scanned view (before ++ [r])
      ⟨s.cycles ++ [stack.reverse.drop i ++ [w]], visited, stack ++ s.recStack, stack.reverse⟩ where
  visited := by
    intro t ht
    rcases List.mem_append.mp ht with ht | ht
    · exact hgrows t (h.visited t ht)
    · exact hstack t (List.mem_singleton.mp ht ▸ List.mem_of_getLast? hlast)
  onTrail := by
    intro t
    rw [exists_mem_concat, ← h.onTrail, List.mem_append, or_comm]
    refine or_congr_right ⟨fun ht => ⟨hlive, trail_of_chain hchain.tail hlast ht⟩, ?_⟩
    exact fun ht => mem_of_trail hchain hlast hw ht.2
  recVisited := by
    intro t ht
    rcases List.mem_append.mp ht with ht | ht
    · exact hstack t ht
    · exact hgrows t (h.recVisited t ht)
  sorted := by
    intro t ht
    rcases hsorted t ht with hs | hs | hdead
    · exact Or.inr (Or.inl (List.mem_append_left _ hs))
    · exact Or.inr (Or.inl (List.mem_append_right _ hs))
    · exact Or.inr (Or.inr hdead)
  found := by
    rw [exists_mem_concat]
    simp [hlive]
  closed := by
    intro cycle hcycle
    rcases List.mem_append.mp hcycle with hcycle | hcycle
    · exact h.closed cycle hcycle
    · exact List.mem_singleton.mp hcycle ▸ closedWalk_of_stack hchain hi

/-- One round of the loop over all nodes. -/
theorem Scanned.visit {before : List String} {order : NodeOrder view} {s : Search} {r : String}
    (h : Scanned view before s) (hr : r ∉ s.visited) (hnode : r ∈ order.nodes) :
    (∃ b s', view.dfs order.nodes.length r { s with path := [] } = .ok (b, s') ∧ Scanned view (before ++ [r]) s' ∧
      (Live view.getChildren r → Apart view before r)) ∨
    (∃ child, view.dfs order.nodes.length r { s with path := [] } = .error (.notInList child)) ∧
      Live view.getChildren r ∧ ¬Apart view before r := by
  have hfuel : DepthFirst.unseen order.nodes s.visited ≤ order.nodes.length := List.countP_le_length
  have htotal := @explore_total _ _ view.getChildren s.recStack _ (fun _ _ hab => (order.mem_of_edge hab).2)
    _ [] _ _ hnode hr hfuel
  obtain ⟨⟨found, visited⟩, hexplore⟩ := Option.isSome_iff_exists.mp htotal
  have hgrows : ∀ t ∈ r :: s.visited, t ∈ visited := (explore_explores hexplore).grows
  have hold : ∀ t ∈ s.visited, t ∈ visited := fun t ht => hgrows t (List.mem_cons_of_mem _ ht)
  have hdfs := @dfs_eq view s.recStack order.nodes.length [] r { s with path := [] } rfl rfl
  rw [hexplore] at hdfs
  rw [hdfs]
  cases found with
  | clear =>
    obtain ⟨hdead, hsorted⟩ := (explore_explores hexplore).root_clear h.sorted
    refine Or.inl ⟨false, _, rfl, h.clear (hgrows r List.mem_cons_self) hold hdead hsorted, ?_⟩
    exact fun hlive => absurd hlive hdead
  | back st w =>
    obtain ⟨hlive, hchain, hlast, hw, hst, hsorted⟩ :=
      (explore_explores hexplore).root_back h.live h.recVisited hr h.sorted
    -- an earlier trail is left open as a whole
    have hleft : w ∈ s.recStack → ¬Apart view before r := by
      intro hws hapart
      obtain ⟨q, hq, hlq, hqw⟩ := (h.onTrail w).mp hws
      have hrw : Trail view.getChildren r w := by
        cases st with
        | nil => cases hlast
        | cons x rest =>
          obtain ⟨hxw, hrest⟩ := List.isChain_cons_cons.mp hchain
          exact (trail_of_chain hrest hlast List.mem_cons_self).tail hxw
      rcases hapart with ⟨p, hp, hlp, hpr⟩ | hapart
      · exact hr (h.recVisited r ((h.onTrail r).mpr ⟨p, hp, hlp, hpr⟩))
      · exact hapart q hq hlq w hqw hrw
    cases hi : st.reverse.idxOf? w with
    | none =>
      have hws : w ∉ st := by simpa using hi
      exact Or.inr ⟨⟨w, by simp [outcome, hi]⟩, hlive, hleft (hw.resolve_left hws)⟩
    | some i =>
      have hws : w ∈ st := by
        by_contra hws
        have hnone : st.reverse.idxOf? w = none := by simpa using hws
        rw [hnone] at hi
        cases hi
      have hback := h.back hold hlive hchain hlast hws (fun t ht => (hst t ht).1) hsorted hi
      refine Or.inl ⟨true, _, ?_, hback, fun _ => Or.inr ?_⟩
      · simp only [outcome, hi]
      · intro q hq hlq t hqt hrt
        have htst := mem_of_trail hchain hlast hws hrt
        exact (hst t htst).2 ((h.onTrail t).mpr ⟨q, hq, hlq, hqt⟩)

/-- The nodes of an order, each with a trail apart from the earlier ones. -/
def TrailsApart (view : GraphView) (before rest : List String) : Prop :=
  ∀ mid r after, rest = mid ++ r :: after → Live view.getChildren r → Apart view (before ++ mid) r

theorem trailsApart_cons {before rest : List String} {r : String} :
    TrailsApart view before (r :: rest) ↔
      (Live view.getChildren r → Apart view before r) ∧ TrailsApart view (before ++ [r]) rest := by
  constructor
  · intro h
    refine ⟨fun hlive => by simpa using h [] r rest rfl hlive, ?_⟩
    intro mid q after hq hlive
    have := h (r :: mid) q after (by rw [hq, List.cons_append]) hlive
    rwa [List.append_assoc, List.singleton_append]
  · rintro ⟨hr, hrest⟩ mid q after hq hlive
    cases mid with
    | nil =>
      obtain ⟨rfl, rfl⟩ := List.cons.inj hq
      simpa using hr hlive
    | cons x mid =>
      obtain ⟨rfl, hq'⟩ := List.cons.inj hq
      have := hrest mid q after hq' hlive
      rwa [List.append_assoc, List.singleton_append] at this

/-- The loop runs through exactly when all trails are apart. -/
theorem searchRoots_scanned {order : NodeOrder view} {before rest : List String} {s : Search}
    (h : Scanned view before s) (hrest : ∀ t ∈ rest, t ∈ order.nodes) :
    (∃ s', view.searchRoots order.nodes.length rest s = .ok s'.cycles ∧ Scanned view (before ++ rest) s' ∧
      TrailsApart view before rest) ∨
    (∃ child, view.searchRoots order.nodes.length rest s = .error (.notInList child)) ∧
      ¬TrailsApart view before rest := by
  induction rest generalizing before s with
  | nil =>
    refine Or.inl ⟨s, rfl, by simpa using h, ?_⟩
    intro mid r after hr
    simp at hr
  | cons r rest ih =>
    obtain ⟨hnode, hrest⟩ := List.forall_mem_cons.mp hrest
    have hgo {s' : Search} (hs' : Scanned view (before ++ [r]) s') (hr : Live view.getChildren r → Apart view before r) :
        (∃ s'', view.searchRoots order.nodes.length rest s' = .ok s''.cycles ∧ Scanned view (before ++ r :: rest) s'' ∧
          TrailsApart view before (r :: rest)) ∨
        (∃ child, view.searchRoots order.nodes.length rest s' = .error (.notInList child)) ∧
          ¬TrailsApart view before (r :: rest) := by
      have hbefore : before ++ [r] ++ rest = before ++ r :: rest := by simp
      rw [trailsApart_cons, ← hbefore]
      rcases ih hs' hrest with ⟨s'', hok, hs'', hapart⟩ | ⟨herror, hnot⟩
      · exact Or.inl ⟨s'', hok, hs'', hr, hapart⟩
      · exact Or.inr ⟨herror, fun hall => hnot hall.2⟩
    rw [searchRoots]
    by_cases hv : r ∈ s.visited
    · rw [if_neg (not_not.mpr hv)]
      exact hgo (h.skip hv).1 (h.skip hv).2
    · rw [if_pos hv]
      rcases h.visit hv hnode with ⟨b, s', hdfs, hs', hr⟩ | ⟨⟨child, hdfs⟩, hlive, hnot⟩
      · rw [hdfs]
        exact hgo hs' hr
      · rw [hdfs, trailsApart_cons]
        exact Or.inr ⟨⟨child, rfl⟩, fun hall => hnot (hall.1 hlive)⟩

/-- The search returns, finds a cycle exactly if there is one, and returns closed walks only. -/
def Detects (view : GraphView) (result : Except SearchError (List (List String))) : Prop :=
  ∃ cycles, result = .ok cycles ∧ (cycles ≠ [] ↔ Cyclic view.getChildren) ∧ ∀ cycle ∈ cycles, view.ClosedWalk cycle

/-- `detect_cycles` is exact as long as no trail runs into one that an earlier
search has left on the stack. -/
theorem detectCycles_detects_iff (view : GraphView) (order : NodeOrder view) :
    view.Detects (detectCycles order) ↔ view.TrailsApart [] order.nodes := by
  have hcyclic := cyclic_iff_live fun a b (hab : Edge view.getChildren a b) => (order.mem_of_edge hab).1
  rcases searchRoots_scanned Scanned.start (fun t (ht : t ∈ order.nodes) => ht) with
    ⟨s, hok, hs, hapart⟩ | ⟨⟨child, herror⟩, hnot⟩
  · refine iff_of_true ⟨s.cycles, hok, ?_, hs.closed⟩ hapart
    rw [hs.found, hcyclic, List.nil_append]
  · refine iff_of_false ?_ hnot
    rintro ⟨cycles, hok, _⟩
    rw [detectCycles, herror] at hok
    cases hok

/-- Two tasks that wait for each other, and a third before them. -/
theorem detectCycles_raises : ∃ (view : GraphView) (order : NodeOrder view),
    ¬∃ cycles, detectCycles order = .ok cycles := by
  let edges : Table String (List String) := ⟨[("A", ["B"]), ("B", ["A"]), ("C", ["A"])], by decide⟩
  let order : NodeOrder (init edges) := ⟨["A", "B", "C"], by decide, by
    intro taskId
    have hkeys : (init edges).edges.keys = ["A", "B", "C"] := rfl
    have hreverse : (init edges).reverseEdges.keys = ["B", "A"] := by decide
    rw [hkeys, hreverse]
    simp
    tauto⟩
  have herror : detectCycles order = .error (.notInList "A") := by decide
  refine ⟨init edges, order, ?_⟩
  rintro ⟨cycles, hok⟩
  rw [herror] at hok
  cases hok

end GraphView

end AgentNetwork.Plan
