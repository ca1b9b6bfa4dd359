import Mathlib.Data.List.Chain
import Mathlib.Data.List.Count
import Mathlib.Logic.Relation
import Mathlib.Tactic.ByContra

/-! Depth-first search for a cycle, in a graph given by the list of children of
each node. -/

namespace DepthFirst

open Relation

section Graph

variable {α : Type} (children : α → List α)

def Edge (u v : α) : Prop := v ∈ children u

def OnCycle (v : α) : Prop := TransGen (Edge children) v v

def Cyclic : Prop := ∃ v, OnCycle children v

/-- A cycle can be reached from the node. -/
def Live (v : α) : Prop := ∃ w, ReflTransGen (Edge children) v w ∧ OnCycle children w

/-- `w` is the first child of `v` from which a cycle can be reached. -/
def Leads (v w : α) : Prop :=
  ∃ before after, children v = before ++ w :: after ∧ (∀ x ∈ before, ¬Live children x) ∧ Live children w

/-- The nodes met from `v` on when each step goes to the first live child. -/
def Trail (v w : α) : Prop := ReflTransGen (Leads children) v w

variable {children} {u v w : α}

theorem OnCycle.live (h : OnCycle children v) : Live children v := ⟨v, .refl, h⟩

theorem Live.of_edge (h : Edge children v w) (hw : Live children w) : Live children v := by
  obtain ⟨x, hx, hc⟩ := hw
  exact ⟨x, .head h hx, hc⟩

theorem Live.child (h : Live children v) : ∃ w, Edge children v w ∧ Live children w := by
  obtain ⟨x, hx, hc⟩ := h
  rcases ReflTransGen.cases_head hx with rfl | ⟨w, hw, hwx⟩
  · obtain ⟨w, hw, hwv⟩ := TransGen.head'_iff.mp hc
    exact ⟨w, hw, v, hwv, hc⟩
  · exact ⟨w, hw, x, hwx, hc⟩

theorem Leads.edge (h : Leads children v w) : Edge children v w := by
  obtain ⟨before, after, he, _, _⟩ := h
  simp [Edge, he]

theorem Leads.live (h : Leads children v w) : Live children w := by
  obtain ⟨_, _, _, _, hw⟩ := h
  exact hw

theorem Leads.live_source (h : Leads children v w) : Live children v := h.live.of_edge h.edge

theorem Leads.unique (h : Leads children v u) (h' : Leads children v w) : u = w := by
  obtain ⟨before, after, he, hbefore, hu⟩ := h
  obtain ⟨before', after', he', hbefore', hw⟩ := h'
  rw [he] at he'
  rcases List.append_eq_append_iff.mp he' with ⟨mid, hb, hm⟩ | ⟨mid, hb, hm⟩
  · cases mid with
    | nil => simpa using (List.cons.inj hm).1
    | cons x mid =>
      -- then `u` would stand before `w`
      have hx : u = x := (List.cons.inj hm).1
      exact absurd (hx ▸ hu) (hbefore' x (by simp [hb]))
  · cases mid with
    | nil => simpa using (List.cons.inj hm).1.symm
    | cons x mid =>
      have hx : w = x := (List.cons.inj hm).1
      exact absurd (hx ▸ hw) (hbefore x (by simp [hb]))

theorem Trail.live (h : Trail children v w) (hv : Live children v) : Live children w := by
  induction h with
  | refl => exact hv
  | tail _ hl _ => exact hl.live

/-- A set that contains `v` and is closed under first live children has its whole trail. -/
theorem Trail.closed {S : α → Prop} (hS : ∀ a b, S a → Leads children a b → S b) (hv : S v)
    (h : Trail children v w) : S w := by
  induction h with
  | refl => exact hv
  | tail _ hl ih => exact hS _ _ ih hl

theorem not_live_of_children (h : ∀ w ∈ children v, ¬Live children w) : ¬Live children v := by
  intro hlive
  obtain ⟨w, hw, hlw⟩ := hlive.child
  exact h w hw hlw

theorem forall_dead_concat {l : List α} (h : ∀ x ∈ l, ¬Live children x) (hv : ¬Live children v) :
    ∀ x ∈ l ++ [v], ¬Live children x := by
  intro x hx
  rcases List.mem_append.mp hx with hx | hx
  · exact h x hx
  · exact List.mem_singleton.mp hx ▸ hv

theorem Cyclic.mono {children' : α → List α} (h : Cyclic children)
    (hedge : ∀ a b, Edge children a b → Edge children' a b) : Cyclic children' := by
  obtain ⟨v, hv⟩ := h
  exact ⟨v, TransGen.mono hedge v v hv⟩

theorem cyclic_iff_live {nodes : List α} (hnodes : ∀ a b, Edge children a b → a ∈ nodes) :
    Cyclic children ↔ ∃ v ∈ nodes, Live children v := by
  constructor
  · rintro ⟨v, hv⟩
    obtain ⟨w, hw, _⟩ := TransGen.head'_iff.mp hv
    exact ⟨v, hnodes v w hw, hv.live⟩
  · rintro ⟨v, _, w, _, hw⟩
    exact ⟨w, hw⟩

end Graph

/-- How a search ends: without a cycle, or at an edge back to a node, with the
nodes open at that moment, the innermost first. -/
inductive Finding (α : Type)
  | clear
  | back (stack : List α) (target : α)
  deriving DecidableEq

section Searched

variable {α : Type} (children : α → List α) (left : List α)

/-- A search of the pending children of the innermost open node. -/
inductive Explores : List α → List α → List α → Finding α → List α → Prop
  | done {stack visited} : Explores stack visited [] .clear visited
  | skip {stack visited c rest r visited'} : c ∈ visited → c ∉ stack → c ∉ left →
      Explores stack visited rest r visited' → Explores stack visited (c :: rest) r visited'
  | back {stack visited c rest} : c ∈ visited → c ∈ stack ∨ c ∈ left →
      Explores stack visited (c :: rest) (.back stack c) visited
  | descend {stack visited c rest r visited₁ visited'} : c ∉ visited →
      Explores (c :: stack) (c :: visited) (children c) .clear visited₁ →
      Explores stack visited₁ rest r visited' → Explores stack visited (c :: rest) r visited'
  | stop {stack visited c rest st w visited'} : c ∉ visited →
      Explores (c :: stack) (c :: visited) (children c) (.back st w) visited' →
      Explores stack visited (c :: rest) (.back st w) visited'

variable {children left}

theorem Explores.grows {stack visited pending visited' : List α} {r : Finding α}
    (h : Explores children left stack visited pending r visited') : ∀ x ∈ visited, x ∈ visited' := by
  induction h with
  | done => exact fun x hx => hx
  | skip _ _ _ _ ih => exact ih
  | back => exact fun x hx => hx
  | descend _ _ _ ih ih' => exact fun x hx => ih' x (ih x (List.mem_cons_of_mem _ hx))
  | stop _ _ ih => exact fun x hx => ih x (List.mem_cons_of_mem _ hx)

/-- The nodes visited are open, left open or dead. -/
def Sorted (children : α → List α) (left stack visited : List α) : Prop :=
  ∀ x ∈ visited, x ∈ stack ∨ x ∈ left ∨ ¬Live children x

theorem Sorted.cons {stack visited : List α} (h : Sorted children left stack visited) (c : α) :
    Sorted children left (c :: stack) (c :: visited) := by
  intro x hx
  rcases List.mem_cons.mp hx with rfl | hx
  · exact Or.inl List.mem_cons_self
  · exact (h x hx).imp_left (List.mem_cons_of_mem _)

theorem Sorted.pop {stack visited : List α} {c : α} (h : Sorted children left (c :: stack) visited)
    (hc : ¬Live children c) : Sorted children left stack visited := by
  intro x hx
  rcases h x hx with hs | hl
  · rcases List.mem_cons.mp hs with rfl | hs
    · exact Or.inr (Or.inr hc)
    · exact Or.inl hs
  · exact Or.inr hl

/-- A search that finds nothing has seen dead nodes only. -/
theorem Explores.clear {stack visited pending visited' : List α} {r : Finding α}
    (h : Explores children left stack visited pending r visited') (hr : r = .clear)
    (hsorted : Sorted children left stack visited) :
    (∀ c ∈ pending, ¬Live children c) ∧ Sorted children left stack visited' := by
  induction h with
  | done => exact ⟨List.forall_mem_nil _, hsorted⟩
  | @skip stack visited c rest r visited' hc hstack hleft _ ih =>
    obtain ⟨hrest, hsorted'⟩ := ih hr hsorted
    have hdead : ¬Live children c := ((hsorted c hc).resolve_left hstack).resolve_left hleft
    exact ⟨List.forall_mem_cons.mpr ⟨hdead, hrest⟩, hsorted'⟩
  | back => cases hr
  | @descend stack visited c rest r visited₁ visited' hc _ _ ih ih' =>
    obtain ⟨hchildren, hsorted₁⟩ := ih rfl (hsorted.cons c)
    have hdead := not_live_of_children hchildren
    obtain ⟨hrest, hsorted'⟩ := ih' hr (hsorted₁.pop hdead)
    exact ⟨List.forall_mem_cons.mpr ⟨hdead, hrest⟩, hsorted'⟩
  | stop => cases hr

theorem live_of_chain {l : List α} {a w : α}
    (h : List.IsChain (fun x y => Leads children y x) (w :: l ++ [a])) : Live children a := by
  obtain ⟨x, rest, hx⟩ : ∃ x rest, w :: l = rest ++ [x] :=
    ⟨_, _, (List.dropLast_append_getLast (List.cons_ne_nil w l)).symm⟩
  rw [hx, List.append_assoc, List.isChain_append] at h
  exact (List.isChain_pair.mp h.2.1).live_source

/-- The innermost of a chain of first live children is on the trail of the outermost. -/
theorem trail_of_chain {stack : List α} {r t : α} (hchain : List.IsChain (fun x y => Leads children y x) stack)
    (hlast : stack.getLast? = some r) (ht : t ∈ stack) : Trail children r t := by
  induction stack generalizing t with
  | nil => cases ht
  | cons x rest ih =>
    cases rest with
    | nil =>
      have hx : x = r := by simpa using hlast
      rw [List.mem_singleton.mp ht, hx]
      exact .refl
    | cons y rest =>
      rw [List.getLast?_cons_cons] at hlast
      obtain ⟨hyx, hrest⟩ := List.isChain_cons_cons.mp hchain
      rcases List.mem_cons.mp ht with rfl | ht
      · exact (ih hrest hlast List.mem_cons_self).tail hyx
      · exact ih hrest hlast ht

theorem leads_mem_of_chain {S : α → Prop} {stack : List α} {w x y : α}
    (hchain : List.IsChain (fun x y => Leads children y x) (w :: stack)) (hS : ∀ t ∈ w :: stack, S t)
    (hx : x ∈ stack) (hxy : Leads children x y) : S y := by
  induction stack generalizing w with
  | nil => cases hx
  | cons z rest ih =>
    obtain ⟨hzw, hrest⟩ := List.isChain_cons_cons.mp hchain
    rcases List.mem_cons.mp hx with rfl | hx
    · exact hxy.unique hzw ▸ hS w List.mem_cons_self
    · exact ih hrest (fun t ht => hS t (List.mem_cons_of_mem _ ht)) hx

/-- A chain of first live children that closes is the whole trail. -/
theorem mem_of_trail {stack : List α} {r w t : α}
    (hchain : List.IsChain (fun x y => Leads children y x) (w :: stack)) (hlast : stack.getLast? = some r)
    (hw : w ∈ stack) (ht : Trail children r t) : t ∈ stack := by
  have hS : ∀ t ∈ w :: stack, t ∈ stack := List.forall_mem_cons.mpr ⟨hw, fun _ ht => ht⟩
  have hclosed : ∀ a b, a ∈ stack → Leads children a b → b ∈ stack :=
    fun a b ha hab => @leads_mem_of_chain _ _ (· ∈ stack) stack w a b hchain hS ha hab
  exact ht.closed hclosed (List.mem_of_getLast? hlast)

/-- A search that ends at an edge back has gone from live child to live child. -/
theorem Explores.back_trail {stack visited pending visited' : List α} {r : Finding α}
    (h : Explores children left stack visited pending r visited')
    {a w : α} {below st before : List α} (hr : r = .back st w) (hstack : stack = a :: below)
    (hleft : ∀ x ∈ left, Live children x) (hreach : ∀ x ∈ stack, ReflTransGen (Edge children) x a)
    (hchildren : children a = before ++ pending) (hbefore : ∀ x ∈ before, ¬Live children x)
    (hsorted : Sorted children left stack visited) :
    ∃ l, st = l ++ stack ∧ List.IsChain (fun x y => Leads children y x) (w :: l ++ [a]) ∧
      (w ∈ st ∨ w ∈ left) ∧ (∀ x ∈ l, x ∉ visited ∧ x ∈ visited') ∧ Sorted children left st visited' := by
  induction h generalizing a below before with
  | done => cases hr
  | @skip stack visited c rest r visited' hc hopen hl _ ih =>
    have hdead : ¬Live children c := ((hsorted c hc).resolve_left hopen).resolve_left hl
    have hchildren' : children a = (before ++ [c]) ++ rest := by simp [hchildren]
    exact ih hr hstack hreach hchildren' (forall_dead_concat hbefore hdead) hsorted
  | @back stack visited c rest hc hopen =>
    obtain ⟨rfl, rfl⟩ := Finding.back.inj hr
    have hedge : Edge children a c := by simp [Edge, hchildren]
    have hlive : Live children c := by
      rcases hopen with hs | hl
      · exact OnCycle.live (TransGen.tail' (hreach c hs) hedge)
      · exact hleft c hl
    have hleads : Leads children a c := ⟨before, rest, hchildren, hbefore, hlive⟩
    exact ⟨[], rfl, by simpa using hleads, hopen, List.forall_mem_nil _, hsorted⟩
  | @descend stack visited c rest r visited₁ visited' hc hdown hrest ih ih' =>
    obtain ⟨hnone, hsorted₁⟩ := hdown.clear rfl (hsorted.cons c)
    have hdead := not_live_of_children hnone
    have hchildren' : children a = (before ++ [c]) ++ rest := by simp [hchildren]
    obtain ⟨l, hst, hchain, hw, hl, hsorted'⟩ :=
      ih' hr hstack hreach hchildren' (forall_dead_concat hbefore hdead) (hsorted₁.pop hdead)
    refine ⟨l, hst, hchain, hw, ?_, hsorted'⟩
    intro x hx
    exact ⟨fun hv => (hl x hx).1 (hdown.grows x (List.mem_cons_of_mem _ hv)), (hl x hx).2⟩
  | @stop stack visited c rest st' w' visited' hc hdown ih =>
    cases hr
    have hedge : Edge children a c := by simp [Edge, hchildren]
    have hreach' : ∀ x ∈ c :: stack, ReflTransGen (Edge children) x c := by
      intro x hx
      rcases List.mem_cons.mp hx with rfl | hx
      · exact .refl
      · exact (hreach x hx).tail hedge
    have hchildren' : children c = [] ++ children c := rfl
    obtain ⟨l, hst, hchain, hw, hl, hsorted'⟩ :=
      ih rfl rfl hreach' hchildren' (List.forall_mem_nil _) (hsorted.cons c)
    have hleads : Leads children a c := ⟨before, rest, hchildren, hbefore, live_of_chain hchain⟩
    refine ⟨l ++ [c], by simp [hst], ?_, hw, ?_, hsorted'⟩
    · rw [← List.cons_append, List.isChain_append]
      refine ⟨hchain, List.isChain_singleton a, ?_⟩
      intro x hx y hy
      rw [List.getLast?_concat] at hx
      have hxc : x = c := (Option.some.inj hx).symm
      have hya : y = a := by simpa using hy.symm
      rw [hxc, hya]
      exact hleads
    · intro x hx
      rcases List.mem_append.mp hx with hx | hx
      · exact ⟨fun hv => (hl x hx).1 (List.mem_cons_of_mem _ hv), (hl x hx).2⟩
      · obtain rfl := List.mem_singleton.mp hx
        exact ⟨hc, hdown.grows x List.mem_cons_self⟩

/-- A node from which nothing is found is dead. -/
theorem Explores.root_clear {visited visited' : List α} {r : α}
    (h : Explores children left [r] (r :: visited) (children r) .clear visited')
    (hsorted : Sorted children left [] visited) : ¬Live children r ∧ Sorted children left [] visited' := by
  obtain ⟨hchildren, hsorted'⟩ := h.clear rfl (hsorted.cons r)
  have hdead := not_live_of_children hchildren
  exact ⟨hdead, hsorted'.pop hdead⟩

/-- An edge back is found from a live node, at the end of its trail. -/
theorem Explores.root_back {visited visited' st : List α} {r w : α}
    (h : Explores children left [r] (r :: visited) (children r) (.back st w) visited')
    (hleft : ∀ x ∈ left, Live children x) (hopen : ∀ x ∈ left, x ∈ visited) (hr : r ∉ visited)
    (hsorted : Sorted children left [] visited) :
    Live children r ∧ List.IsChain (fun x y => Leads children y x) (w :: st) ∧ st.getLast? = some r ∧
      (w ∈ st ∨ w ∈ left) ∧ (∀ x ∈ st, x ∈ visited' ∧ x ∉ left) ∧ Sorted children left st visited' := by
  have hreach : ∀ x ∈ [r], ReflTransGen (Edge children) x r := by
    intro x hx
    rw [List.mem_singleton.mp hx]
  have hchildren : children r = [] ++ children r := rfl
  obtain ⟨l, hst, hchain, hw, hl, hsorted'⟩ :=
    h.back_trail rfl rfl hleft hreach hchildren (List.forall_mem_nil _) (hsorted.cons r)
  refine ⟨live_of_chain hchain, hst ▸ hchain, by simp [hst], hw, ?_, hsorted'⟩
  intro x hx
  rcases List.mem_append.mp (hst ▸ hx) with hx | hx
  · exact ⟨(hl x hx).2, fun hxl => (hl x hx).1 (List.mem_cons_of_mem _ (hopen x hxl))⟩
  · obtain rfl := List.mem_singleton.mp hx
    exact ⟨h.grows x List.mem_cons_self, fun hxl => hr (hopen x hxl)⟩

end Searched

section Search

variable {α : Type} [DecidableEq α] (children : α → List α) (left : List α)

/-- The loop over the children of the innermost open node. `left` are nodes that
an earlier search has left open. -/
def scan (down : List α → α → Option (Finding α × List α)) (stack : List α) :
    List α → List α → Option (Finding α × List α)
  | visited, [] => some (.clear, visited)
  | visited, child :: rest =>
    if child ∉ visited then
      match down visited child with
      | some (.clear, visited') => scan down stack visited' rest
      | outcome => outcome
    else if child ∈ stack ∨ child ∈ left then some (.back stack child, visited)
    else scan down stack visited rest

/-- The search from a node, to a depth of at most `fuel` nodes. -/
def explore : Nat → List α → List α → α → Option (Finding α × List α)
  | 0, _, _, _ => none
  | fuel + 1, stack, visited, v =>
    scan left (explore fuel (v :: stack)) (v :: stack) (v :: visited) (children v)

variable {children left}

theorem scan_explores {down : List α → α → Option (Finding α × List α)} {stack : List α}
    (hdown : ∀ visited c r visited', down visited c = some (r, visited') →
      Explores children left (c :: stack) (c :: visited) (children c) r visited')
    {pending visited visited' : List α} {r : Finding α}
    (h : scan left down stack visited pending = some (r, visited')) :
    Explores children left stack visited pending r visited' := by
  induction pending generalizing visited with
  | nil =>
    cases h
    exact .done
  | cons c rest ih =>
    rw [scan] at h
    by_cases hc : c ∈ visited
    · rw [if_neg (not_not.mpr hc)] at h
      by_cases hs : c ∈ stack ∨ c ∈ left
      · rw [if_pos hs] at h
        cases h
        exact .back hc hs
      · rw [if_neg hs] at h
        obtain ⟨hstack, hleft⟩ := not_or.mp hs
        exact .skip hc hstack hleft (ih h)
    · rw [if_pos hc] at h
      cases hd : down visited c with
      | none => simp [hd] at h
      | some outcome =>
        obtain ⟨found, visited₁⟩ := outcome
        have hsearch := hdown visited c found visited₁ hd
        cases found with
        | clear =>
          simp only [hd] at h
          exact .descend hc hsearch (ih h)
        | back st w =>
          simp only [hd, Option.some.injEq, Prod.mk.injEq] at h
          obtain ⟨rfl, rfl⟩ := h
          exact .stop hc hsearch

theorem explore_explores {fuel : Nat} {stack visited visited' : List α} {v : α} {r : Finding α}
    (h : explore children left fuel stack visited v = some (r, visited')) :
    Explores children left (v :: stack) (v :: visited) (children v) r visited' := by
  induction fuel generalizing stack visited visited' v r with
  | zero => cases h
  | succ fuel ih => exact scan_explores (fun _ _ _ _ => ih) h

variable (nodes : List α)

/-- How many nodes are still to be visited. -/
def unseen (visited : List α) : Nat := nodes.countP fun x => x ∉ visited

theorem unseen_le {visited visited' : List α} (h : ∀ x ∈ visited, x ∈ visited') :
    unseen nodes visited' ≤ unseen nodes visited := by
  apply List.countP_mono_left
  intro x _ hx
  rw [decide_eq_true_eq] at hx ⊢
  exact fun hm => hx (h x hm)

theorem unseen_cons_lt {visited : List α} {v : α} (hv : v ∈ nodes) (hnew : v ∉ visited) :
    unseen nodes (v :: visited) < unseen nodes visited := by
  induction nodes with
  | nil => cases hv
  | cons x rest ih =>
    have hle : unseen rest (v :: visited) ≤ unseen rest visited :=
      unseen_le rest fun y hy => List.mem_cons_of_mem v hy
    simp only [unseen, List.countP_cons, decide_eq_true_eq] at ih hle ⊢
    by_cases hx : x = v
    · have hseen : x ∈ v :: visited := hx ▸ List.mem_cons_self
      rw [if_neg (not_not.mpr hseen), if_pos (hx ▸ hnew)]
      omega
    · have hrest := ih ((List.mem_cons.mp hv).resolve_left (Ne.symm hx))
      have hsame : x ∉ v :: visited ↔ x ∉ visited := by simp [hx]
      simp only [hsame]
      omega

variable {nodes}

theorem scan_total {down : List α → α → Option (Finding α × List α)} {stack : List α} {fuel : Nat}
    (hdown : ∀ visited c, c ∈ nodes → c ∉ visited → unseen nodes visited ≤ fuel →
      ∃ r visited', down visited c = some (r, visited') ∧ ∀ x ∈ visited, x ∈ visited')
    {pending visited : List α} (hpending : ∀ c ∈ pending, c ∈ nodes) (hfuel : unseen nodes visited ≤ fuel) :
    (scan left down stack visited pending).isSome := by
  induction pending generalizing visited with
  | nil => rfl
  | cons c rest ih =>
    obtain ⟨hc, hrest⟩ := List.forall_mem_cons.mp hpending
    rw [scan]
    by_cases hv : c ∈ visited
    · rw [if_neg (not_not.mpr hv)]
      by_cases hs : c ∈ stack ∨ c ∈ left
      · simp [hs]
      · rw [if_neg hs]
        exact ih hrest hfuel
    · rw [if_pos hv]
      obtain ⟨r, visited', hd, hgrows⟩ := hdown visited c hc hv hfuel
      rw [hd]
      cases r with
      | clear => exact ih hrest ((unseen_le nodes hgrows).trans hfuel)
      | back => rfl

/-- As much fuel as there are unvisited nodes is enough. -/
theorem explore_total (hnodes : ∀ a b, Edge children a b → b ∈ nodes) {fuel : Nat} {stack visited : List α} {v : α}
    (hv : v ∈ nodes) (hnew : v ∉ visited) (hfuel : unseen nodes visited ≤ fuel) :
    (explore children left fuel stack visited v).isSome := by
  induction fuel generalizing stack visited v with
  | zero =>
    have hlt := unseen_cons_lt nodes hv hnew
    omega
  | succ fuel ih =>
    have hlt := unseen_cons_lt nodes hv hnew
    have hfuel' : unseen nodes (v :: visited) ≤ fuel := by omega
    refine scan_total ?_ (fun c hc => hnodes v c hc) hfuel'
    intro visited' c hc hnew' hle
    obtain ⟨⟨r, visited''⟩, hr⟩ := Option.isSome_iff_exists.mp (@ih (v :: stack) visited' c hc hnew' hle)
    exact ⟨r, visited'', hr, fun x hx => (explore_explores hr).grows x (List.mem_cons_of_mem _ hx)⟩

/-- The children that a list of edges gives each node. -/
def successors (edges : List (α × α)) (u : α) : List α := (edges.filter fun e => e.1 = u).map Prod.snd

@[simp] theorem edge_successors {edges : List (α × α)} {u v : α} : Edge (successors edges) u v ↔ (u, v) ∈ edges := by
  simp [Edge, successors]

end Search

end DepthFirst
