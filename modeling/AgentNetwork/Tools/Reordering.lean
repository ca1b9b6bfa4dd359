import AgentNetwork.Tools.Simulator
import AgentNetwork.Library.Ties
import Mathlib.Data.String.Basic

/-! `inject_message_reorder`: the envelopes of one Lamport clock shuffled, and
what a replay makes of their new order. -/

namespace AgentNetwork.Tools

open Policy Python StableSort Ties

/-- What the random source answers for a group: the number that is compared with
the probability, and the shuffle. -/
structure Draw where
  chance : ℚ
  shuffle : ∀ n, Equiv.Perm (Fin n)

/-- An envelope with its index in the list that is reordered. The code leaves the
indices of a group in their order and drops them in the end; here each stays with
its envelope. -/
abbrev Indexed := Dict × Nat

def clockOf (entry : Indexed) : Json := lamportOf entry.1

section Source

variable {α : Type} (key : α → Json)

def insertBy (a : α) : List α → Except Exn (List α)
  | [] => .ok [a]
  | next :: rest => do
    if ← Comparison.less.compare (key next) (key a) then
      let sorted ← insertBy a rest
      .ok (next :: sorted)
    else .ok (a :: next :: rest)

/-- `sorted` by a key: equal keys stay in order, and comparing two may raise. -/
def sortBy : List α → Except Exn (List α)
  | [] => .ok []
  | a :: rest => do
    let sorted ← sortBy rest
    insertBy key a sorted

def addToGroup (lamport : Json) (entry : Indexed) : List (Json × List Indexed) → List (Json × List Indexed)
  | [] => [(lamport, [entry])]
  | group :: rest =>
    if sameKey group.1 lamport then (group.1, group.2 ++ [entry]) :: rest else group :: addToGroup lamport entry rest

/-- The dictionary of the groups of equal clocks. -/
def groupByLamport : List Indexed → List (Json × List Indexed) → Except Exn (List (Json × List Indexed))
  | [], groups => .ok groups
  | entry :: rest, groups =>
    if (clockOf entry).hashable then groupByLamport rest (addToGroup (clockOf entry) entry groups)
    else .error (unhashableKey (clockOf entry))

def shuffleGroup (probability : ℚ) (draw : Draw) (group : List α) : List α :=
  if 1 < group.length ∧ draw.chance < probability then permute draw.shuffle group else group

/-- `inject_message_reorder` with the indices; the groups come in the order of their keys. -/
def reorderIndexed (probability : ℚ) (draws : Number ⊕ Json → Draw) (envelopes : List Dict) :
    Except Exn (List Indexed) := do
  let groups ← groupByLamport envelopes.zipIdx []
  let shuffled := groups.map fun group => (group.1, shuffleGroup probability (draws (keyOf group.1)) group.2)
  let sorted ← sortBy Prod.fst shuffled
  .ok (sorted.flatMap Prod.snd)

/-- `inject_message_reorder`, with the random choices for each clock. The maximal
distance is only logged. -/
def injectMessageReorder (probability : ℚ) (_maxDistance : Nat) (draws : Number ⊕ Json → Draw) (envelopes : List Dict) :
    Except Exn (List Dict) := do
  let reordered ← reorderIndexed probability draws envelopes
  .ok (reordered.map Prod.fst)

end Source

/-- `a <= b` of two keys; not where the comparison raises. -/
def notAfter (a b : Json) : Bool :=
  match Number.ofJson? a, Number.ofJson? b with
  | some m, some n => m.le n
  | _, _ =>
    match a, b with
    | .str s, .str t => decide (s ≤ t)
    | _, _ => false

def SameEnvelope (a b : Dict) : Prop := a = b ∨ same (.obj a) (.obj b) = true

/-- Two replays end in equal states and report the same events. -/
structure SameOutcome (r r' : SimulationResult) : Prop where
  needs : ∀ key, Option.Rel SameEnvelope (entryOf key r.finalState.needs) (entryOf key r'.finalState.needs)
  decisions : ∀ key, Option.Rel SameEnvelope (entryOf key r.finalState.decisions) (entryOf key r'.finalState.decisions)
  finalizations : ∀ key,
    Option.Rel SameEnvelope (entryOf key r.finalState.finalizations) (entryOf key r'.finalState.finalizations)
  lamport : sameKey r.finalState.lamport r'.finalState.lamport = true
  decideEvents : (∀ a ∈ r.decideEvents, ∃ b ∈ r'.decideEvents, SameEnvelope a b) ∧
    ∀ b ∈ r'.decideEvents, ∃ a ∈ r.decideEvents, SameEnvelope a b
  finalizeEvents : (∀ a ∈ r.finalizeEvents, ∃ b ∈ r'.finalizeEvents, SameEnvelope a b) ∧
    ∀ b ∈ r'.finalizeEvents, ∃ a ∈ r.finalizeEvents, SameEnvelope a b

/-- Replay is insensitive to the reordering. -/
def Insensitive (p : Primitives) (probability : ℚ) (maxDistance : Nat) (draws : Number ⊕ Json → Draw)
    (envelopes : List Dict) : Prop :=
  ∃ reordered sorted,
    injectMessageReorder probability maxDistance draws envelopes = .ok (reordered.map Prod.fst) ∧
    reorderIndexed probability draws envelopes = .ok reordered ∧
    sortBy clockOf envelopes.zipIdx = .ok sorted ∧
    reordered.Perm envelopes.zipIdx ∧
    (reordered.Pairwise fun a b => notAfter (clockOf a) (clockOf b) = true) ∧
    (∀ entry ∈ reordered, Within maxDistance reordered sorted entry) ∧
    ∃ r r', replayEnvelopes p envelopes = .ok r ∧ replayEnvelopes p (reordered.map Prod.fst) = .ok r' ∧ SameOutcome r r'

/-- The envelopes with the clock of one of them. -/
def tied (envelopes : List Dict) (envelope : Dict) : List Dict :=
  envelopes.filter fun e => sameKey (lamportOf envelope) (lamportOf e)

def shuffledTies (probability : ℚ) (draws : Number ⊕ Json → Draw) (envelopes : List Dict) (envelope : Dict) : List Dict :=
  shuffleGroup probability (draws (keyOf (lamportOf envelope))) (tied envelopes envelope)

/-- A shuffle that takes place moves nothing by more than the distance. -/
def Near (probability : ℚ) (maxDistance : Nat) (draw : Draw) (n : Nat) : Prop :=
  1 < n → draw.chance < probability → ∀ i : Fin n, i.val ≤ (draw.shuffle n i).val + maxDistance ∧
    (draw.shuffle n i).val ≤ i.val + maxDistance

/-- The clocks can be keys and compared, no shuffle goes too far, and among the
latest envelopes that are accepted for a need as NEED or FINALIZE the last one stays,
among the earliest accepted as DECIDE the first. -/
structure Harmless (p : Primitives) (probability : ℚ) (maxDistance : Nat) (draws : Number ⊕ Json → Draw)
    (envelopes : List Dict) : Prop where
  hashable : ∀ e ∈ envelopes, (lamportOf e).hashable = true
  comparable : envelopes.Pairwise fun a b =>
    notAfter (lamportOf a) (lamportOf b) = true ∨ notAfter (lamportOf b) (lamportOf a) = true
  near : ∀ e ∈ envelopes, Near probability maxDistance (draws (keyOf (lamportOf e))) (tied envelopes e).length
  last : ∀ kind ∈ ["NEED", "FINALIZE"], ∀ key, ∀ e ∈ envelopes, takes p kind key e = true →
    (∀ x ∈ envelopes, takes p kind key x = true → notAfter (lamportOf x) (lamportOf e) = true) →
    Option.Rel SameEnvelope ((tied envelopes e).filter (takes p kind key)).getLast?
      ((shuffledTies probability draws envelopes e).filter (takes p kind key)).getLast?
  first : ∀ key, ∀ e ∈ envelopes, takes p "DECIDE" key e = true →
    (∀ x ∈ envelopes, takes p "DECIDE" key x = true → notAfter (lamportOf e) (lamportOf x) = true) →
    Option.Rel SameEnvelope ((tied envelopes e).filter (takes p "DECIDE" key)).head?
      ((shuffledTies probability draws envelopes e).filter (takes p "DECIDE" key)).head?

section Sorting

variable {α β γ : Type} [LinearOrder β] {key : α → Json} {rank : α → β}

theorem insertBy_map (f : γ → α) (a : γ) (l : List γ) :
    insertBy key (f a) (l.map f) = (insertBy (fun x => key (f x)) a l).map (List.map f) := by
  induction l with
  | nil => rfl
  | cons next rest ih =>
    rw [List.map_cons, insertBy, insertBy]
    cases Comparison.less.compare (key (f next)) (key (f a)) with
    | error e => rfl
    | ok less =>
      cases less with
      | false => rfl
      | true =>
        change (insertBy key (f a) (rest.map f)).bind _ = _
        rw [ih]
        cases insertBy (fun x => key (f x)) a rest <;> simp [bind, Except.bind, Except.map]

theorem sortBy_map (f : γ → α) (l : List γ) :
    sortBy key (l.map f) = (sortBy (fun x => key (f x)) l).map (List.map f) := by
  induction l with
  | nil => rfl
  | cons a rest ih =>
    rw [List.map_cons, sortBy, sortBy, ih]
    cases sortBy (fun x => key (f x)) rest with
    | error e => rfl
    | ok sorted => exact insertBy_map f a sorted

theorem sortBy_lamport (l : List Dict) : sortBy lamportOf l = sortByLamport l := by
  have hinsert : ∀ e l, insertBy lamportOf e l = insertByLamport e l := by
    intro e l
    induction l with
    | nil => rfl
    | cons next rest ih => rw [insertBy, insertByLamport, ih]
  induction l with
  | nil => rfl
  | cons e rest ih =>
    rw [sortBy, sortByLamport, ih]
    simp only [hinsert]

theorem insertBy_ok {a : α} {l : List α}
    (h : ∀ b ∈ l, Comparison.less.compare (key b) (key a) = .ok (decide (rank b < rank a))) :
    insertBy key a l = .ok (insertOn rank a l) := by
  induction l with
  | nil => rfl
  | cons b rest ih =>
    obtain ⟨hb, hrest⟩ := List.forall_mem_cons.mp h
    rw [insertBy, hb, ih hrest, insertOn_cons]
    by_cases hle : rank a ≤ rank b
    · simp [hle, not_lt.mpr hle, bind, Except.bind]
    · simp [hle, not_le.mp hle, bind, Except.bind]

/-- Where the comparisons agree with a rank, `sorted` is the stable sort by it. -/
theorem sortBy_ok {l : List α}
    (h : l.Pairwise fun a b => Comparison.less.compare (key b) (key a) = .ok (decide (rank b < rank a))) :
    sortBy key l = .ok (sortOn rank l) := by
  induction l with
  | nil => rfl
  | cons a rest ih =>
    obtain ⟨ha, hrest⟩ := List.pairwise_cons.mp h
    rw [sortBy, ih hrest, sortOn_cons]
    exact insertBy_ok fun b hb => ha b ((mem_sortOn rank).mp hb)

end Sorting

/-- A rank says how two clocks compare, and whether they are one key. -/
structure Agrees {β : Type} [LinearOrder β] (rank : Json → β) (a b : Json) : Prop where
  less : Comparison.less.compare a b = .ok (decide (rank a < rank b))
  sameKey : sameKey a b = decide (rank a = rank b)
  notAfter : notAfter a b = decide (rank a ≤ rank b)

/-- The clocks can be keys, and a rank says how those of two envelopes compare. -/
structure Ranked {β : Type} [LinearOrder β] (rank : Json → β) (l : List Indexed) : Prop where
  nodup : l.Nodup
  hashable : ∀ a ∈ l, (clockOf a).hashable = true
  agrees : ∀ a ∈ l, ∀ b ∈ l, a ≠ b → Agrees rank (clockOf a) (clockOf b)

/-- The groups of equal clocks. -/
structure Grouped {β : Type} [LinearOrder β] (rank : Json → β) (l : List Indexed)
    (groups : List (Json × List Indexed)) : Prop where
  keys : ∀ g ∈ groups, ∃ a ∈ l, g.1 = clockOf a
  members : ∀ g ∈ groups, g.2 = l.filter fun a => rank (clockOf a) = rank g.1
  all : ∀ a ∈ l, ∃ g ∈ groups, rank g.1 = rank (clockOf a)
  distinct : groups.Pairwise fun g g' => rank g.1 ≠ rank g'.1

section Grouping

variable {β : Type} [LinearOrder β] {rank : Json → β} {l : List Indexed} {groups : List (Json × List Indexed)}

theorem Ranked.same_iff (h : Ranked rank l) {a b : Indexed} (ha : a ∈ l) (hb : b ∈ l) :
    sameKey (clockOf a) (clockOf b) = true ↔ rank (clockOf a) = rank (clockOf b) := by
  by_cases hab : a = b
  · rw [hab, sameKey_iff (h.hashable b hb)]
    exact iff_of_true rfl rfl
  · rw [(h.agrees a ha b hb hab).sameKey, decide_eq_true_eq]

theorem Ranked.pairwise (h : Ranked rank l) : l.Pairwise fun a b => Agrees rank (clockOf a) (clockOf b) ∧
    Agrees rank (clockOf b) (clockOf a) := by
  refine h.nodup.imp_of_mem ?_
  intro a b ha hb hab
  exact ⟨h.agrees a ha b hb hab, h.agrees b hb a ha (Ne.symm hab)⟩

/-- An entry goes to the group with its key, or founds one. -/
theorem addToGroup_cases {lamport : Json} (entry : Indexed)
    (hsame : ∀ g ∈ groups, sameKey g.1 lamport = true ↔ rank g.1 = rank lamport) :
    (∃ before g after, groups = before ++ g :: after ∧ rank g.1 = rank lamport ∧
      addToGroup lamport entry groups = before ++ (g.1, g.2 ++ [entry]) :: after) ∨
    (∀ g ∈ groups, rank g.1 ≠ rank lamport) ∧ addToGroup lamport entry groups = groups ++ [(lamport, [entry])] := by
  induction groups with
  | nil => exact Or.inr ⟨nofun, rfl⟩
  | cons g rest ih =>
    obtain ⟨hg, hrest⟩ := List.forall_mem_cons.mp hsame
    rw [addToGroup]
    by_cases hkey : rank g.1 = rank lamport
    · rw [if_pos (hg.mpr hkey)]
      exact Or.inl ⟨[], g, rest, rfl, hkey, rfl⟩
    · rw [if_neg fun h => hkey (hg.mp h)]
      rcases ih hrest with ⟨before, g', after, hsplit, hkey', hadd⟩ | ⟨hnone, hadd⟩
      · exact Or.inl ⟨g :: before, g', after, by rw [hsplit, List.cons_append], hkey', by rw [hadd, List.cons_append]⟩
      · exact Or.inr ⟨List.forall_mem_cons.mpr ⟨hkey, hnone⟩, by rw [hadd, List.cons_append]⟩

theorem Grouped.add (h : Grouped rank l groups) {entry : Indexed}
    (hsame : ∀ g ∈ groups, sameKey g.1 (clockOf entry) = true ↔ rank g.1 = rank (clockOf entry)) :
    Grouped rank (l ++ [entry]) (addToGroup (clockOf entry) entry groups) := by
  have hother : ∀ g ∈ groups, rank g.1 ≠ rank (clockOf entry) →
      g.2 = (l ++ [entry]).filter fun a => rank (clockOf a) = rank g.1 := by
    intro g hg hne
    rw [filter_concat, if_neg (by simpa using Ne.symm hne), List.append_nil]
    exact h.members g hg
  have hkeys : ∀ g ∈ groups, ∃ a ∈ l ++ [entry], g.1 = clockOf a := by
    intro g hg
    obtain ⟨a, ha, hkey⟩ := h.keys g hg
    exact ⟨a, List.mem_append_left _ ha, hkey⟩
  rcases addToGroup_cases entry hsame with ⟨before, g, after, rfl, hkey, hadd⟩ | ⟨hnone, hadd⟩
  · rw [hadd]
    have hdistinct := h.distinct
    rw [List.pairwise_append, List.pairwise_cons] at hdistinct
    obtain ⟨hbefore, ⟨hgafter, hafter⟩, hcross⟩ := hdistinct
    have hin : ∀ g' ∈ before ++ (g.1, g.2 ++ [entry]) :: after, g' = (g.1, g.2 ++ [entry]) ∨
        g' ∈ before ++ g :: after ∧ rank g'.1 ≠ rank (clockOf entry) := by
      intro g' hg'
      rw [← hkey]
      rcases List.mem_append.mp hg' with hg' | hg'
      · exact Or.inr ⟨List.mem_append_left _ hg', hcross g' hg' g List.mem_cons_self⟩
      · rcases List.mem_cons.mp hg' with rfl | hg'
        · exact Or.inl rfl
        · exact Or.inr ⟨List.mem_append_right _ (List.mem_cons_of_mem _ hg'), (hgafter g' hg').symm⟩
    have hg : g ∈ before ++ g :: after := List.mem_append_right _ List.mem_cons_self
    refine ⟨?_, ?_, ?_, ?_⟩
    · intro g' hg'
      rcases hin g' hg' with rfl | ⟨hg', _⟩
      · exact hkeys g hg
      · exact hkeys g' hg'
    · intro g' hg'
      rcases hin g' hg' with rfl | ⟨hg', hne⟩
      · rw [filter_concat, if_pos (by simpa using hkey.symm), ← h.members g hg]
      · exact hother g' hg' hne
    · intro a ha
      rcases List.mem_append.mp ha with ha | ha
      · obtain ⟨g', hg', hkey'⟩ := h.all a ha
        rcases List.mem_append.mp hg' with hg' | hg'
        · exact ⟨g', List.mem_append_left _ hg', hkey'⟩
        · rcases List.mem_cons.mp hg' with rfl | hg'
          · exact ⟨_, List.mem_append_right _ List.mem_cons_self, hkey'⟩
          · exact ⟨g', List.mem_append_right _ (List.mem_cons_of_mem _ hg'), hkey'⟩
      · obtain rfl := List.mem_singleton.mp ha
        exact ⟨_, List.mem_append_right _ List.mem_cons_self, hkey⟩
    · rw [List.pairwise_append, List.pairwise_cons]
      refine ⟨hbefore, ⟨hgafter, hafter⟩, fun g' hg' g'' hg'' => ?_⟩
      rcases List.mem_cons.mp hg'' with rfl | hg''
      · exact hcross g' hg' g List.mem_cons_self
      · exact hcross g' hg' g'' (List.mem_cons_of_mem _ hg'')
  · rw [hadd]
    refine ⟨?_, ?_, ?_, ?_⟩
    · intro g hg
      rcases List.mem_append.mp hg with hg | hg
      · exact hkeys g hg
      · obtain rfl := List.mem_singleton.mp hg
        exact ⟨entry, List.mem_append_right _ (List.mem_singleton_self entry), rfl⟩
    · intro g hg
      rcases List.mem_append.mp hg with hg | hg
      · exact hother g hg (hnone g hg)
      · obtain rfl := List.mem_singleton.mp hg
        have hfirst : l.filter (fun a => rank (clockOf a) = rank (clockOf entry)) = [] := by
          rw [List.filter_eq_nil_iff]
          intro a ha hrank
          obtain ⟨g, hg, hkey⟩ := h.all a ha
          exact hnone g hg (hkey.trans (of_decide_eq_true hrank))
        rw [filter_concat, hfirst, if_pos (decide_eq_true rfl), List.nil_append]
    · intro a ha
      rcases List.mem_append.mp ha with ha | ha
      · obtain ⟨g, hg, hkey⟩ := h.all a ha
        exact ⟨g, List.mem_append_left _ hg, hkey⟩
      · obtain rfl := List.mem_singleton.mp ha
        exact ⟨_, List.mem_append_right _ (List.mem_singleton_self _), rfl⟩
    · refine List.pairwise_append.mpr ⟨h.distinct, List.pairwise_singleton _ _, fun g hg g' hg' => ?_⟩
      obtain rfl := List.mem_singleton.mp hg'
      exact hnone g hg

theorem groupByLamport_ok (h : Ranked rank l) {before rest : List Indexed} (hl : l = before ++ rest)
    (hgroups : Grouped rank before groups) :
    ∃ groups', groupByLamport rest groups = .ok groups' ∧ Grouped rank l groups' := by
  induction rest generalizing before groups with
  | nil => exact ⟨groups, rfl, by rwa [hl, List.append_nil]⟩
  | cons entry rest ih =>
    have hentry : entry ∈ l := by simp [hl]
    rw [groupByLamport, if_pos (h.hashable entry hentry)]
    refine ih (by simpa using hl) (hgroups.add ?_)
    intro g hg
    obtain ⟨a, ha, hkey⟩ := hgroups.keys g hg
    rw [hkey]
    exact h.same_iff (hl ▸ List.mem_append_left _ ha) hentry

/-- What can be grouped has clocks that can be keys. -/
theorem hashable_of_groupByLamport {groups' : List (Json × List Indexed)} (h : groupByLamport l groups = .ok groups') :
    ∀ a ∈ l, (clockOf a).hashable = true := by
  induction l generalizing groups with
  | nil => nofun
  | cons entry rest ih =>
    rw [groupByLamport] at h
    split at h
    next hentry => exact List.forall_mem_cons.mpr ⟨hentry, ih h⟩
    next => cases h

theorem Grouped.perm (h : Grouped rank l groups) {groups' : List (Json × List Indexed)} (hperm : groups'.Perm groups) :
    Grouped rank l groups' where
  keys := fun g hg => h.keys g (hperm.mem_iff.mp hg)
  members := fun g hg => h.members g (hperm.mem_iff.mp hg)
  all := by
    intro a ha
    obtain ⟨g, hg, hkey⟩ := h.all a ha
    exact ⟨g, hperm.mem_iff.mpr hg, hkey⟩
  distinct := (hperm.pairwise_iff fun h => h.symm).mpr h.distinct

end Grouping

section Shuffling

variable {α β : Type} {probability : ℚ} {draw : Draw}

theorem perm_shuffleGroup (group : List α) : (shuffleGroup probability draw group).Perm group := by
  unfold shuffleGroup
  split
  · exact perm_permute _ _
  · exact List.Perm.refl group

theorem map_shuffleGroup (f : α → β) (group : List α) :
    (shuffleGroup probability draw group).map f = shuffleGroup probability draw (group.map f) := by
  unfold shuffleGroup
  rw [List.length_map]
  split
  · exact map_permute f _ _
  · rfl

theorem within_shuffleGroup [DecidableEq α] {group : List α} (hnodup : group.Nodup) {d : Nat} :
    (∀ a ∈ group, Within d (shuffleGroup probability draw group) group a) ↔ Near probability d draw group.length := by
  unfold shuffleGroup Near
  split
  next htakes =>
    rw [within_permute hnodup]
    exact ⟨fun h _ _ => h, fun h => h htakes.1 htakes.2⟩
  next hnot =>
    refine iff_of_true (fun a _ => ?_) fun hlength hchance => absurd ⟨hlength, hchance⟩ hnot
    exact ⟨Nat.le_add_right _ _, Nat.le_add_right _ _⟩

end Shuffling

section Layers

variable {β : Type} [LinearOrder β] {rank : Json → β} {probability : ℚ} {draws : Number ⊕ Json → Draw}
  {envelopes : List Dict} {layers : List (Json × List Indexed)}

def reshuffle (probability : ℚ) (draws : Number ⊕ Json → Draw) (group : Json × List Indexed) : List Indexed :=
  shuffleGroup probability (draws (keyOf group.1)) group.2

/-- The reordered envelopes and the stable sort have the same groups one after the
other, shuffled in the one and as they were in the other. -/
theorem exists_layers (probability : ℚ) (draws : Number ⊕ Json → Draw) (h : Ranked rank envelopes.zipIdx) : ∃ layers, Grouped rank envelopes.zipIdx layers ∧
    (layers.Pairwise fun g g' => rank g.1 < rank g'.1) ∧
    reorderIndexed probability draws envelopes = .ok (layers.flatMap (reshuffle probability draws)) ∧
    sortBy clockOf envelopes.zipIdx = .ok (layers.flatMap Prod.snd) := by
  have hnil : Grouped rank [] [] := ⟨nofun, nofun, nofun, List.Pairwise.nil⟩
  obtain ⟨groups, hgroups, hgrouped⟩ := groupByLamport_ok h (List.nil_append _).symm hnil
  have hcompare : groups.Pairwise fun g g' =>
      Comparison.less.compare g'.1 g.1 = .ok (decide (rank g'.1 < rank g.1)) := by
    refine hgrouped.distinct.imp_of_mem ?_
    intro g g' hg hg' hne
    obtain ⟨a, ha, hkey⟩ := hgrouped.keys g hg
    obtain ⟨b, hb, hkey'⟩ := hgrouped.keys g' hg'
    rw [hkey, hkey'] at hne ⊢
    exact (h.agrees b hb a ha fun heq => hne (by rw [heq])).less
  let layers := sortOn (fun g => rank g.1) groups
  have hlayers : Grouped rank envelopes.zipIdx layers := hgrouped.perm (perm_sortOn _ groups)
  have hstrict : layers.Pairwise fun g g' => rank g.1 < rank g'.1 := by
    have hle := pairwise_sortOn (fun g : Json × List Indexed => rank g.1) groups
    exact (hle.and hlayers.distinct).imp fun h => lt_of_le_of_ne h.1 h.2
  have hsorted : sortBy Prod.fst groups = .ok layers := sortBy_ok hcompare
  refine ⟨layers, hlayers, hstrict, ?_, ?_⟩
  · unfold reorderIndexed
    rw [hgroups]
    change (sortBy Prod.fst (groups.map fun group => (group.1, reshuffle probability draws group))).bind _ = _
    rw [sortBy_map, hsorted]
    simp [Except.bind, Except.map, List.flatMap_map]
  · have hranked : sortBy clockOf envelopes.zipIdx = .ok (sortOn (fun a => rank (clockOf a)) envelopes.zipIdx) :=
      sortBy_ok (h.pairwise.imp fun h => h.2.less)
    rw [hranked, sortOn_eq_flatMap (fun a => rank (clockOf a)) hstrict hlayers.members hlayers.all]

variable (probability draws)

theorem Grouped.perm_reshuffle (hlayers : Grouped rank envelopes.zipIdx layers)
    (hstrict : layers.Pairwise fun g g' => rank g.1 < rank g'.1) :
    (layers.flatMap (reshuffle probability draws)).Perm envelopes.zipIdx ∧
      (layers.flatMap Prod.snd).Perm envelopes.zipIdx := by
  have hsorted : (layers.flatMap Prod.snd).Perm envelopes.zipIdx := by
    rw [← sortOn_eq_flatMap (fun a => rank (clockOf a)) hstrict hlayers.members hlayers.all]
    exact perm_sortOn _ _
  exact ⟨(List.Perm.flatMap_left _ fun g _ => perm_shuffleGroup g.2).trans hsorted, hsorted⟩

theorem Grouped.sorted_reshuffle (hlayers : Grouped rank envelopes.zipIdx layers)
    (hstrict : layers.Pairwise fun g g' => rank g.1 < rank g'.1) :
    (layers.flatMap (reshuffle probability draws)).Pairwise fun a b => rank (clockOf a) ≤ rank (clockOf b) := by
  have hin : ∀ g ∈ layers, ∀ a ∈ reshuffle probability draws g, rank (clockOf a) = rank g.1 := by
    intro g hg a ha
    have ha' : a ∈ g.2 := (perm_shuffleGroup g.2).mem_iff.mp ha
    rw [hlayers.members g hg] at ha'
    exact of_decide_eq_true (List.mem_filter.mp ha').2
  rw [List.pairwise_flatMap]
  constructor
  · intro g hg
    refine List.pairwise_of_forall_mem_list fun a ha b hb => ?_
    rw [hin g hg a ha, hin g hg b hb]
  · refine hstrict.imp_of_mem ?_
    intro g g' hg hg' hlt a ha b hb
    rw [hin g hg a ha, hin g' hg' b hb]
    exact hlt.le

/-- The group of an envelope has the envelopes tied with it. -/
theorem Grouped.tied_eq (hlayers : Grouped rank envelopes.zipIdx layers) (h : Ranked rank envelopes.zipIdx)
    {g : Json × List Indexed} (hg : g ∈ layers) {a : Indexed} (ha : a ∈ envelopes.zipIdx)
    (hkey : rank g.1 = rank (clockOf a)) :
    tied envelopes a.1 = g.2.map Prod.fst ∧
      shuffledTies probability draws envelopes a.1 = (reshuffle probability draws g).map Prod.fst ∧
      keyOf g.1 = keyOf (lamportOf a.1) := by
  have htied : tied envelopes a.1 = g.2.map Prod.fst := by
    have hfst : envelopes = envelopes.zipIdx.map Prod.fst := (List.zipIdx_map_fst 0 envelopes).symm
    unfold tied
    conv_lhs => rw [hfst, List.filter_map]
    rw [hlayers.members g hg]
    congr 1
    apply List.filter_congr
    intro b hb
    rw [Bool.eq_iff_iff, decide_eq_true_eq, hkey]
    exact (h.same_iff ha hb).trans eq_comm
  have hsame : keyOf g.1 = keyOf (lamportOf a.1) := by
    obtain ⟨b, hb, hgb⟩ := hlayers.keys g hg
    rw [hgb] at hkey ⊢
    exact (sameKey_iff (h.hashable b hb)).mp ((h.same_iff hb ha).mpr hkey)
  refine ⟨htied, ?_, hsame⟩
  rw [shuffledTies, htied, reshuffle, map_shuffleGroup, hsame]

theorem mem_zipIdx_fst {e : Dict} (he : e ∈ envelopes) : ∃ a ∈ envelopes.zipIdx, a.1 = e := by
  have hfst := List.zipIdx_map_fst 0 envelopes
  rw [← hfst] at he
  exact List.mem_map.mp he

theorem fst_mem {a : Indexed} (ha : a ∈ envelopes.zipIdx) : a.1 ∈ envelopes := by
  have hmem := List.mem_map_of_mem (f := Prod.fst) ha
  rwa [List.zipIdx_map_fst] at hmem

/-- What is said of the groups is said of the envelopes they consist of. -/
theorem Grouped.forall_iff (hlayers : Grouped rank envelopes.zipIdx layers) (h : Ranked rank envelopes.zipIdx)
    {test : Dict → Bool} (order : β → β → Prop) (compare : Json → Json → Prop) (P : List Dict → List Dict → Prop)
    (horder : ∀ a ∈ envelopes.zipIdx, ∀ b ∈ envelopes.zipIdx, test a.1 = true → test b.1 = true →
      (compare (clockOf a) (clockOf b) ↔ order (rank (clockOf a)) (rank (clockOf b)))) :
    (∀ g ∈ layers, (g.2.map Prod.fst).filter test ≠ [] →
      (∀ g' ∈ layers, (g'.2.map Prod.fst).filter test ≠ [] → order (rank g.1) (rank g'.1)) →
      P ((g.2.map Prod.fst).filter test) (((reshuffle probability draws g).map Prod.fst).filter test)) ↔
    ∀ e ∈ envelopes, test e = true → (∀ x ∈ envelopes, test x = true → compare (lamportOf e) (lamportOf x)) →
      P ((tied envelopes e).filter test) ((shuffledTies probability draws envelopes e).filter test) := by
  have hmember : ∀ g ∈ layers, (g.2.map Prod.fst).filter test ≠ [] →
      ∃ a ∈ envelopes.zipIdx, rank g.1 = rank (clockOf a) ∧ test a.1 = true := by
    intro g hg hne
    obtain ⟨e, he⟩ := List.exists_mem_of_ne_nil _ hne
    obtain ⟨he, htest⟩ := List.mem_filter.mp he
    obtain ⟨a, ha, rfl⟩ := List.mem_map.mp he
    rw [hlayers.members g hg] at ha
    obtain ⟨ha, hrank⟩ := List.mem_filter.mp ha
    exact ⟨a, ha, (of_decide_eq_true hrank).symm, htest⟩
  have hgroup : ∀ a ∈ envelopes.zipIdx, test a.1 = true →
      ∃ g ∈ layers, rank g.1 = rank (clockOf a) ∧ (g.2.map Prod.fst).filter test ≠ [] := by
    intro a ha htest
    obtain ⟨g, hg, hkey⟩ := hlayers.all a ha
    refine ⟨g, hg, hkey, List.ne_nil_of_mem (List.mem_filter.mpr ⟨List.mem_map_of_mem (f := Prod.fst) ?_, htest⟩)⟩
    rw [hlayers.members g hg]
    exact List.mem_filter.mpr ⟨ha, decide_eq_true hkey.symm⟩
  constructor
  · intro hP e he htest hall
    obtain ⟨a, ha, rfl⟩ := mem_zipIdx_fst he
    obtain ⟨g, hg, hkey, hne⟩ := hgroup a ha htest
    obtain ⟨htied, hshuffled, _⟩ := hlayers.tied_eq probability draws h hg ha hkey
    rw [htied, hshuffled]
    refine hP g hg hne fun g' hg' hne' => ?_
    obtain ⟨b, hb, hkey', htest'⟩ := hmember g' hg' hne'
    rw [hkey, hkey']
    exact (horder a ha b hb htest htest').mp (hall b.1 (fst_mem hb) htest')
  · intro hP g hg hne hall
    obtain ⟨a, ha, hkey, htest⟩ := hmember g hg hne
    obtain ⟨htied, hshuffled, _⟩ := hlayers.tied_eq probability draws h hg ha hkey
    rw [← htied, ← hshuffled]
    refine hP a.1 (fst_mem ha) htest fun x hx htest' => ?_
    obtain ⟨b, hb, rfl⟩ := mem_zipIdx_fst hx
    obtain ⟨g', hg', hkey', hne'⟩ := hgroup b hb htest'
    have horder' := hall g' hg' hne'
    rw [hkey, hkey'] at horder'
    exact (horder a ha b hb htest htest').mpr horder'

end Layers

section Replays

variable {p : Primitives} {l l' : List Dict} {r r' : SimulationResult}

theorem decided_rel (hperm : l.Perm l')
    (h : ∀ key, Option.Rel SameEnvelope (l.filter (takes p "DECIDE" key)).head? (l'.filter (takes p "DECIDE" key)).head?) :
    (∀ a, Decided p l a → ∃ b, Decided p l' b ∧ SameEnvelope a b) ∧
      ∀ b, Decided p l' b → ∃ a, Decided p l a ∧ SameEnvelope a b := by
  constructor
  · rintro a (⟨ha, hrest⟩ | ⟨key, hfirst⟩)
    · exact ⟨a, Or.inl ⟨hperm.mem_iff.mp ha, hrest⟩, Or.inl rfl⟩
    · have hkey := h key
      rw [hfirst] at hkey
      cases hfirst' : (l'.filter (takes p "DECIDE" key)).head? with
      | none =>
        rw [hfirst'] at hkey
        cases hkey
      | some b =>
        rw [hfirst'] at hkey
        cases hkey with
        | some hsame => exact ⟨b, Or.inr ⟨key, hfirst'⟩, hsame⟩
  · rintro b (⟨hb, hrest⟩ | ⟨key, hfirst⟩)
    · exact ⟨b, Or.inl ⟨hperm.mem_iff.mpr hb, hrest⟩, Or.inl rfl⟩
    · have hkey := h key
      rw [hfirst] at hkey
      cases hfirst' : (l.filter (takes p "DECIDE" key)).head? with
      | none =>
        rw [hfirst'] at hkey
        cases hkey
      | some a =>
        rw [hfirst'] at hkey
        cases hkey with
        | some hsame => exact ⟨a, Or.inr ⟨key, hfirst'⟩, hsame⟩

/-- Two orders of the same envelopes have one outcome exactly if they keep the same
envelopes for each need. -/
theorem sameOutcome_iff (h : Follows p l r) (h' : Follows p l' r') (hperm : l.Perm l') :
    SameOutcome r r' ↔
      (∀ kind ∈ ["NEED", "FINALIZE"], ∀ key,
        Option.Rel SameEnvelope (l.filter (takes p kind key)).getLast? (l'.filter (takes p kind key)).getLast?) ∧
      ∀ key, Option.Rel SameEnvelope (l.filter (takes p "DECIDE" key)).head? (l'.filter (takes p "DECIDE" key)).head? := by
  rw [List.forall_mem_cons, List.forall_mem_singleton]
  simp only [← h.needs, ← h'.needs, ← h.finalizations, ← h'.finalizations]
  constructor
  · intro hsame
    refine ⟨⟨hsame.needs, hsame.finalizations⟩, fun key => ?_⟩
    rw [← h.decisions, ← h'.decisions]
    exact hsame.decisions key
  · rintro ⟨⟨hneeds, hfinalizations⟩, hdecisions⟩
    obtain ⟨m, hm, hmnan, hmplace⟩ := h.clock
    obtain ⟨n, hn, hnnan, hnplace⟩ := h'.clock
    have hmn : m = n := Number.eq_of_place hmnan hnnan (by rw [hmplace, hnplace, latestPlace_perm hperm])
    have hevents := decided_rel hperm hdecisions
    refine ⟨hneeds, ?_, hfinalizations, (sameKey_number hm).mpr (hmn ▸ hn), ?_, ?_⟩
    · intro key
      rw [h.decisions, h'.decisions]
      exact hdecisions key
    · simp only [h.decided, h'.decided]
      exact hevents
    · simp only [h.finalized, h'.finalized]
      exact ⟨fun a ha => ⟨a, ⟨hperm.mem_iff.mp ha.1, ha.2⟩, Or.inl rfl⟩,
        fun b hb => ⟨b, ⟨hperm.mem_iff.mpr hb.1, hb.2⟩, Or.inl rfl⟩⟩

end Replays

section Insensitivity

variable {β : Type} [LinearOrder β] {rank : Json → β} {p : Primitives} {probability : ℚ} {maxDistance : Nat}
  {draws : Number ⊕ Json → Draw} {envelopes : List Dict} {layers : List (Json × List Indexed)}

/-- A clock that is accepted is not above itself. -/
theorem notAfter_self {kind : String} {key : Json} {e : Dict} (h : takes p kind key e = true) :
    notAfter (lamportOf e) (lamportOf e) = true := by
  obtain ⟨haccepted, _⟩ := takes_inv h
  have hlamport := haccepted.lamport
  rw [← lamportOf_eq haccepted] at hlamport
  cases hclock : lamportOf e with
  | int | bool => simp [notAfter, Number.ofJson?, Number.le]
  | null | float | str | arr | obj =>
    rw [hclock] at hlamport
    cases hlamport

theorem Ranked.notAfter_iff (h : Ranked rank envelopes.zipIdx) {kind : String} {key : Json} {a b : Indexed}
    (ha : a ∈ envelopes.zipIdx) (hb : b ∈ envelopes.zipIdx) (htakes : takes p kind key a.1 = true) :
    notAfter (clockOf a) (clockOf b) = true ↔ rank (clockOf a) ≤ rank (clockOf b) := by
  by_cases hab : a = b
  · rw [← hab]
    exact iff_of_true (notAfter_self htakes) le_rfl
  · rw [(h.agrees a ha b hb hab).notAfter, decide_eq_true_eq]

theorem filter_layers (layers : List (Json × List Indexed)) (m : Json × List Indexed → List Indexed) (test : Dict → Bool) :
    ((layers.flatMap m).map Prod.fst).filter test = layers.flatMap fun g => ((m g).map Prod.fst).filter test := by
  rw [List.map_flatMap, List.filter_flatMap]

theorem filter_reshuffle_eq_nil {test : Dict → Bool} (g : Json × List Indexed) :
    ((reshuffle probability draws g).map Prod.fst).filter test = [] ↔ (g.2.map Prod.fst).filter test = [] := by
  have hperm : (((reshuffle probability draws g).map Prod.fst).filter test).Perm ((g.2.map Prod.fst).filter test) :=
    ((perm_shuffleGroup g.2).map _).filter _
  constructor
  · intro h
    exact (h ▸ hperm).symm.eq_nil
  · intro h
    exact (h ▸ hperm).eq_nil

theorem Grouped.near_iff (hlayers : Grouped rank envelopes.zipIdx layers) (probability : ℚ) (maxDistance : Nat)
    (draws : Number ⊕ Json → Draw) (h : Ranked rank envelopes.zipIdx)
    (hstrict : layers.Pairwise fun g g' => rank g.1 < rank g'.1) :
    (∀ a ∈ layers.flatMap (reshuffle probability draws),
      Within maxDistance (layers.flatMap (reshuffle probability draws)) (layers.flatMap Prod.snd) a) ↔
    ∀ e ∈ envelopes, Near probability maxDistance (draws (keyOf (lamportOf e))) (tied envelopes e).length := by
  obtain ⟨hperm, hsorted⟩ := hlayers.perm_reshuffle probability draws hstrict
  have hnodup : (layers.flatMap Prod.snd).Nodup := hsorted.nodup_iff.mpr h.nodup
  have hgroup : ∀ g ∈ layers, g.2.Nodup := by
    intro g hg
    rw [hlayers.members g hg]
    exact h.nodup.filter _
  simp only [(hperm.trans hsorted.symm).mem_iff]
  have hshuffle : ∀ g ∈ layers, (reshuffle probability draws g).Perm g.2 := fun g _ => perm_shuffleGroup g.2
  rw [within_flatMap hnodup hshuffle]
  constructor
  · intro hwithin e he
    obtain ⟨a, ha, rfl⟩ := mem_zipIdx_fst he
    obtain ⟨g, hg, hkey⟩ := hlayers.all a ha
    obtain ⟨htied, _, hsame⟩ := hlayers.tied_eq probability draws h hg ha hkey
    rw [htied, List.length_map, ← hsame]
    exact (within_shuffleGroup (hgroup g hg)).mp (hwithin g hg)
  · intro hnear g hg
    obtain ⟨a, ha, hkey⟩ := hlayers.keys g hg
    obtain ⟨htied, _, hsame⟩ := hlayers.tied_eq probability draws h hg ha (by rw [hkey])
    have hnear := hnear a.1 (fst_mem ha)
    rw [htied, List.length_map, ← hsame] at hnear
    exact (within_shuffleGroup (hgroup g hg)).mpr hnear

/-- With clocks that can be compared it is left to see how far the shuffles go and what they keep. -/
theorem insensitive_iff_of_ranked (h : Ranked rank envelopes.zipIdx) :
    Insensitive p probability maxDistance draws envelopes ↔
      (∀ e ∈ envelopes, Near probability maxDistance (draws (keyOf (lamportOf e))) (tied envelopes e).length) ∧
      (∀ kind ∈ ["NEED", "FINALIZE"], ∀ key, ∀ e ∈ envelopes, takes p kind key e = true →
        (∀ x ∈ envelopes, takes p kind key x = true → notAfter (lamportOf x) (lamportOf e) = true) →
        Option.Rel SameEnvelope ((tied envelopes e).filter (takes p kind key)).getLast?
          ((shuffledTies probability draws envelopes e).filter (takes p kind key)).getLast?) ∧
      (∀ key, ∀ e ∈ envelopes, takes p "DECIDE" key e = true →
        (∀ x ∈ envelopes, takes p "DECIDE" key x = true → notAfter (lamportOf e) (lamportOf x) = true) →
        Option.Rel SameEnvelope ((tied envelopes e).filter (takes p "DECIDE" key)).head?
          ((shuffledTies probability draws envelopes e).filter (takes p "DECIDE" key)).head?) := by
  obtain ⟨layers, hlayers, hstrict, hreordered, hsorted⟩ :=
    exists_layers probability draws h
  obtain ⟨hperm, hpermSorted⟩ := hlayers.perm_reshuffle probability draws hstrict
  have hnodup : (layers.flatMap (reshuffle probability draws)).Nodup := hperm.nodup_iff.mpr h.nodup
  have hranks := hlayers.sorted_reshuffle probability draws hstrict
  have hnotAfter : (layers.flatMap (reshuffle probability draws)).Pairwise fun a b =>
      notAfter (clockOf a) (clockOf b) = true := by
    refine (hranks.and hnodup).imp_of_mem ?_
    rintro a b ha hb ⟨hle, hne⟩
    rw [(h.agrees a (hperm.mem_iff.mp ha) b (hperm.mem_iff.mp hb) hne).notAfter]
    exact decide_eq_true hle
  have hreplay : sortByLamport envelopes = .ok ((layers.flatMap Prod.snd).map Prod.fst) := by
    have hfst : envelopes.zipIdx.map Prod.fst = envelopes := List.zipIdx_map_fst 0 envelopes
    rw [← sortBy_lamport]
    conv_lhs => rw [← hfst]
    rw [sortBy_map]
    exact congrArg (Except.map (List.map Prod.fst)) hsorted
  have hreplay' : sortByLamport ((layers.flatMap (reshuffle probability draws)).map Prod.fst) =
      .ok ((layers.flatMap (reshuffle probability draws)).map Prod.fst) := by
    have hcompare : (layers.flatMap (reshuffle probability draws)).Pairwise fun a b =>
        Agrees rank (clockOf a) (clockOf b) ∧ Agrees rank (clockOf b) (clockOf a) :=
      (hperm.pairwise_iff fun h => h.symm).mpr h.pairwise
    have hsort : sortBy clockOf (layers.flatMap (reshuffle probability draws)) =
        .ok (sortOn (fun a => rank (clockOf a)) (layers.flatMap (reshuffle probability draws))) :=
      sortBy_ok (hcompare.imp fun h => h.2.less)
    rw [sortOn_eq_self _ hranks] at hsort
    rw [← sortBy_lamport, sortBy_map]
    exact congrArg (Except.map (List.map Prod.fst)) hsort
  obtain ⟨r, hr, hfollows⟩ := replayEnvelopes_follows (p := p) hreplay
  obtain ⟨r', hr', hfollows'⟩ := replayEnvelopes_follows (p := p) hreplay'
  have houtcome := sameOutcome_iff hfollows hfollows' ((hpermSorted.trans hperm.symm).map Prod.fst)
  have hnear := hlayers.near_iff probability maxDistance draws h hstrict
  have hlast : ∀ kind key, Option.Rel SameEnvelope
      (((layers.flatMap Prod.snd).map Prod.fst).filter (takes p kind key)).getLast?
      (((layers.flatMap (reshuffle probability draws)).map Prod.fst).filter (takes p kind key)).getLast? ↔
      ∀ e ∈ envelopes, takes p kind key e = true →
        (∀ x ∈ envelopes, takes p kind key x = true → notAfter (lamportOf x) (lamportOf e) = true) →
        Option.Rel SameEnvelope ((tied envelopes e).filter (takes p kind key)).getLast?
          ((shuffledTies probability draws envelopes e).filter (takes p kind key)).getLast? := by
    intro kind key
    rw [filter_layers, filter_layers, getLast?_flatMap_rel hstrict fun g _ => filter_reshuffle_eq_nil g]
    refine hlayers.forall_iff probability draws h (fun k k' => k' ≤ k) (fun c c' => notAfter c' c = true)
      (fun m m' => Option.Rel SameEnvelope m.getLast? m'.getLast?) ?_
    intro a ha b hb _ htest
    exact h.notAfter_iff hb ha htest
  have hfirst : ∀ key, Option.Rel SameEnvelope
      (((layers.flatMap Prod.snd).map Prod.fst).filter (takes p "DECIDE" key)).head?
      (((layers.flatMap (reshuffle probability draws)).map Prod.fst).filter (takes p "DECIDE" key)).head? ↔
      ∀ e ∈ envelopes, takes p "DECIDE" key e = true →
        (∀ x ∈ envelopes, takes p "DECIDE" key x = true → notAfter (lamportOf e) (lamportOf x) = true) →
        Option.Rel SameEnvelope ((tied envelopes e).filter (takes p "DECIDE" key)).head?
          ((shuffledTies probability draws envelopes e).filter (takes p "DECIDE" key)).head? := by
    intro key
    rw [filter_layers, filter_layers, head?_flatMap_rel hstrict fun g _ => filter_reshuffle_eq_nil g]
    refine hlayers.forall_iff probability draws h (fun k k' => k ≤ k') (fun c c' => notAfter c c' = true)
      (fun m m' => Option.Rel SameEnvelope m.head? m'.head?) ?_
    intro a ha b hb htest _
    exact h.notAfter_iff ha hb htest
  simp only [hlast, hfirst] at houtcome
  rw [← hnear, ← houtcome]
  constructor
  · rintro ⟨reordered, sorted, _, hreordered', hsorted', _, _, hwithin, before, after, hbefore, hafter, hsame⟩
    obtain rfl := Except.ok.inj (hreordered.symm.trans hreordered')
    obtain rfl := Except.ok.inj (hsorted.symm.trans hsorted')
    obtain rfl := Except.ok.inj (hr.symm.trans hbefore)
    obtain rfl := Except.ok.inj (hr'.symm.trans hafter)
    exact ⟨hwithin, hsame⟩
  · rintro ⟨hwithin, hsame⟩
    refine ⟨_, _, ?_, hreordered, hsorted, hperm, hnotAfter, hwithin, r, r', hr, hr', hsame⟩
    rw [injectMessageReorder, hreordered]
    rfl

end Insensitivity

section Ranks

/-- The place of a clock that is a number. -/
def placeOf (clock : Json) : WithBot (WithTop ℚ) :=
  match Number.ofJson? clock with
  | some n => n.place
  | none => ⊥

def textOf : Json → String
  | .str s => s
  | _ => ""

def IsNumber (clock : Json) : Prop := ∃ n, Number.ofJson? clock = some n ∧ n ≠ .nan

def IsText (clock : Json) : Prop := ∃ s, clock = .str s

theorem agrees_numbers {a b : Json} (ha : IsNumber a) (hb : IsNumber b) : Agrees placeOf a b := by
  obtain ⟨m, hm, hmnan⟩ := ha
  obtain ⟨n, hn, hnnan⟩ := hb
  have hplace : placeOf a = m.place ∧ placeOf b = n.place := by simp [placeOf, hm, hn]
  refine ⟨?_, ?_, ?_⟩
  · rw [Comparison.compare_numbers .less hm hn, hplace.1, hplace.2, Comparison.numbers, Except.ok.injEq, Bool.eq_iff_iff,
      decide_eq_true_eq]
    exact Number.lt_iff_place hmnan
  · rw [Bool.eq_iff_iff, sameKey_number hm, hplace.1, hplace.2, decide_eq_true_eq, hn, Option.some.injEq]
    exact ⟨fun h => by rw [h], fun h => Number.eq_of_place hnnan hmnan h.symm⟩
  · have hle : notAfter a b = m.le n := by simp only [notAfter, hm, hn]
    rw [Bool.eq_iff_iff, hplace.1, hplace.2, decide_eq_true_eq, hle]
    exact Number.le_iff_place hmnan hnnan

theorem agrees_texts {a b : Json} (ha : IsText a) (hb : IsText b) : Agrees textOf a b := by
  obtain ⟨s, rfl⟩ := ha
  obtain ⟨t, rfl⟩ := hb
  refine ⟨?_, ?_, ?_⟩
  · simp [Comparison.compare, Comparison.texts, textOf]
  · rw [Bool.eq_iff_iff]
    simp only [sameKey, equal, textOf, Json.str.injEq, Bool.or_self, decide_eq_true_eq]
    exact decide_eq_true_iff.symm
  · rw [Bool.eq_iff_iff]
    simp only [notAfter, Number.ofJson?, textOf, decide_eq_true_eq]
    exact decide_eq_true_iff.symm

theorem both_of_notAfter {a b : Json} (h : notAfter a b = true) : IsNumber a ∧ IsNumber b ∨ IsText a ∧ IsText b := by
  unfold notAfter at h
  split at h
  next m n hm hn =>
    obtain ⟨hmnan, hnnan⟩ := Number.ne_nan_of_le h
    exact Or.inl ⟨⟨m, hm, hmnan⟩, ⟨n, hn, hnnan⟩⟩
  next =>
    split at h
    next => exact Or.inr ⟨⟨_, rfl⟩, ⟨_, rfl⟩⟩
    next => cases h

theorem not_number_of_text {a : Json} (h : IsText a) : ¬IsNumber a := by
  obtain ⟨s, rfl⟩ := h
  rintro ⟨n, hn, _⟩
  cases hn

/-- Clocks that can be compared are all numbers or all texts. -/
theorem exists_rank {l : List Indexed} (hnodup : l.Nodup) (hhashable : ∀ a ∈ l, (clockOf a).hashable = true)
    (hcomparable : l.Pairwise fun a b =>
      notAfter (clockOf a) (clockOf b) = true ∨ notAfter (clockOf b) (clockOf a) = true) :
    Ranked placeOf l ∨ Ranked textOf l := by
  have hboth : ∀ {a b : Indexed}, notAfter (clockOf a) (clockOf b) = true ∨ notAfter (clockOf b) (clockOf a) = true →
      IsNumber (clockOf a) ∧ IsNumber (clockOf b) ∨ IsText (clockOf a) ∧ IsText (clockOf b) := by
    rintro a b (h | h)
    · exact both_of_notAfter h
    · exact (both_of_notAfter h).imp And.symm And.symm
  cases l with
  | nil => exact Or.inl ⟨hnodup, hhashable, nofun⟩
  | cons a rest =>
    obtain ⟨ha, _⟩ := List.pairwise_cons.mp hcomparable
    cases rest with
    | nil =>
      refine Or.inl ⟨hnodup, hhashable, fun x hx y hy hne => ?_⟩
      rw [List.mem_singleton] at hx hy
      exact absurd (hx.trans hy.symm) hne
    | cons b rest =>
      rcases hboth (ha b List.mem_cons_self) with ⟨hnumber, _⟩ | ⟨htext, _⟩
      · have hall : ∀ x ∈ a :: b :: rest, IsNumber (clockOf x) := by
          refine List.forall_mem_cons.mpr ⟨hnumber, fun x hx => ?_⟩
          rcases hboth (ha x hx) with h | h
          · exact h.2
          · exact absurd hnumber (not_number_of_text h.1)
        exact Or.inl ⟨hnodup, hhashable, fun x hx y hy _ => agrees_numbers (hall x hx) (hall y hy)⟩
      · have hall : ∀ x ∈ a :: b :: rest, IsText (clockOf x) := by
          refine List.forall_mem_cons.mpr ⟨htext, fun x hx => ?_⟩
          rcases hboth (ha x hx) with h | h
          · exact absurd h.1 (not_number_of_text htext)
          · exact h.2
        exact Or.inr ⟨hnodup, hhashable, fun x hx y hy _ => agrees_texts (hall x hx) (hall y hy)⟩

end Ranks

section Exactness

variable {p : Primitives} {probability : ℚ} {maxDistance : Nat} {draws : Number ⊕ Json → Draw} {envelopes : List Dict}

theorem ranked_zipIdx (hhashable : ∀ e ∈ envelopes, (lamportOf e).hashable = true)
    (hcomparable : envelopes.Pairwise fun a b =>
      notAfter (lamportOf a) (lamportOf b) = true ∨ notAfter (lamportOf b) (lamportOf a) = true) :
    Ranked placeOf envelopes.zipIdx ∨ Ranked textOf envelopes.zipIdx := by
  have hfst : envelopes.zipIdx.map Prod.fst = envelopes := List.zipIdx_map_fst 0 envelopes
  have hplaces : (envelopes.zipIdx.map Prod.snd).Nodup := by simp [List.nodup_range']
  refine exists_rank hplaces.of_map (fun a ha => hhashable a.1 (fst_mem ha)) ?_
  rw [← hfst, List.pairwise_map] at hcomparable
  exact hcomparable

theorem Insensitive.harmless (h : Insensitive p probability maxDistance draws envelopes) :
    Harmless p probability maxDistance draws envelopes := by
  have hall := h
  obtain ⟨reordered, sorted, _, hreordered, _, hperm, hsorted, _⟩ := h
  obtain ⟨groups, hgroups, _⟩ := Transactional.except_bind_ok.mp hreordered
  have hfst : envelopes.zipIdx.map Prod.fst = envelopes := List.zipIdx_map_fst 0 envelopes
  have hhashable : ∀ e ∈ envelopes, (lamportOf e).hashable = true := by
    intro e he
    obtain ⟨a, ha, rfl⟩ := mem_zipIdx_fst he
    exact hashable_of_groupByLamport hgroups a ha
  have hcomparable : envelopes.Pairwise fun a b =>
      notAfter (lamportOf a) (lamportOf b) = true ∨ notAfter (lamportOf b) (lamportOf a) = true := by
    have heither : envelopes.zipIdx.Pairwise fun a b =>
        notAfter (clockOf a) (clockOf b) = true ∨ notAfter (clockOf b) (clockOf a) = true :=
      (hperm.pairwise_iff Or.symm).mp (hsorted.imp Or.inl)
    rw [← hfst, List.pairwise_map]
    exact heither
  rcases ranked_zipIdx hhashable hcomparable with hranked | hranked
  · obtain ⟨hnear, hlast, hfirst⟩ := (insensitive_iff_of_ranked hranked).mp hall
    exact ⟨hhashable, hcomparable, hnear, hlast, hfirst⟩
  · obtain ⟨hnear, hlast, hfirst⟩ := (insensitive_iff_of_ranked hranked).mp hall
    exact ⟨hhashable, hcomparable, hnear, hlast, hfirst⟩

theorem Harmless.insensitive (h : Harmless p probability maxDistance draws envelopes) :
    Insensitive p probability maxDistance draws envelopes := by
  rcases ranked_zipIdx h.hashable h.comparable with hranked | hranked
  · exact (insensitive_iff_of_ranked hranked).mpr ⟨h.near, h.last, h.first⟩
  · exact (insensitive_iff_of_ranked hranked).mpr ⟨h.near, h.last, h.first⟩

/-- Replay is insensitive to a reordering exactly if the shuffles that take place are harmless. -/
theorem replay_insensitive_iff : Insensitive p probability maxDistance draws envelopes ↔
    Harmless p probability maxDistance draws envelopes :=
  ⟨Insensitive.harmless, Harmless.insensitive⟩

end Exactness

/-- Three envelopes of one clock. -/
def tiedEnvelopes : List Dict :=
  ["NEED", "PROPOSE", "CLAIM"].map fun kind => [("kind", .str kind), ("lamport", .int 7)]

/-- The distance does not hold a shuffle back. -/
theorem shuffle_goes_too_far :
    ¬Insensitive sampleValues 1 1 (fun _ => ⟨0, fun _ => Fin.revPerm⟩) tiedEnvelopes := by
  intro h
  have hlength : (tied tiedEnvelopes [("kind", .str "NEED"), ("lamport", .int 7)]).length = 3 := by decide
  have hnear := h.harmless.near [("kind", .str "NEED"), ("lamport", .int 7)] (by simp [tiedEnvelopes])
  rw [hlength] at hnear
  have hfar := (hnear (by decide) (by norm_num) 0).2
  simp at hfar

end AgentNetwork.Tools
