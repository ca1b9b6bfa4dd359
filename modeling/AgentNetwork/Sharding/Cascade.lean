import AgentNetwork.Library.Grounding
import AgentNetwork.Sharding.Commitment

namespace AgentNetwork.Sharding

open Relational Relation Grounding

namespace CommitmentProtocol

def Published (p : CommitmentProtocol) (y : String) : Prop := ∃ k, p.commitmentByHash.get? y = some k

def DependsOn (p : CommitmentProtocol) (y d : String) : Prop :=
  ∃ k, p.commitmentByHash.get? y = some k ∧ d ∈ k.dependencies

/-- No dependency of `y` has been finalized after `h`. -/
def LastOf (p : CommitmentProtocol) (y h : String) : Prop :=
  ∃ before after, p.finalized.elems = before ++ h :: after ∧ ∀ d ∈ after, ¬p.DependsOn y d

/-- `pending` says what each commitment waits for. `due h y` holds while the cascade
of `h` has still to visit `y`; a commitment whose dependencies are all finalized is
due a visit from the last of them. -/
structure Tracks (p : CommitmentProtocol) (due : String → String → Prop) : Prop where
  grounded : ∀ y ∈ p.finalized, Grounded p.Published p.DependsOn y
  dueFinalized : ∀ d y, due d y → d ∈ p.finalized
  waits : ∀ y, (∃ s, p.pending.get? y = some s) ↔ p.Published y ∧ y ∉ p.finalized
  deps : ∀ y s, p.pending.get? y = some s → ∀ d, d ∈ s ↔ p.DependsOn y d ∧ (d ∉ p.finalized ∨ due d y)
  last : ∀ y s, p.pending.get? y = some s → (∀ d, p.DependsOn y d → d ∈ p.finalized) → ∃ h, due h y ∧ p.LastOf y h

/-- A grounded commitment that lists two dependencies, one of which depends on the other. -/
def Tangled (p : CommitmentProtocol) (c : String) : Prop :=
  Grounded p.Published p.DependsOn c ∧ ∃ h x, p.DependsOn c h ∧ p.DependsOn c x ∧ TransGen p.DependsOn x h

section Tracking

variable {p p' : CommitmentProtocol} {due due' : String → String → Prop} {c h y : String} {k : CommitmentArtifact}

theorem allFinalized_iff (hk : p.commitmentByHash.get? c = some k) :
    allFinalized k p = true ↔ ∀ d, p.DependsOn c d → d ∈ p.finalized := by
  rw [allFinalized, List.all_eq_true]
  constructor
  · intro hall d hd
    obtain ⟨k', hk', hd⟩ := hd
    rw [← Option.some.inj (hk.symm.trans hk')] at hd
    exact of_decide_eq_true (hall d hd)
  · intro hall d hd
    exact decide_eq_true (hall d ⟨k, hk, hd⟩)

theorem mem_waiting : y ∈ waiting h p ↔ ∃ s, p.pending.get? y = some s ∧ h ∈ s := by
  simp only [waiting, List.mem_map, List.mem_filter, decide_eq_true_eq]
  constructor
  · intro hy
    obtain ⟨e, ⟨he, hin⟩, rfl⟩ := hy
    exact ⟨e.2, Table.get?_eq_some_iff.mpr he, hin⟩
  · intro hy
    obtain ⟨s, hs, hin⟩ := hy
    exact ⟨(y, s), ⟨Table.get?_eq_some_iff.mp hs, hin⟩, rfl⟩

theorem nodup_waiting : (waiting h p).Nodup := p.pending.keysNodup.sublist (List.filter_sublist.map Prod.fst)

/-- With no visit due, exactly the grounded commitments are finalized. -/
theorem Tracks.finalized_iff (ht : Tracks p fun _ _ => False) : y ∈ p.finalized ↔ Grounded p.Published p.DependsOn y := by
  constructor
  · exact ht.grounded y
  · intro hg
    induction hg with
    | @intro y hp _ ih =>
      by_contra hy
      obtain ⟨s, hs⟩ := (ht.waits y).mpr ⟨hp, hy⟩
      obtain ⟨_, hdue, _⟩ := ht.last y s hs ih
      exact hdue

/-- `p'` is `p` with the commitment `k` of hash `c` known and finalized; the cascade of `c` is still to come. -/
structure Finishes (p p' : CommitmentProtocol) (c : String) (k : CommitmentArtifact) : Prop where
  isOpen : c ∉ p.finalized
  commitment : p'.commitmentByHash.get? c = some k
  ready : ∀ d ∈ k.dependencies, d ∈ p.finalized
  finalized : p'.finalized.elems = p.finalized.elems ++ [c]
  kept : ∀ y k, p.commitmentByHash.get? y = some k → p'.commitmentByHash.get? y = some k
  other : ∀ y, y ≠ c → p'.commitmentByHash.get? y = p.commitmentByHash.get? y
  pending : ∀ y, p'.pending.get? y = if y = c then none else p.pending.get? y

theorem Finishes.mem (hf : Finishes p p' c k) (d : String) : d ∈ p'.finalized ↔ d ∈ p.finalized ∨ d = c := by
  rw [ListSet.mem_def, hf.finalized, List.mem_append, List.mem_singleton]
  rfl

theorem Finishes.dependsOn (hf : Finishes p p' c k) {d : String} (hy : y ≠ c) : p'.DependsOn y d ↔ p.DependsOn y d := by
  rw [DependsOn, hf.other y hy, DependsOn]

theorem Finishes.waits (hf : Finishes p p' c k) {s : ListSet String} (hs : p'.pending.get? y = some s) :
    y ≠ c ∧ p.pending.get? y = some s := by
  rw [hf.pending] at hs
  split at hs
  next => cases hs
  next hne => exact ⟨hne, hs⟩

theorem Finishes.keepsGrounded (hf : Finishes p p' c k) (hg : Grounded p.Published p.DependsOn y) :
    Grounded p'.Published p'.DependsOn y := by
  refine hg.mono (fun x hx => ?_) ?_
  · obtain ⟨k, hk⟩ := hx
    exact ⟨k, hf.kept x k hk⟩
  · intro x b hx hb
    obtain ⟨k, hk⟩ := hx
    obtain ⟨k', hk', hb⟩ := hb
    rw [hf.kept x k hk] at hk'
    exact ⟨k, hk, Option.some.inj hk' ▸ hb⟩

theorem Finishes.grounded (hf : Finishes p p' c k) (ht : Tracks p due) (hy : y ∈ p'.finalized) :
    Grounded p'.Published p'.DependsOn y := by
  obtain hold | rfl := (hf.mem y).mp hy
  · exact hf.keepsGrounded (ht.grounded y hold)
  · refine .intro ⟨k, hf.commitment⟩ ?_
    intro d hd
    obtain ⟨k', hk', hd⟩ := hd
    rw [← Option.some.inj (hf.commitment.symm.trans hk')] at hd
    exact hf.keepsGrounded (ht.grounded d (hf.ready d hd))

theorem Finishes.mem_waiting_iff (hf : Finishes p p' c k) (ht : Tracks p due) {s : ListSet String}
    (hs : p'.pending.get? y = some s) : y ∈ waiting c p' ↔ p.DependsOn y c := by
  have hcs := ht.deps y s (hf.waits hs).2 c
  rw [mem_waiting]
  constructor
  · intro hex
    obtain ⟨s', hs', hin⟩ := hex
    rw [← Option.some.inj (hs.symm.trans hs')] at hin
    exact (hcs.mp hin).1
  · intro hdep
    exact ⟨s, hs, hcs.mpr ⟨hdep, Or.inl hf.isOpen⟩⟩

/-- Once a commitment is finalized, those that wait for it are due a visit. -/
theorem Tracks.finalize (ht : Tracks p due) (hf : Finishes p p' c k)
    (hsub : ∀ d y, due' d y → due d y) (hkeep : ∀ d y, y ≠ c → due d y → due' d y) :
    Tracks p' fun d y => due' d y ∨ (d = c ∧ y ∈ waiting c p') := by
  refine ⟨fun y hy => hf.grounded ht hy, ?_, ?_, ?_, ?_⟩
  · intro d y hdue
    rw [hf.mem]
    obtain hold | ⟨rfl, _⟩ := hdue
    · exact Or.inl (ht.dueFinalized d y (hsub d y hold))
    · exact Or.inr rfl
  · intro y
    rw [hf.mem, hf.pending]
    by_cases hy : y = c
    · simp [hy]
    · rw [if_neg hy, ht.waits y, Published, Published, hf.other y hy]
      simp [hy]
  · intro y s hs d
    obtain ⟨hy, hs₀⟩ := hf.waits hs
    have hdue : due d y ↔ due' d y := ⟨hkeep d y hy, hsub d y⟩
    rw [ht.deps y s hs₀ d, hf.dependsOn hy, hf.mem, hf.mem_waiting_iff ht hs, hdue]
    by_cases hd : d = c
    · subst hd
      simp only [hf.isOpen, not_false_iff, true_or, and_true, or_true, not_true_eq_false, false_or, true_and]
      constructor
      · intro hdep
        exact ⟨hdep, Or.inr hdep⟩
      · intro hboth
        exact hboth.1
    · simp [hd]
  · intro y s hs hall
    obtain ⟨hy, hs₀⟩ := hf.waits hs
    by_cases hcy : p.DependsOn y c
    · have hin : y ∈ waiting c p' := (hf.mem_waiting_iff ht hs).mpr hcy
      exact ⟨c, Or.inr ⟨rfl, hin⟩, p.finalized.elems, [], hf.finalized, fun d hd => absurd hd List.not_mem_nil⟩
    · have hall₀ : ∀ d, p.DependsOn y d → d ∈ p.finalized := by
        intro d hd
        obtain hmem | rfl := (hf.mem d).mp (hall d ((hf.dependsOn hy).mpr hd))
        · exact hmem
        · exact absurd hd hcy
      obtain ⟨h', hdue, before, after, helems, hafter⟩ := ht.last y s hs₀ hall₀
      refine ⟨h', Or.inl (hkeep h' y hy hdue), before, after ++ [c], by rw [hf.finalized, helems]; simp, ?_⟩
      intro d hd
      rw [hf.dependsOn hy]
      rcases List.mem_append.mp hd with hd | hd
      · exact hafter d hd
      · rw [List.mem_singleton.mp hd]
        exact hcy

theorem Tracks.congr (ht : Tracks p due) (h : ∀ d y, due d y ↔ due' d y) : Tracks p due' := by
  have hdue : due = due' := by
    funext d y
    exact propext (h d y)
  rw [← hdue]
  exact ht

/-- A visited commitment that still waits for another no longer waits for `h`. -/
theorem Tracks.discard {rest : List String} {s : ListSet String} (ht : Tracks p fun d y => due d y ∨ d = h ∧ y ∈ c :: rest)
    (hs : p.pending.get? c = some s) (hblocked : ¬∀ d, p.DependsOn c d → d ∈ p.finalized) (hdue : ¬due h c) (hrest : c ∉ rest) :
    Tracks { p with pending := p.pending.set c (s.filter fun d => d ≠ h) } fun d y => due d y ∨ d = h ∧ y ∈ rest := by
  have hset (y : String) : (p.pending.set c (s.filter fun d => d ≠ h)).get? y =
      if y = c then some (s.filter fun d => d ≠ h) else p.pending.get? y := by
    rw [Table.get?_set, hs]
    rfl
  have hleft (d y : String) (hy : y ≠ c) : due d y ∨ d = h ∧ y ∈ c :: rest ↔ due d y ∨ d = h ∧ y ∈ rest := by
    simp [hy]
  refine ⟨ht.grounded, ?_, ?_, ?_, ?_⟩
  · intro d y hd
    refine ht.dueFinalized d y (hd.imp_right ?_)
    intro hboth
    exact ⟨hboth.1, List.mem_cons_of_mem c hboth.2⟩
  · intro y
    rw [hset]
    by_cases hy : y = c
    · subst hy
      rw [if_pos rfl]
      have hw := (ht.waits y).mp ⟨s, hs⟩
      exact ⟨fun _ => hw, fun _ => ⟨_, rfl⟩⟩
    · rw [if_neg hy]
      exact ht.waits y
  · intro y s' hs' d
    rw [hset] at hs'
    by_cases hy : y = c
    · subst hy
      rw [if_pos rfl] at hs'
      obtain rfl := Option.some.inj hs'
      have hd := ht.deps y s hs d
      have hh : h ∈ p.finalized := ht.dueFinalized h y (Or.inr ⟨rfl, List.mem_cons_self⟩)
      by_cases hdh : d = h
      · subst hdh
        simp [hh, hdue, hrest]
      · simp only [ListSet.mem_filter, hd, hdh, false_and, or_false, ne_eq, not_false_eq_true, decide_true, and_true]
        exact Iff.rfl
    · rw [if_neg hy] at hs'
      rw [ht.deps y s' hs' d, hleft d y hy]
      exact Iff.rfl
  · intro y s' hs' hall
    rw [hset] at hs'
    by_cases hy : y = c
    · exact absurd (hy ▸ hall) hblocked
    · rw [if_neg hy] at hs'
      obtain ⟨h', hd, hlast⟩ := ht.last y s' hs' hall
      exact ⟨h', (hleft h' y hy).mp hd, hlast⟩

/-- A cascade keeps the registry and what was finalized before it. -/
structure Extends (p p' : CommitmentProtocol) : Prop where
  commitments : p'.commitments = p.commitments
  byHash : p'.commitmentByHash = p.commitmentByHash
  finalized : ∃ later, p'.finalized.elems = p.finalized.elems ++ later
  pending : p'.pending.entries.length ≤ p.pending.entries.length

theorem Extends.refl (p : CommitmentProtocol) : Extends p p := ⟨rfl, rfl, ⟨[], (List.append_nil _).symm⟩, Nat.le_refl _⟩

theorem Extends.trans {q : CommitmentProtocol} (h₁ : Extends p q) (h₂ : Extends q p') : Extends p p' := by
  obtain ⟨l₁, hl₁⟩ := h₁.finalized
  obtain ⟨l₂, hl₂⟩ := h₂.finalized
  refine ⟨h₂.commitments.trans h₁.commitments, h₂.byHash.trans h₁.byHash, ⟨l₁ ++ l₂, ?_⟩, Nat.le_trans h₂.pending h₁.pending⟩
  rw [hl₂, hl₁, List.append_assoc]

theorem Extends.dependsOn (he : Extends p p') : p'.DependsOn = p.DependsOn := by
  unfold DependsOn
  rw [he.byHash]

theorem Extends.published (he : Extends p p') : p'.Published = p.Published := by
  unfold Published
  rw [he.byHash]

theorem Extends.tangled (he : Extends p p') : p'.Tangled c ↔ p.Tangled c := by
  rw [Tangled, he.dependsOn, he.published, Tangled]

/-- `p` with `c` moved from the pending commitments to the finalized ones. -/
def finish (c : String) (p : CommitmentProtocol) : CommitmentProtocol :=
  { p with finalized := p.finalized.add c, pending := p.pending.erase c }

theorem tryFinalize_of_published {cascade : String → CommitmentProtocol → Except CascadeError Unit × CommitmentProtocol}
    (hc : c ∉ p.finalized) (hk : p.commitmentByHash.get? c = some k) :
    tryFinalize cascade c p = if allFinalized k p then cascade c (finish c p) else (.ok (), p) := by
  rw [tryFinalize, finalizeCommitment, if_neg hc, if_neg hc, hk]
  by_cases hall : allFinalized k p = true
  · simp only [hall, if_true]
    rw [finish]
    generalize cascade c _ = r
    obtain ⟨r, q⟩ := r
    cases r with
    | ok u => rfl
    | error e => rfl
  · simp only [hall]
    rfl

/-- The commitments that a cascade from `h` has finalized depend on `h`. -/
def Reaches (p : CommitmentProtocol) (h z : String) : Prop := ∃ x, p.DependsOn z x ∧ ReflTransGen p.DependsOn x h

theorem Extends.reaches (he : Extends p p') : p'.Reaches h = p.Reaches h := by
  unfold Reaches
  rw [he.dependsOn]

/-- What the loop over `ws` starts from: a commitment that the loop finds finalized
depends on `h` through another dependency too. -/
structure Visits (p : CommitmentProtocol) (due : String → String → Prop) (h : String) (ws : List String) : Prop where
  tracks : Tracks p fun d y => due d y ∨ d = h ∧ y ∈ ws
  nodup : ws.Nodup
  fresh : ∀ y ∈ ws, ¬due h y
  dependsOn : ∀ y ∈ ws, p.DependsOn y h
  overtaken : ∀ y ∈ ws, y ∈ p.finalized → ∃ x, p.DependsOn y x ∧ TransGen p.DependsOn x h

/-- How a cascade ends: no visit of its own is due, or a tangled commitment stopped it. -/
def Ends (p : CommitmentProtocol) (due : String → String → Prop) (reached : String → Prop) :
    Except CascadeError Unit × CommitmentProtocol → Prop
  | (.ok (), p') => Tracks p' due ∧ Extends p p' ∧ ∀ z ∈ p'.finalized, z ∈ p.finalized ∨ reached z
  | (.error e, _) => ∃ c, e = .keyError c ∧ p.Tangled c

/-- Cascades over at most `n` pending commitments end as they should. -/
def Sound (cascade : String → CommitmentProtocol → Except CascadeError Unit × CommitmentProtocol) (n : Nat) : Prop :=
  ∀ p due h, p.pending.entries.length < n → Visits p due h (waiting h p) → Ends p due (p.Reaches h) (cascade h p)

variable {cascade : String → CommitmentProtocol → Except CascadeError Unit × CommitmentProtocol} {n : Nat}

theorem visits_waiting (ht : Tracks p fun d y => due d y ∨ d = h ∧ y ∈ waiting h p) (hfresh : ∀ y, ¬due h y) :
    Visits p due h (waiting h p) := by
  refine ⟨ht, nodup_waiting, fun y _ => hfresh y, ?_, ?_⟩
  · intro y hy
    obtain ⟨s, hs, hin⟩ := mem_waiting.mp hy
    exact ((ht.deps y s hs h).mp hin).1
  · intro y hy hfin
    obtain ⟨s, hs, _⟩ := mem_waiting.mp hy
    exact absurd hfin ((ht.waits y).mp ⟨s, hs⟩).2

theorem Extends.visits {ws : List String} (he : Extends p p') (ht : Tracks p' fun d y => due d y ∨ d = h ∧ y ∈ ws)
    (hv : Visits p due h (c :: ws)) (hc : c ∉ p.finalized)
    (hnew : ∀ z ∈ p'.finalized, z ∈ p.finalized ∨ z = c ∨ p.Reaches c z) : Visits p' due h ws := by
  have hne : ∀ y ∈ ws, y ≠ c := fun y hy hyc => (List.nodup_cons.mp hv.nodup).1 (hyc ▸ hy)
  refine ⟨ht, (List.nodup_cons.mp hv.nodup).2, fun y hy => hv.fresh y (List.mem_cons_of_mem c hy), ?_, ?_⟩
  · rw [he.dependsOn]
    exact fun y hy => hv.dependsOn y (List.mem_cons_of_mem c hy)
  · rw [he.dependsOn]
    intro y hy hfin
    obtain hold | rfl | ⟨x, hyx, hxc⟩ := hnew y hfin
    · exact hv.overtaken y (List.mem_cons_of_mem c hy) hold
    · exact absurd rfl (hne y hy)
    · exact ⟨x, hyx, TransGen.tail' hxc (hv.dependsOn c List.mem_cons_self)⟩

theorem Ends.extend {q : CommitmentProtocol} {reached reached' : String → Prop} {r : Except CascadeError Unit × CommitmentProtocol}
    (hr : Ends q due reached' r) (he : Extends p q) (hnew : ∀ z ∈ q.finalized, z ∈ p.finalized ∨ reached z)
    (hsub : ∀ z, reached' z → reached z) : Ends p due reached r := by
  obtain ⟨r, p'⟩ := r
  cases r with
  | ok u =>
    obtain ⟨ht, he', hnew'⟩ := hr
    refine ⟨ht, he.trans he', ?_⟩
    intro z hz
    obtain hz | hz := hnew' z hz
    · exact hnew z hz
    · exact Or.inr (hsub z hz)
  | error e =>
    obtain ⟨t, he', htangled⟩ := hr
    exact ⟨t, he', he.tangled.mp htangled⟩

/-- The visit of a pending commitment finalizes it if it waits for nothing else. -/
theorem tryFinalize_ends {rest : List String} {s : ListSet String} (hsound : Sound cascade n) (hn : p.pending.entries.length ≤ n)
    (hv : Visits p due h (c :: rest)) (hs : p.pending.get? c = some s) :
    Ends p (fun d y => due d y ∨ d = h ∧ y ∈ rest) (fun z => z = c ∨ p.Reaches c z)
      (tryFinalize cascade c { p with pending := p.pending.set c (s.filter fun d => d ≠ h) }) := by
  obtain ⟨⟨k, hk⟩, hc⟩ := (hv.tracks.waits c).mp ⟨s, hs⟩
  let p₀ : CommitmentProtocol := { p with pending := p.pending.set c (s.filter fun d => d ≠ h) }
  have hk₀ : p₀.commitmentByHash.get? c = some k := hk
  have hc₀ : c ∉ p₀.finalized := hc
  have hrest : c ∉ rest := (List.nodup_cons.mp hv.nodup).1
  show Ends p _ _ (tryFinalize cascade c p₀)
  rw [tryFinalize_of_published hc₀ hk₀]
  have hiff : allFinalized k p₀ = true ↔ ∀ d, p.DependsOn c d → d ∈ p.finalized := allFinalized_iff hk₀
  split
  next hall =>
    have hdepends := hiff.mp hall
    have hready : ∀ d ∈ k.dependencies, d ∈ p.finalized := fun d hd => hdepends d ⟨k, hk, hd⟩
    have hpending (y : String) : (finish c p₀).pending.get? y = if y = c then none else p.pending.get? y := by
      rw [finish, Table.get?_erase]
      split
      next => rfl
      next hy => rw [Table.get?_set, if_neg hy]
    have hkeep (d y : String) (hy : y ≠ c) (hdue : due d y ∨ d = h ∧ y ∈ c :: rest) : due d y ∨ d = h ∧ y ∈ rest :=
      hdue.imp_right fun hboth => ⟨hboth.1, (List.mem_cons.mp hboth.2).resolve_left hy⟩
    have hsub (d y : String) (hdue : due d y ∨ d = h ∧ y ∈ rest) : due d y ∨ d = h ∧ y ∈ c :: rest :=
      hdue.imp_right fun hboth => ⟨hboth.1, List.mem_cons_of_mem c hboth.2⟩
    have hfinishes : Finishes p (finish c p₀) c k :=
      ⟨hc, hk, hready, ListSet.elems_add_of_not_mem hc, fun _ _ hy => hy, fun _ _ => rfl, hpending⟩
    have ht : Tracks (finish c p₀) _ := hv.tracks.finalize hfinishes hsub hkeep
    have hless : (finish c p₀).pending.entries.length < p.pending.entries.length := by
      have hset : p₀.pending.get? c = some (s.filter fun d => d ≠ h) := by
        rw [Table.get?_set, if_pos rfl, hs]
        rfl
      have hlt := Table.length_erase_lt hset
      rw [Table.length_set] at hlt
      exact hlt
    have hfresh (y : String) : ¬(due c y ∨ c = h ∧ y ∈ rest) := fun hdue => hc (hv.tracks.dueFinalized c y (hsub c y hdue))
    have hextends : Extends p (finish c p₀) := ⟨rfl, rfl, ⟨[c], ListSet.elems_add_of_not_mem hc⟩, hless.le⟩
    have hend := hsound (finish c p₀) _ c (Nat.lt_of_lt_of_le hless hn) (visits_waiting ht hfresh)
    rw [hextends.reaches] at hend
    refine hend.extend hextends ?_ fun z hz => Or.inr hz
    intro z hz
    obtain rfl | hz := ListSet.mem_add.mp hz
    · exact Or.inr (Or.inl rfl)
    · exact Or.inl hz
  next hall =>
    refine ⟨hv.tracks.discard hs (fun hdepends => hall (hiff.mpr hdepends)) (hv.fresh c List.mem_cons_self) hrest, ?_, fun z hz => Or.inl hz⟩
    exact ⟨rfl, rfl, ⟨[], (List.append_nil _).symm⟩, (Table.length_set _ _ _).le⟩

theorem visitWaiting_ends {ws : List String} (hsound : Sound cascade n)
    (hn : p.pending.entries.length ≤ n) (hv : Visits p due h ws) : Ends p due (p.Reaches h) (visitWaiting cascade h ws p) := by
  induction ws generalizing p with
  | nil =>
    refine ⟨hv.tracks.congr fun d y => ?_, Extends.refl p, fun z hz => Or.inl hz⟩
    simp
  | cons c rest ih =>
    have hch := hv.dependsOn c List.mem_cons_self
    rw [visitWaiting]
    split
    next hnone =>
      have hfin : c ∈ p.finalized := by
        by_contra hc
        obtain ⟨k, hk, _⟩ := hch
        obtain ⟨s, hs⟩ := (hv.tracks.waits c).mpr ⟨⟨k, hk⟩, hc⟩
        rw [hnone] at hs
        cases hs
      obtain ⟨x, hcx, hxh⟩ := hv.overtaken c List.mem_cons_self hfin
      exact ⟨c, rfl, hv.tracks.grounded c hfin, h, x, hch, hcx, hxh⟩
    next s hs =>
      have hc : c ∉ p.finalized := ((hv.tracks.waits c).mp ⟨s, hs⟩).2
      have hend := tryFinalize_ends hsound hn hv hs
      dsimp only
      generalize tryFinalize cascade c _ = r at hend ⊢
      obtain ⟨r, q⟩ := r
      cases r with
      | error e => exact hend
      | ok u =>
        obtain ⟨ht, he, hnew⟩ := hend
        have hrest := ih (Nat.le_trans he.pending hn) (he.visits ht hv hc hnew)
        rw [he.reaches] at hrest
        refine hrest.extend he ?_ fun _ hz => hz
        intro z hz
        obtain hz | rfl | ⟨x, hzx, hxc⟩ := hnew z hz
        · exact Or.inl hz
        · exact Or.inr ⟨h, hch, .refl⟩
        · exact Or.inr ⟨x, hzx, hxc.tail hch⟩

theorem cascadeFinalize_sound (depth : Nat) : Sound (cascadeFinalize depth) depth := by
  induction depth with
  | zero =>
    intro p due h hn hv
    omega
  | succ depth ih =>
    intro p due h hn hv
    exact visitWaiting_ends ih (by omega) hv

end Tracking

end CommitmentProtocol

end AgentNetwork.Sharding
