import AgentNetwork.Bus.ConnectionPool

namespace AgentNetwork.Bus

open Transition

namespace ConnectionPool

variable {τ κ : Type} [DecidableEq τ] [DecidableEq κ]

/-- No `get` finds the pool at its limit, and a task gives back only what it got. -/
def Fair (maxSize : Nat) (s : ConnectionPool τ κ) : PoolAction τ κ → Prop
  | .enter _ => s.pool = [] → s.inUse.elems.length < maxSize
  | .leave t => ∀ conn, s.stage t = .releasing conn → conn ∈ s.inUse → conn ∈ s.held t
  | .callGet _ | .connected _ _ | .connectFails _ | .wake _ | .callRelease _ _ => True

/-- The pool does not block itself and shares nothing: its lock holder does not wait for the
lock, at the limit a release can go on, no connection is with two tasks, and each is in
one place. -/
structure Sound (maxSize : Nat) (s : ConnectionPool τ κ) : Prop where
  unblocked : ∀ t, s.lock = some t → (s.stage t).waits = false
  proceeds : ∀ t conn, s.stage t = .releasing conn → maxSize ≤ s.inUse.elems.length → ∃ s', Step maxSize s (.leave t) s'
  exclusive : ∀ t t' conn, conn ∈ s.held t → conn ∈ s.held t' → t = t'
  placed : ∀ conn ∈ s.created, (conn ∈ s.pool ∧ conn ∉ s.inUse) ∨ (conn ∉ s.pool ∧ conn ∈ s.inUse)
  nodup : s.pool.Nodup
  bounded : s.pool.length + s.inUse.elems.length ≤ maxSize

/-- What fair steps keep. -/
structure Kept (maxSize : Nat) (s : ConnectionPool τ κ) : Prop where
  holder : ∀ t, s.lock = some t → s.stage t = .connecting ∧ s.pool = [] ∧ s.inUse.elems.length < maxSize
  connecting : ∀ t, s.stage t = .connecting → s.lock = some t
  awake : ∀ t, s.stage t ≠ .sleeping ∧ s.stage t ≠ .retrying
  inUse : ∀ t conn, conn ∈ s.held t → conn ∈ s.inUse
  exclusive : ∀ t t' conn, conn ∈ s.held t → conn ∈ s.held t' → t = t'
  created : ∀ conn, conn ∈ s.created ↔ conn ∈ s.pool ∨ conn ∈ s.inUse
  disjoint : ∀ conn ∈ s.pool, conn ∉ s.inUse
  nodup : s.pool.Nodup
  bounded : s.pool.length + s.inUse.elems.length ≤ maxSize

section Steps

variable {maxSize : Nat} {s s' : ConnectionPool τ κ} {t : τ} {conn : κ} {stage : PoolStage κ}

omit [DecidableEq τ] [DecidableEq κ] in
theorem kept_new : Kept maxSize (new : ConnectionPool τ κ) where
  holder _ h := by cases h
  connecting _ h := by cases h
  awake _ := ⟨nofun, nofun⟩
  inUse _ _ h := by cases h
  exclusive _ _ _ h := by cases h
  created conn := by simp [new]
  disjoint _ h := by cases h
  nodup := List.nodup_nil
  bounded := Nat.zero_le _

omit [DecidableEq κ] in
theorem stage_goTo (t' : τ) : (s.goTo t stage).stage t' = if t' = t then stage else s.stage t' := by
  simp [goTo, Function.update_apply]

omit [DecidableEq κ] in
/-- A task that moves on, and who has the lock then. -/
theorem Kept.move (hk : Kept maxSize s) {lock : Option τ} (hself : stage = .connecting → lock = some t)
    (hothers : ∀ t', t' ≠ t → s.lock = some t' → lock = some t')
    (hholder : ∀ t', lock = some t' →
      (t' = t ∧ stage = .connecting ∧ s.pool = [] ∧ s.inUse.elems.length < maxSize) ∨ (t' ≠ t ∧ s.lock = some t'))
    (hawake : stage ≠ .sleeping ∧ stage ≠ .retrying) : Kept maxSize { s.goTo t stage with lock := lock } where
  holder t' hlock := by
    change (s.goTo t stage).stage t' = _ ∧ _
    rw [stage_goTo]
    rcases hholder t' hlock with ⟨rfl, rfl, hpool, hroom⟩ | ⟨hne, hold⟩
    · exact ⟨if_pos rfl, hpool, hroom⟩
    · rw [if_neg hne]
      exact hk.holder t' hold
  connecting t' hstage := by
    have hstage' : (s.goTo t stage).stage t' = .connecting := hstage
    rw [stage_goTo] at hstage'
    split at hstage'
    next heq => exact heq ▸ hself hstage'
    next hne => exact hothers t' hne (hk.connecting t' hstage')
  awake t' := by
    change (s.goTo t stage).stage t' ≠ _ ∧ (s.goTo t stage).stage t' ≠ _
    rw [stage_goTo]
    split
    · exact hawake
    · exact hk.awake t'
  inUse := hk.inUse
  exclusive := hk.exclusive
  created := hk.created
  disjoint := hk.disjoint
  nodup := hk.nodup
  bounded := hk.bounded

omit [DecidableEq κ] in
/-- A task that goes to wait for the lock. -/
theorem Kept.goTo (hk : Kept maxSize s) (hbefore : s.stage t = .outside) (hconnecting : stage ≠ .connecting)
    (hawake : stage ≠ .sleeping ∧ stage ≠ .retrying) : Kept maxSize (s.goTo t stage) := by
  refine hk.move (fun h => absurd h hconnecting) (fun _ _ h => h) ?_ hawake
  intro t' hlock
  refine Or.inr ⟨?_, hlock⟩
  rintro rfl
  have hstage := (hk.holder t' hlock).1
  rw [hbefore] at hstage
  cases hstage

/-- A connection that is neither in the pool nor in use goes to a task, while no other has the lock. -/
theorem kept_handOut (hothers : ∀ t', t' ≠ t → s.stage t' ≠ .connecting) (awake : ∀ t', s.stage t' ≠ .sleeping ∧ s.stage t' ≠ .retrying)
    (inUse : ∀ t' c, c ∈ s.held t' → c ∈ s.inUse) (exclusive : ∀ t' t'' c, c ∈ s.held t' → c ∈ s.held t'' → t' = t'')
    (created : ∀ c, c ∈ s.created ↔ c ∈ s.pool ∨ c ∈ s.inUse ∨ c = conn) (disjoint : ∀ c ∈ s.pool, c ∉ s.inUse)
    (nodup : s.pool.Nodup) (hpool : conn ∉ s.pool) (hinUse : conn ∉ s.inUse)
    (room : s.pool.length + s.inUse.elems.length < maxSize) : Kept maxSize (s.handOut t conn) := by
  have hstage : ∀ t', (s.handOut t conn).stage t' = if t' = t then .outside else s.stage t' := fun t' => stage_goTo t'
  have hheld : ∀ t' c, c ∈ (s.handOut t conn).held t' → (t' = t ∧ c = conn) ∨ c ∈ s.held t' := by
    intro t' c hc
    simp only [handOut, Function.update_apply] at hc
    split at hc
    next heq => exact (List.mem_cons.mp hc).imp (fun h => ⟨heq, h⟩) fun h => heq ▸ h
    next => exact Or.inr hc
  constructor
  case holder => exact nofun
  case connecting =>
    intro t' h
    rw [hstage] at h
    split at h
    next => cases h
    next hne => exact absurd h (hothers t' hne)
  case awake =>
    intro t'
    rw [hstage]
    split
    · exact ⟨nofun, nofun⟩
    · exact awake t'
  case inUse =>
    intro t' c hc
    refine ListSet.mem_add.mpr ?_
    rcases hheld t' c hc with ⟨_, rfl⟩ | hc
    · exact Or.inl rfl
    · exact Or.inr (inUse t' c hc)
  case exclusive =>
    intro t' t'' c hc hc'
    rcases hheld t' c hc with ⟨rfl, rfl⟩ | hold
    · rcases hheld t'' c hc' with ⟨rfl, _⟩ | hold'
      · rfl
      · exact absurd (inUse t'' c hold') hinUse
    · rcases hheld t'' c hc' with ⟨_, rfl⟩ | hold'
      · exact absurd (inUse t' c hold) hinUse
      · exact exclusive t' t'' c hold hold'
  case created =>
    intro c
    have hadd : c ∈ (s.handOut t conn).inUse ↔ c = conn ∨ c ∈ s.inUse := ListSet.mem_add
    have hc := created c
    rw [hadd]
    change c ∈ s.created ↔ c ∈ s.pool ∨ _
    tauto
  case disjoint =>
    intro c hc
    have hadd : c ∈ (s.handOut t conn).inUse ↔ c = conn ∨ c ∈ s.inUse := ListSet.mem_add
    rw [hadd]
    rintro (rfl | h)
    · exact hpool hc
    · exact disjoint c hc h
  case nodup => exact nodup
  case bounded =>
    have hadd := ListSet.elems_add_of_not_mem hinUse
    change s.pool.length + (s.inUse.add conn).elems.length ≤ maxSize
    rw [hadd, List.length_append, List.length_singleton]
    omega

theorem Kept.enter (hk : Kept maxSize s) (hfree : s.lock = none) (hroom : s.pool = [] → s.inUse.elems.length < maxSize) :
    Kept maxSize (s.enter maxSize t) := by
  have hothers : ∀ t', s.stage t' ≠ .connecting := by
    intro t' h
    have hlock := hk.connecting t' h
    rw [hfree] at hlock
    cases hlock
  unfold ConnectionPool.enter
  split
  next conn hlast =>
    have hpool : s.pool = s.pool.dropLast ++ [conn] := (List.dropLast_append_getLast? conn hlast).symm
    have hconn : conn ∈ s.pool := List.mem_of_getLast? hlast
    have hnodup : (s.pool.dropLast ++ [conn]).Nodup := hpool ▸ hk.nodup
    have hmem : ∀ c, c ∈ s.pool ↔ c ∈ s.pool.dropLast ∨ c = conn := by
      intro c
      conv_lhs => rw [hpool]
      simp
    refine kept_handOut (fun t' _ => hothers t') hk.awake hk.inUse hk.exclusive ?_ ?_ ?_ ?_ (hk.disjoint conn hconn) ?_
    · intro c
      have hc := hk.created c
      rw [hmem] at hc
      change c ∈ s.created ↔ c ∈ s.pool.dropLast ∨ c ∈ s.inUse ∨ c = conn
      tauto
    · exact fun c hc => hk.disjoint c ((hmem c).mpr (Or.inl hc))
    · exact (List.nodup_append.mp hnodup).1
    · exact fun hc => (List.nodup_append.mp hnodup).2.2 conn hc conn (List.mem_singleton_self _) rfl
    · have hlength := congrArg List.length hpool
      have hbounded := hk.bounded
      rw [List.length_append, List.length_singleton] at hlength
      change s.pool.dropLast.length + s.inUse.elems.length < maxSize
      omega
  next hempty =>
    have hpool : s.pool = [] := List.getLast?_eq_none_iff.mp hempty
    have hlt := hroom hpool
    rw [if_pos hlt]
    refine hk.move (fun _ => rfl) ?_ ?_ ⟨nofun, nofun⟩
    · intro t' _ hlock
      rw [hfree] at hlock
      cases hlock
    · intro t' hlock
      exact Or.inl ⟨(Option.some.inj hlock).symm, rfl, hpool, hlt⟩

theorem Kept.connected (hk : Kept maxSize s) (hstage : s.stage t = .connecting) (hfresh : conn ∉ s.created) :
    Kept maxSize ({ s with created := conn :: s.created }.handOut t conn) := by
  have hlock := hk.connecting t hstage
  obtain ⟨_, hpool, hroom⟩ := hk.holder t hlock
  have hnot : ¬(conn ∈ s.pool ∨ conn ∈ s.inUse) := fun h => hfresh ((hk.created conn).mpr h)
  refine kept_handOut ?_ hk.awake hk.inUse hk.exclusive ?_ hk.disjoint hk.nodup (fun h => hnot (Or.inl h)) (fun h => hnot (Or.inr h)) ?_
  · intro t' hne h
    have hlock' := hk.connecting t' h
    rw [hlock] at hlock'
    exact hne (Option.some.inj hlock').symm
  · intro c
    have hc := hk.created c
    change c ∈ conn :: s.created ↔ c ∈ s.pool ∨ c ∈ s.inUse ∨ c = conn
    rw [List.mem_cons]
    tauto
  · change s.pool.length + s.inUse.elems.length < maxSize
    rw [hpool]
    simpa using hroom

omit [DecidableEq κ] in
theorem Kept.connectFails (hk : Kept maxSize s) (hstage : s.stage t = .connecting) :
    Kept maxSize { s.goTo t .outside with lock := none } := by
  have hlock := hk.connecting t hstage
  refine hk.move nofun ?_ nofun ⟨nofun, nofun⟩
  intro t' hne hlock'
  rw [hlock] at hlock'
  exact absurd (Option.some.inj hlock').symm hne

omit [DecidableEq τ] [DecidableEq κ] in
/-- Tasks give up some of what they hold. -/
theorem Kept.forget (hk : Kept maxSize s) {held : τ → List κ} (hsub : ∀ t c, c ∈ held t → c ∈ s.held t) :
    Kept maxSize { s with held := held } :=
  { hk with
    inUse := fun t c hc => hk.inUse t c (hsub t c hc)
    exclusive := fun t t' c hc hc' => hk.exclusive t t' c (hsub t c hc) (hsub t' c hc') }

omit [DecidableEq τ] in
/-- A connection that no task holds goes back to the pool. -/
theorem Kept.returns (hk : Kept maxSize s) (hfree : s.lock = none) (hin : conn ∈ s.inUse) (hnone : ∀ t, conn ∉ s.held t) :
    Kept maxSize { s with inUse := s.inUse.filter (· ≠ conn), pool := s.pool ++ [conn] } := by
  have hinUse : ∀ c, c ∈ s.inUse.filter (fun c => decide (c ≠ conn)) ↔ c ∈ s.inUse ∧ c ≠ conn := by
    intro c
    simp
  constructor
  case holder =>
    intro t hlock
    have hlock' : s.lock = some t := hlock
    rw [hfree] at hlock'
    cases hlock'
  case connecting => exact hk.connecting
  case awake => exact hk.awake
  case inUse =>
    intro t c hc
    refine (hinUse c).mpr ⟨hk.inUse t c hc, ?_⟩
    rintro rfl
    exact hnone t hc
  case exclusive => exact hk.exclusive
  case created =>
    intro c
    have hc := hk.created c
    change c ∈ s.created ↔ c ∈ s.pool ++ [conn] ∨ c ∈ s.inUse.filter (fun c => decide (c ≠ conn))
    rw [hinUse, List.mem_append, List.mem_singleton, hc]
    constructor
    · rintro (h | h)
      · exact Or.inl (Or.inl h)
      · by_cases heq : c = conn
        · exact Or.inl (Or.inr heq)
        · exact Or.inr ⟨h, heq⟩
    · rintro ((h | rfl) | ⟨h, _⟩)
      · exact Or.inl h
      · exact Or.inr hin
      · exact Or.inr h
  case disjoint =>
    intro c hc hc'
    obtain ⟨hold, hne⟩ := (hinUse c).mp hc'
    rcases List.mem_append.mp hc with hc | hc
    · exact hk.disjoint c hc hold
    · exact hne (List.mem_singleton.mp hc)
  case nodup =>
    refine List.nodup_append.mpr ⟨hk.nodup, List.nodup_singleton _, ?_⟩
    rintro c hc _ hc' rfl
    rw [List.mem_singleton.mp hc'] at hc
    exact hk.disjoint conn hc hin
  case bounded =>
    have hlength := ListSet.length_filter_ne s.inUse.nodup (fun _ => true) hin rfl
    have hbounded := hk.bounded
    simp only [Bool.true_and, List.filter_true] at hlength
    change (s.pool ++ [conn]).length + (s.inUse.elems.filter fun c => decide (c ≠ conn)).length ≤ maxSize
    rw [List.length_append, List.length_singleton]
    omega

theorem Kept.leave (hk : Kept maxSize s) (hfree : s.lock = none) (hown : conn ∈ s.inUse → conn ∈ s.held t) :
    Kept maxSize (s.leave t conn) := by
  have hheld : ∀ t' c, c ∈ Function.update s.held t ((s.held t).filter (· ≠ conn)) t' → c ∈ s.held t' ∧ (t' = t → c ≠ conn) := by
    intro t' c hc
    rw [Function.update_apply] at hc
    split at hc
    next heq =>
      obtain ⟨hm, hne⟩ := List.mem_filter.mp hc
      exact ⟨heq ▸ hm, fun _ => by simpa using hne⟩
    next hne => exact ⟨hc, fun heq => absurd heq hne⟩
  have hout : Kept maxSize (s.goTo t .outside) := by
    refine hk.move nofun (fun _ _ h => h) ?_ ⟨nofun, nofun⟩
    intro t' hlock
    rw [hfree] at hlock
    cases hlock
  have hgone := hout.forget fun t' c hc => (hheld t' c hc).1
  unfold ConnectionPool.leave
  dsimp only
  split
  next hin =>
    refine hgone.returns hfree hin ?_
    intro t' hc
    obtain ⟨hold, hne⟩ := hheld t' conn hc
    exact hne (hk.exclusive t' t conn hold (hown hin)) rfl
  next => exact hgone

theorem Kept.next (hk : Kept maxSize s) {a : PoolAction τ κ} (hfair : Fair maxSize s a) (hstep : Step maxSize s a s') :
    Kept maxSize s' := by
  unfold Step ConnectionPool.next at hstep
  cases a with
  | callGet t =>
    simp only [Option.ite_none_right_eq_some, Option.some.injEq] at hstep
    obtain ⟨hstage, rfl⟩ := hstep
    exact hk.goTo hstage nofun ⟨nofun, nofun⟩
  | enter t =>
    simp only [Option.ite_none_right_eq_some, Option.some.injEq] at hstep
    obtain ⟨⟨_, hfree⟩, rfl⟩ := hstep
    exact hk.enter hfree hfair
  | connected t conn =>
    simp only [Option.ite_none_right_eq_some, Option.some.injEq] at hstep
    obtain ⟨⟨hstage, hfresh⟩, rfl⟩ := hstep
    exact hk.connected hstage hfresh
  | connectFails t =>
    simp only [Option.ite_none_right_eq_some, Option.some.injEq] at hstep
    obtain ⟨hstage, rfl⟩ := hstep
    exact hk.connectFails hstage
  | wake t =>
    simp only [Option.ite_none_right_eq_some, Option.some.injEq] at hstep
    exact absurd hstep.1 (hk.awake t).1
  | callRelease t conn =>
    simp only [Option.ite_none_right_eq_some, Option.some.injEq] at hstep
    obtain ⟨hstage, rfl⟩ := hstep
    exact hk.goTo hstage nofun ⟨nofun, nofun⟩
  | leave t =>
    dsimp only at hstep
    split at hstep
    next conn hstage =>
      simp only [Option.ite_none_right_eq_some, Option.some.injEq] at hstep
      obtain ⟨hfree, rfl⟩ := hstep
      exact hk.leave hfree (hfair conn hstage)
    all_goals cases hstep

end Steps

theorem Kept.sound {maxSize : Nat} {s : ConnectionPool τ κ} (hk : Kept maxSize s) : Sound maxSize s where
  unblocked t hlock := by
    rw [(hk.holder t hlock).1]
    rfl
  proceeds t conn hstage hfull := by
    have hfree : s.lock = none := by
      cases hlock : s.lock with
      | none => rfl
      | some t' => exact absurd (hk.holder t' hlock).2.2 (not_lt.mpr hfull)
    refine ⟨s.leave t conn, ?_⟩
    simp [Step, ConnectionPool.next, hstage, hfree]
  exclusive := hk.exclusive
  placed conn hcreated := by
    rcases (hk.created conn).mp hcreated with hpool | hinUse
    · exact Or.inl ⟨hpool, hk.disjoint conn hpool⟩
    · exact Or.inr ⟨fun hpool => hk.disjoint conn hpool hinUse, hinUse⟩
  nodup := hk.nodup
  bounded := hk.bounded

/-- Between taking the lock and giving it back. -/
def holdsLock : PoolStage κ → Bool
  | .connecting | .sleeping | .retrying => true
  | .outside | .acquiring | .releasing _ => false

/-- The lock is with the one task that is inside. -/
def Locked (s : ConnectionPool τ κ) : Prop := ∀ t, s.lock = some t ↔ holdsLock (s.stage t) = true

/-- The task waits for the lock that it holds, or is about to. -/
def Blocked (t : τ) (s : ConnectionPool τ κ) : Prop := s.stage t = .sleeping ∨ s.stage t = .retrying

section Blocking

variable {maxSize : Nat} {s s' : ConnectionPool τ κ} {t : τ} {stage : PoolStage κ}

omit [DecidableEq τ] [DecidableEq κ] in
theorem locked_new : Locked (new : ConnectionPool τ κ) := fun _ => ⟨nofun, nofun⟩

omit [DecidableEq τ] [DecidableEq κ] in
theorem Locked.free (hl : Locked s) (hfree : s.lock = none) (t : τ) : holdsLock (s.stage t) = false := by
  rw [← Bool.not_eq_true, ← hl t, hfree]
  exact (Option.some_ne_none t).symm

omit [DecidableEq τ] [DecidableEq κ] in
theorem Locked.unique (hl : Locked s) (hlock : s.lock = some t) {t' : τ} (h : holdsLock (s.stage t') = true) : t' = t := by
  have hlock' := (hl t').mpr h
  rw [hlock] at hlock'
  exact (Option.some.inj hlock').symm

omit [DecidableEq κ] in
/-- A task goes in, out or stays where it is with the lock. -/
theorem Locked.move {lock : Option τ} (hself : lock = some t ↔ holdsLock stage = true)
    (hothers : ∀ t', t' ≠ t → (lock = some t' ↔ holdsLock (s.stage t') = true)) :
    ∀ t', lock = some t' ↔ holdsLock ((s.goTo t stage).stage t') = true := by
  intro t'
  rw [stage_goTo]
  split
  next heq => exact heq ▸ hself
  next hne => exact hothers t' hne

omit [DecidableEq κ] in
/-- A task stays on its side of the lock. -/
theorem Locked.stays (hl : Locked s) (h : holdsLock (s.stage t) = holdsLock stage) :
    ∀ t', s.lock = some t' ↔ holdsLock ((s.goTo t stage).stage t') = true := by
  refine Locked.move ((hl t).trans ?_) fun t' _ => hl t'
  rw [h]

omit [DecidableEq κ] in
/-- A task outside the lock, and no other inside. -/
theorem Locked.release (hself : holdsLock stage = false) (hothers : ∀ t', t' ≠ t → holdsLock (s.stage t') = false) :
    ∀ t', (none : Option τ) = some t' ↔ holdsLock ((s.goTo t stage).stage t') = true := by
  refine Locked.move ?_ fun t' hne => ?_
  · rw [hself]
    simp
  · rw [hothers t' hne]
    simp

omit [DecidableEq τ] [DecidableEq κ] in
theorem Locked.others (hl : Locked s) (h : holdsLock (s.stage t) = true) (t' : τ) (hne : t' ≠ t) : holdsLock (s.stage t') = false := by
  rw [← Bool.not_eq_true]
  exact fun h' => hne (hl.unique ((hl t).mpr h) h')

theorem Locked.next (hl : Locked s) {a : PoolAction τ κ} (hstep : Step maxSize s a s') : Locked s' := by
  unfold Step ConnectionPool.next at hstep
  cases a with
  | callGet t =>
    simp only [Option.ite_none_right_eq_some, Option.some.injEq] at hstep
    obtain ⟨hstage, rfl⟩ := hstep
    exact hl.stays (by rw [hstage]; rfl)
  | enter t =>
    simp only [Option.ite_none_right_eq_some, Option.some.injEq] at hstep
    obtain ⟨⟨_, hfree⟩, rfl⟩ := hstep
    unfold ConnectionPool.enter
    split
    next => exact Locked.release rfl fun t' _ => hl.free hfree t'
    next =>
      split
      next => exact Locked.move ⟨fun _ => rfl, fun _ => rfl⟩ fun t' hne => by simp [hl.free hfree t', Ne.symm hne]
      next => exact Locked.move ⟨fun _ => rfl, fun _ => rfl⟩ fun t' hne => by simp [hl.free hfree t', Ne.symm hne]
  | connected t conn =>
    simp only [Option.ite_none_right_eq_some, Option.some.injEq] at hstep
    obtain ⟨⟨hstage, _⟩, rfl⟩ := hstep
    exact Locked.release rfl (hl.others (by rw [hstage]; rfl))
  | connectFails t =>
    simp only [Option.ite_none_right_eq_some, Option.some.injEq] at hstep
    obtain ⟨hstage, rfl⟩ := hstep
    exact Locked.release rfl (hl.others (by rw [hstage]; rfl))
  | wake t =>
    simp only [Option.ite_none_right_eq_some, Option.some.injEq] at hstep
    obtain ⟨hstage, rfl⟩ := hstep
    exact hl.stays (by rw [hstage]; rfl)
  | callRelease t conn =>
    simp only [Option.ite_none_right_eq_some, Option.some.injEq] at hstep
    obtain ⟨hstage, rfl⟩ := hstep
    exact hl.stays (by rw [hstage]; rfl)
  | leave t =>
    dsimp only at hstep
    split at hstep
    next conn hstage =>
      simp only [Option.ite_none_right_eq_some, Option.some.injEq] at hstep
      obtain ⟨hfree, rfl⟩ := hstep
      have hmoved : ∀ t', s.lock = some t' ↔ holdsLock ((s.goTo t .outside).stage t') = true := hl.stays (by rw [hstage]; rfl)
      unfold ConnectionPool.leave
      dsimp only
      split <;> exact hmoved
    all_goals cases hstep

theorem Blocked.no_release (maxSize : Nat) (hl : Locked s) (hb : Blocked t s) (t' : τ) : ¬Step maxSize s (.leave t') s' := by
  intro hstep
  have hinside : holdsLock (s.stage t) = true := by
    rcases hb with h | h <;> rw [h] <;> rfl
  have hlock := (hl t).mpr hinside
  unfold Step ConnectionPool.next at hstep
  dsimp only at hstep
  split at hstep
  next =>
    simp only [Option.ite_none_right_eq_some, Option.some.injEq] at hstep
    rw [hlock] at hstep
    exact absurd hstep.1 nofun
  all_goals cases hstep

/-- Nothing that any task does frees a lock whose holder waits for it. -/
theorem Blocked.next (hl : Locked s) (hb : Blocked t s) {a : PoolAction τ κ} (hstep : Step maxSize s a s') : Blocked t s' := by
  have hinside : holdsLock (s.stage t) = true := by
    rcases hb with h | h <;> rw [h] <;> rfl
  have hlock := (hl t).mpr hinside
  -- a step of another task leaves this one where it is
  have hstay : ∀ {t' : τ} {stage : PoolStage κ}, (s.stage t' = .outside ∨ s.stage t' = .connecting) →
      (s.goTo t' stage).stage t = s.stage t := by
    intro t' stage hstage
    rw [stage_goTo, if_neg]
    rintro rfl
    rcases hb with h | h <;> rw [h] at hstage <;> rcases hstage with h' | h' <;> cases h'
  unfold Step ConnectionPool.next at hstep
  cases a with
  | callGet t' =>
    simp only [Option.ite_none_right_eq_some, Option.some.injEq] at hstep
    obtain ⟨hstage, rfl⟩ := hstep
    unfold Blocked
    rwa [hstay (Or.inl hstage)]
  | enter t' =>
    simp only [Option.ite_none_right_eq_some, Option.some.injEq] at hstep
    obtain ⟨⟨_, hfree⟩, _⟩ := hstep
    rw [hlock] at hfree
    cases hfree
  | connected t' conn =>
    simp only [Option.ite_none_right_eq_some, Option.some.injEq] at hstep
    obtain ⟨⟨hstage, _⟩, rfl⟩ := hstep
    change (s.goTo t' .outside).stage t = _ ∨ (s.goTo t' .outside).stage t = _
    rwa [hstay (Or.inr hstage)]
  | connectFails t' =>
    simp only [Option.ite_none_right_eq_some, Option.some.injEq] at hstep
    obtain ⟨hstage, rfl⟩ := hstep
    change (s.goTo t' .outside).stage t = _ ∨ (s.goTo t' .outside).stage t = _
    rwa [hstay (Or.inr hstage)]
  | wake t' =>
    simp only [Option.ite_none_right_eq_some, Option.some.injEq] at hstep
    obtain ⟨_, rfl⟩ := hstep
    unfold Blocked
    rw [stage_goTo]
    split
    · exact Or.inr rfl
    · exact hb
  | callRelease t' conn =>
    simp only [Option.ite_none_right_eq_some, Option.some.injEq] at hstep
    obtain ⟨hstage, rfl⟩ := hstep
    unfold Blocked
    rwa [hstay (Or.inl hstage)]
  | leave t' => exact absurd hstep (hb.no_release maxSize hl t')

/-- A `get` that finds the pool at its limit. -/
theorem enter_at_limit (hempty : s.pool = []) (hfull : ¬s.inUse.elems.length < maxSize) (hstep : Step maxSize s (.enter t) s') :
    Blocked t s' := by
  unfold Step ConnectionPool.next at hstep
  simp only [Option.ite_none_right_eq_some, Option.some.injEq] at hstep
  obtain ⟨_, rfl⟩ := hstep
  simp [ConnectionPool.enter, hempty, hfull, Blocked, goTo]

end Blocking

/-- As long as no `get` finds the pool at its limit and tasks give back only what they got,
the pool neither blocks itself nor shares a connection; once a `get` has found it at its
limit, no release ever comes to its end. -/
theorem pool_sound (τ κ : Type) [DecidableEq τ] [DecidableEq κ] (maxSize : Nat) :
    (∀ s : ConnectionPool τ κ, Visits (Step maxSize) (Fair maxSize) new s → Sound maxSize s) ∧
    ∀ (s s' s'' : ConnectionPool τ κ) (t : τ), Visits (Step maxSize) (fun _ _ => True) new s →
      s.pool = [] → ¬s.inUse.elems.length < maxSize → Step maxSize s (.enter t) s' →
      Visits (Step maxSize) (fun _ _ => True) s' s'' → ∀ t' s₃, ¬Step maxSize s'' (.leave t') s₃ := by
  constructor
  · intro s run
    have hk : Kept maxSize s := run.invariant kept_new fun hk hfair hstep => hk.next hfair hstep
    exact hk.sound
  · intro s s' s'' t run hempty hfull hstep after t' s₃
    have hl : Locked s := run.invariant locked_new fun hl _ hstep => hl.next hstep
    have hblocked : Locked s'' ∧ Blocked t s'' :=
      after.invariant (I := fun s => Locked s ∧ Blocked t s) ⟨hl.next hstep, enter_at_limit hempty hfull hstep⟩
        fun h _ hstep => ⟨h.1.next hstep, h.2.next h.1 hstep⟩
    exact hblocked.2.no_release maxSize hblocked.1 t'

section Limit

/-- One task has the only connection, another asks for one. -/
def limitActions : List (PoolAction Nat Nat) :=
  [.callGet 0, .enter 0, .connected 0 7, .callGet 1, .enter 1, .wake 1]

theorem pool_blocks_itself :
    ¬∀ s : ConnectionPool Nat Nat, Visits (Step 1) (fun _ _ => True) new s → Sound 1 s := by
  intro hall
  obtain ⟨s, hrun, hlock, hstage⟩ : ∃ s, limitActions.foldlM (ConnectionPool.next 1) (new : ConnectionPool Nat Nat) = some s ∧
      s.lock = some 1 ∧ s.stage 1 = .retrying := ⟨_, rfl, rfl, rfl⟩
  have hwaits := (hall s (Visits.ofActions hrun)).unblocked 1 hlock
  rw [hstage] at hwaits
  cases hwaits

/-- The one connection is got, given back and got by another task. -/
theorem pool_sound_in_turn : ∃ s : ConnectionPool Nat Nat, s.held 1 = [7] ∧ Sound 1 s := by
  have hroom : ∀ s : ConnectionPool Nat Nat, s.inUse.elems = [] → Fair 1 s (.enter 0) := by
    intro s hempty _
    rw [hempty]
    exact Nat.zero_lt_one
  have hown : ∀ s : ConnectionPool Nat Nat, s.stage 0 = .releasing 7 → s.held 0 = [7] → Fair 1 s (.leave 0) := by
    intro s hreleasing hheld conn hstage _
    cases hreleasing.symm.trans hstage
    rw [hheld]
    exact List.mem_singleton_self 7
  have run : Visits (Step 1) (Fair 1) (new : ConnectionPool Nat Nat) _ :=
    .next (a := .enter 1) (.next (a := .callGet 1) (.next (a := .leave 0) (.next (a := .callRelease 0 7)
      (.next (a := .connected 0 7) (.next (a := .enter 0) (.next (a := .callGet 0) .start trivial rfl) (hroom _ rfl) rfl)
        trivial rfl) trivial rfl) (hown _ rfl rfl) rfl) trivial rfl) nofun rfl
  exact ⟨_, rfl, (pool_sound Nat Nat 1).1 _ run⟩

end Limit

end ConnectionPool

end AgentNetwork.Bus
