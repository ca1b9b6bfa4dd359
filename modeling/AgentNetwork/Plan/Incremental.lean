import AgentNetwork.Plan.Convergence

namespace AgentNetwork.Plan

open Relational StableSort PlanOp AutomergePlanStore

/-- A run of appends, in the order in which the operations arrive. -/
def appendAll (ops : List PlanOp) (store : AutomergePlanStore) : AutomergePlanStore :=
  ops.foldl (fun store op => (appendOp op store).2) store

/-- What sorting the log by lamport and rebuilding from it makes of the document. -/
def replayed (store : AutomergePlanStore) : Except PlanError Unit × CRDTDocument :=
  match sortByLamport store.doc.ops with
  | .error e => (.error e, store.doc)
  | .ok sorted => rebuildStateFromOps { store.doc with ops := sorted }

/-- The tasks, annotations and edges of two documents are the same. -/
structure SameState (a b : CRDTDocument) : Prop where
  tasks : ∀ t, a.tasks.get? t = b.tasks.get? t
  annotations : ∀ t k, a.annotationOf t k = b.annotationOf t k
  annotated : ∀ t, a.annotations.contains t = b.annotations.contains t
  edges : ∀ p c, a.HasEdge p c ↔ b.HasEdge p c

/-- The operation that made the task exist when it arrived. -/
def firstOf (t : String) (log : List PlanOp) : Option PlanOp := (log.filter (creates t)).head?

/-- The first operation to make the task gives it the thread and the type of the
one with the lowest lamport and, where it is an ADD_TASK with another lamport, a
STATE above it has set the clock of the task since. -/
def ArrivalAgrees (t : String) (log : List PlanOp) : Prop :=
  ∀ first ∈ firstOf t log, ∀ low ∈ creatorOf t log, first.threadId = low.threadId ∧ first.typeValue = low.typeValue ∧
    (first.opType = .addTask → first = low ∨ ∃ s ∈ log, s.setsState t = true ∧ first.lamport < s.lamport)

section Arrival

variable {log : List PlanOp} {t : String} {first low : PlanOp}

theorem firstOf_some (h : firstOf t log = some first) : first ∈ log ∧ first.creates t = true :=
  List.mem_filter.mp (List.mem_of_mem_head? h)

theorem taskId_of_creates {op : PlanOp} (h : op.creates t = true) : op.taskId = t := by
  simp only [creates, decide_eq_true_eq] at h
  exact h.1

theorem setsState_of_creates {op : PlanOp} (h : op.creates t = true) (hadd : op.opType ≠ .addTask) :
    op.setsState t = true := by
  simp only [creates, decide_eq_true_eq] at h
  simp only [setsState, decide_eq_true_eq]
  exact ⟨h.1, h.2.resolve_left hadd⟩

/-- Where no STATE above it came, the task keeps the clock of its first operation. -/
theorem settle_lastLamport_self {last : Option PlanOp} (h : ∀ w ∈ last, w.lamport ≤ first.lamport) :
    settle (some first) last = some first.toTask := by
  cases last with
  | none => rfl
  | some w =>
    have hle := h w rfl
    simp only [settle]
    rw [if_neg (by omega)]

/-- A creator below the first one leaves the same task behind exactly when the
thread and the type agree and a STATE decides the rest. -/
theorem settle_first_eq_iff (hd : Distinct log) (hf : firstOf t log = some first) (hl : creatorOf t log = some low) :
    settle (some first) (lastStateOf t log) = settle (some low) (lastStateOf t log) ↔
      first.threadId = low.threadId ∧ first.typeValue = low.typeValue ∧
        (first.opType = .addTask → first = low ∨ ∃ s ∈ log, s.setsState t = true ∧ first.lamport < s.lamport) := by
  obtain ⟨hfm, hfc⟩ := firstOf_some hf
  obtain ⟨hlm, hlc, hlow⟩ := creatorOf_some hl
  have hid : first.taskId = low.taskId := (taskId_of_creates hfc).trans (taskId_of_creates hlc).symm
  by_cases heq : first = low
  · simp [heq]
  have hlt : low.lamport < first.lamport := by
    have hle := hlow first hfm hfc
    have hne : low.lamport ≠ first.lamport := fun h => heq (hd low hlm first hfm h).symm
    omega
  cases hw : lastStateOf t log with
  | none =>
    have hnone := lastStateOf_none.mp hw
    have hadd : first.opType = .addTask := by
      by_contra h
      exact hnone first hfm (setsState_of_creates hfc h)
    constructor
    · intro h
      have hclock : first.lamport = low.lamport := congrArg Task.lastLamport (Option.some.inj h)
      omega
    · rintro ⟨_, _, h⟩
      obtain he | ⟨s, hs, hset, _⟩ := h hadd
      · exact absurd he heq
      · exact absurd hset (hnone s hs)
  | some w =>
    obtain ⟨hwm, hws, hmax⟩ := lastStateOf_some hw
    have hlw := hlow w hwm (creates_of_setsState hws)
    by_cases hfw : first.lamport < w.lamport
    · -- both tasks end with the state and the clock of `w`
      simp only [settle, if_pos hfw, if_pos (hlt.trans hfw), toTask, Option.some.injEq, Task.mk.injEq, hid, true_and,
        and_true]
      have hlast : ∃ s ∈ log, s.setsState t = true ∧ first.lamport < s.lamport := ⟨w, hwm, hws, hfw⟩
      simp [hlast]
    · have hself : settle (some first) (some w) = some first.toTask :=
        settle_lastLamport_self fun x hx => by
          cases Option.mem_some.mp hx
          omega
      have hnotAbove : ¬∃ s ∈ log, s.setsState t = true ∧ first.lamport < s.lamport := by
        rintro ⟨s, hs, hset, habove⟩
        have hsw := hmax s hs hset
        omega
      rw [hself]
      by_cases hadd : first.opType = .addTask
      · have hne : w.lamport ≠ first.lamport := by
          intro h
          have hwf := hd w hwm first hfm h
          simp only [setsState, decide_eq_true_eq] at hws
          rw [hwf, hadd] at hws
          exact absurd hws.2 (by decide)
        constructor
        · intro h
          -- the clock of the task made by `low` stays below that of `first`
          exfalso
          by_cases hlw' : low.lamport < w.lamport
          · rw [settle, if_pos hlw'] at h
            have hclock : first.lamport = w.lamport := congrArg Task.lastLamport (Option.some.inj h)
            omega
          · rw [settle, if_neg hlw'] at h
            have hclock : first.lamport = low.lamport := congrArg Task.lastLamport (Option.some.inj h)
            omega
        · rintro ⟨_, _, h⟩
          obtain he | habove := h hadd
          · exact absurd he heq
          · exact absurd habove hnotAbove
      · -- the first operation is itself the latest STATE
        have hfs := setsState_of_creates hfc hadd
        have hwf : first = w := hd first hfm w hwm (le_antisymm (hmax first hfm hfs) (by omega))
        subst hwf
        rw [settle, if_pos hlt]
        simp [toTask, hid, hadd]

theorem firstOf_eq_none_iff : firstOf t log = none ↔ creatorOf t log = none := by
  rw [firstOf, creatorOf, List.head?_eq_none_iff, firstLeast_eq_none]

theorem settle_eq_iff_arrivalAgrees (hd : Distinct log) :
    settle (firstOf t log) (lastStateOf t log) = settle (creatorOf t log) (lastStateOf t log) ↔ ArrivalAgrees t log := by
  unfold ArrivalAgrees
  cases hf : firstOf t log with
  | none => simp [firstOf_eq_none_iff.mp hf]
  | some first =>
    cases hl : creatorOf t log with
    | none => exact absurd (firstOf_eq_none_iff.mpr hl) (by simp [hf])
    | some low =>
      rw [settle_first_eq_iff hd hf hl]
      constructor
      · intro h x hx y hy
        cases Option.mem_some.mp hx
        cases Option.mem_some.mp hy
        exact h
      · exact fun h => h first rfl low rfl

end Arrival

/-- A document built in the order of the log and one built in lamport order are
the same exactly when every task got its thread, type and clock in either order. -/
theorem sameState_sorted_iff {log : List PlanOp} {a b : CRDTDocument} (hd : Distinct log) (ha : Shows log a)
    (hb : Shows (sortOn PlanOp.lamport log) b) : SameState a b ↔ ∀ t, ArrivalAgrees t log := by
  have htask (t : String) : a.tasks.get? t = b.tasks.get? t ↔ ArrivalAgrees t log := by
    rw [ha.tasks, foldl_taskStep, hb.sorted_task, ← settle_eq_iff_arrivalAgrees hd]
    rfl
  constructor
  · exact fun h t => (htask t).mp (h.tasks t)
  · intro h
    refine ⟨fun t => (htask t).mpr (h t), ?_, ?_, ?_⟩
    · intro t k
      rw [ha.annotations, foldl_annotationStep, hb.sorted_annotationOf]
      rfl
    · intro t
      rw [Bool.eq_iff_iff, ha.annotated, hb.annotated]
      simp only [mem_sortOn]
    · intro p c
      rw [ha.edges, hb.sorted_edge]

theorem appendAll_holds {ops : List PlanOp} {log : List PlanOp} {store : AutomergePlanStore} (h : Holds log store)
    (hs : Shows log store.doc) (hw : ∀ op ∈ ops, op.WellFormed) :
    ∃ log', Holds log' (appendAll ops store) ∧ Shows log' (appendAll ops store).doc ∧ ∀ x ∈ log', x ∈ log ∨ x ∈ ops := by
  induction ops generalizing log store with
  | nil => exact ⟨log, h, hs, fun x hx => Or.inl hx⟩
  | cons op ops ih =>
    obtain ⟨store', happend, hholds, hshows⟩ := h.append hs (hw op List.mem_cons_self)
    obtain ⟨log', hholds', hshows', hmem⟩ := ih hholds hshows fun x hx => hw x (List.mem_cons_of_mem op hx)
    have hrun : appendAll (op :: ops) store = appendAll ops store' := by
      rw [appendAll, List.foldl_cons, happend]
      rfl
    rw [hrun]
    refine ⟨log', hholds', hshows', ?_⟩
    intro x hx
    obtain hx | hx := hmem x hx
    · obtain hx | ⟨hx, _⟩ := mem_union.mp hx
      · exact Or.inl hx
      · exact Or.inr (by rw [List.mem_singleton.mp hx]; exact List.mem_cons_self)
    · exact Or.inr (List.mem_cons_of_mem op hx)

theorem Holds.replayed {log : List PlanOp} {store : AutomergePlanStore} (h : Holds log store) :
    ∃ doc, replayed store = (.ok (), doc) ∧ Shows (sortOn PlanOp.lamport log) doc := by
  obtain ⟨doc, hrebuild, hshows, _, _⟩ := rebuild_sorted h.wellFormed store.doc
  have hsort : sortByLamport store.doc.ops = .ok ((sortOn PlanOp.lamport log).map toDict) := by
    rw [h.ops, sortByLamport_toDict]
  refine ⟨doc, ?_, hshows⟩
  rw [Plan.replayed, hsort]
  exact hrebuild

/-- An empty peer, and the store itself, have nothing that the log lacks. -/
theorem union_of_known {log peerLog : List PlanOp} (h : ∀ op ∈ peerLog, op ∈ log) : union log peerLog = log := by
  have hnil : unseen log peerLog = [] := by
    rw [unseen, List.filter_eq_nil_iff]
    intro op hm
    simpa using ⟨op, h op hm, rfl⟩
  rw [union, hnil, List.append_nil]

/-- Appending keeps the state that a replay in lamport order would give exactly
when the order of arrival agrees on every task; a merge that brings nothing new
is such a replay. -/
theorem incremental_eq_replayed_iff {ops : List PlanOp} (hw : ∀ op ∈ ops, op.WellFormed) (hd : Distinct ops)
    {store : AutomergePlanStore} (hrun : store = appendAll ops init) :
    (replayed store).1 = .ok () ∧
      (SameState store.doc (replayed store).2 ↔ ∀ t, ArrivalAgrees t (logOf store)) ∧
      ∀ peer, peer = getSaveData init ∨ peer = getSaveData store → (mergeWithPeer peer store).1 = .ok () ∧
        (SameState store.doc (mergeWithPeer peer store).2.doc ↔ ∀ t, ArrivalAgrees t (logOf store)) := by
  obtain ⟨log, hholds, hshows, hmem⟩ := appendAll_holds holds_init (shows_nil init.doc) hw
  rw [← hrun] at hholds hshows
  have hops : ∀ x ∈ log, x ∈ ops := fun x hx => (hmem x hx).resolve_left (by simp)
  have hdistinct : Distinct log := fun x hx y hy => hd x (hops x hx) y (hops y hy)
  rw [hholds.logOf_eq]
  refine ⟨?_, ?_, ?_⟩
  · obtain ⟨doc, hreplay, _⟩ := hholds.replayed
    rw [hreplay]
  · obtain ⟨doc, hreplay, hsorted⟩ := hholds.replayed
    rw [hreplay]
    exact sameState_sorted_iff hdistinct hshows hsorted
  · intro peer hpeer
    have hknown : ∃ peerLog : List PlanOp, peer.ops = peerLog.map toDict ∧ ∀ op ∈ peerLog, op ∈ log := by
      obtain rfl | rfl := hpeer
      · exact ⟨[], rfl, by simp⟩
      · exact ⟨log, hholds.ops, fun _ h => h⟩
    obtain ⟨peerLog, hpeerOps, hsub⟩ := hknown
    obtain ⟨store', hmerge, _, hsorted⟩ := hholds.merge hpeerOps fun op hm => hholds.wellFormed op (hsub op hm)
    rw [union_of_known hsub] at hsorted
    rw [hmerge]
    exact ⟨rfl, sameState_sorted_iff hdistinct hshows hsorted⟩

/-- Operations that arrive in lamport order agree on every task. -/
theorem arrivalAgrees_of_pairwise {log : List PlanOp} (h : log.Pairwise fun a b => a.lamport ≤ b.lamport) (t : String) :
    ArrivalAgrees t log := by
  have hsame : firstOf t log = creatorOf t log := by
    rw [firstOf, ← sortOn_eq_self PlanOp.lamport h, filter_sortOn, head?_sortOn, sortOn_eq_self PlanOp.lamport h]
    rfl
  intro first hf low hl
  have heq : first = low := by
    have hs : some first = some low := by rw [← hf, ← hl, hsame]
    exact Option.some.inj hs
  exact ⟨by rw [heq], by rw [heq], fun _ => Or.inl heq⟩

/-- Two additions of one task in lamport order. -/
theorem incremental_eq_replayed_iff_in_order :
    let store := appendAll [sampleOp "a" "north" 1 .addTask, sampleOp "b" "south" 2 .addTask] init
    SameState store.doc (replayed store).2 := by
  intro store
  have hw : ∀ op ∈ [sampleOp "a" "north" 1 .addTask, sampleOp "b" "south" 2 .addTask], op.WellFormed := by
    intro op hm
    obtain rfl | hm := List.mem_cons.mp hm
    · exact sampleOp_wellFormed "a" "north" 1
    · rw [List.mem_singleton.mp hm]
      exact sampleOp_wellFormed "b" "south" 2
  have hd : Distinct [sampleOp "a" "north" 1 .addTask, sampleOp "b" "south" 2 .addTask] := by
    unfold Distinct
    decide
  have hlog : logOf store = [sampleOp "a" "north" 1 .addTask, sampleOp "b" "south" 2 .addTask] := by decide
  refine (incremental_eq_replayed_iff hw hd rfl).2.1.mpr ?_
  rw [hlog]
  exact arrivalAgrees_of_pairwise (by decide)

/-- A STATE that arrives before its ADD_TASK keeps its own thread and no type. -/
theorem incremental_loses_type :
    let early : PlanOp := { sampleOp "a" "north" 5 .state with payload := .upsert .empty "state" (.str "DECIDED") }
    let late : PlanOp := { sampleOp "b" "south" 3 .addTask with payload := .upsert .empty "type" (.str "plan") }
    let store := appendAll [early, late] init
    early.WellFormed ∧ late.WellFormed ∧ Distinct [early, late] ∧ ¬ SameState store.doc (replayed store).2 ∧
      ¬ SameState store.doc (mergeWithPeer (getSaveData init) store).2.doc := by
  intro early late store
  refine ⟨⟨fun _ => ⟨.str "DECIDED", by decide⟩, nofun⟩, ⟨nofun, nofun⟩, ?_, ?_, ?_⟩
  · unfold Distinct
    decide
  · intro h
    have htask := h.tasks "task"
    revert htask
    decide
  · intro h
    have htask := h.tasks "task"
    revert htask
    decide

end AgentNetwork.Plan
