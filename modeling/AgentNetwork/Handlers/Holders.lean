import AgentNetwork.Handlers.Reclaim

namespace AgentNetwork.Handlers

open Relational Plan Transition PlanStore Transactional

/-- A process, and the envelope that each of its handlers was called with. -/
structure Attributed (κ : Type) where
  process : Process κ
  origin : Nat → Option Stage

/-- A step of the process; an arrival is noted. -/
inductive Attributed.Step {κ : Type} (adapter : Option (TryDecide κ)) (allowed : Envelope YieldPayload → Bool)
    (s : Attributed κ) : Action κ → Attributed κ → Prop
  | receive {id : Nat} {stage : Stage} {p : Process κ} : s.process.Step adapter allowed (.receive id stage) p →
      Step adapter allowed s (.receive id stage) ⟨p, Function.update s.origin id (some stage)⟩
  | resume {id : Nat} {draws : Draws} {p : Process κ} : s.process.Step adapter allowed (.resume id draws) p →
      Step adapter allowed s (.resume id draws) ⟨p, s.origin⟩
  | elsewhere {consensus : κ} {p : Process κ} : s.process.Step adapter allowed (.elsewhere consensus) p →
      Step adapter allowed s (.elsewhere consensus) ⟨p, s.origin⟩

/-- The envelopes that give a task up. -/
def Stage.givesUp : Stage → Bool
  | .yields _ | .release _ => true
  | .claimExtended _ | .decide _ _ | .finalize _ | .appends _ _ | .getTask _ _ | .register _ _ _ => false

/-- A YIELD by the worker of the lease, or a RELEASE that names the lease. -/
def Stage.fromHolder (lease : Lease) : Stage → Prop
  | .yields envelope => envelope.senderPkB64 = lease.workerId
  | .release envelope => envelope.payload.leaseId = some lease.leaseId
  | .claimExtended _ | .decide _ _ | .finalize _ | .appends _ _ | .getTask _ _ | .register _ _ _ => False

/-- A YIELD by another sender, or a RELEASE that names another lease. -/
def Stage.foreignTo (lease : Lease) (stage : Stage) : Prop := stage.givesUp = true ∧ ¬stage.fromHolder lease

/-- The lease that was registered last for the task. -/
def currentLease (t : String) (leaseRegistry : Table String Lease) : Option Lease :=
  ((leaseRegistry.entries.map Prod.snd).filter fun lease => lease.taskId = t).getLast?

def HeldBy {κ : Type} (t : String) (lease : Lease) (node : Node κ) : Prop :=
  HasState t .decided node.planStore ∧ currentLease t node.leaseRegistry = some lease

/-- A held task goes back to DRAFT only for its holder, and what others send changes
neither its state nor a lease. -/
def HolderOnly {κ : Type} (s : Attributed κ) (a : Action κ) (s' : Attributed κ) : Prop :=
  ∀ t lease, HeldBy t lease s.process.node →
    (HasState t .draft s'.process.node.planStore →
      ∃ id draws origin, a = .resume id draws ∧ s.origin id = some origin ∧ origin.fromHolder lease) ∧
    ∀ id draws origin, a = .resume id draws → s.origin id = some origin → origin.foreignTo lease →
      HasState t .decided s'.process.node.planStore ∧ s'.process.node.leaseRegistry = s.process.node.leaseRegistry

/-- A STATE that a foreign YIELD or RELEASE is about to append for a held task, and
that the log takes, is no newer than the last one. -/
def Powerless {κ : Type} (s : Attributed κ) : Action κ → Prop
  | .resume id _ => ∀ origin op lease row store', s.origin id = some origin →
      (s.process.running id).bind Stage.append? = some op → op.opType = .state →
      HeldBy op.taskId lease s.process.node → origin.foreignTo lease →
      s.process.node.planStore.tasks.get? op.taskId = some row →
      insertOp op s.process.node.planStore = .ok store' → op.lamport ≤ row.lastLamport
  | .receive _ _ | .elsewhere _ => True

def Stage.pending : Stage → List PlanOp
  | .appends ops _ => ops
  | .claimExtended _ | .decide _ _ | .finalize _ | .release _ | .yields _ | .getTask _ _ | .register _ _ _ => []

/-- How a handler stands to the envelope it was called with: only a YIELD or a
RELEASE appends DRAFT, and it does nothing but append. -/
structure Origin (origin stage : Stage) : Prop where
  waiting : stage.givesUp = true → stage = origin
  giving : origin.givesUp = true → stage = origin ∨ ∃ ops, stage = .appends ops .finished
  states : ∀ op ∈ stage.pending, op.opType = .state → ∃ state, op.payload.get? "state" = some (.str state) ∧
    (origin.givesUp = true ↔ state = TaskState.draft.value)

section Origins

variable {κ : Type} {adapter : Option (TryDecide κ)} {allowed : Envelope YieldPayload → Bool} {draws : Draws}
  {origin stage next : Stage} {node : Node κ}

/-- A handler that is no YIELD or RELEASE goes on. -/
theorem Origin.other (horigin : origin.givesUp = false) (hnext : next.givesUp = false)
    (hstates : ∀ op ∈ next.pending, op.opType = .state →
      ∃ state, op.payload.get? "state" = some (.str state) ∧ state ≠ TaskState.draft.value) : Origin origin next where
  waiting h := by rw [hnext] at h; cases h
  giving h := by rw [horigin] at h; cases h
  states op hop hkind := by
    obtain ⟨state, hpayload, hne⟩ := hstates op hop hkind
    refine ⟨state, hpayload, fun h => ?_, fun h => absurd h hne⟩
    rw [horigin] at h
    cases h

theorem Origin.goesOn (horigin : origin.givesUp = false) (hnext : next.givesUp = false) (hpending : next.pending = []) :
    Origin origin next := by
  apply Origin.other horigin hnext
  intro op hop
  rw [hpending] at hop
  cases hop

theorem Origin.backTo {caller : Option Claim} {decided : Bool} (horigin : origin.givesUp = false)
    (hback : Handlers.backTo caller decided = some next) : Origin origin next := by
  obtain ⟨claim, _, rfl⟩ := Option.map_eq_some_iff.mp hback
  exact .goesOn horigin rfl rfl

/-- A YIELD or a RELEASE comes to its appends. -/
theorem Origin.gives {ops : List PlanOp} (horigin : origin.givesUp = true)
    (hstates : ∀ op ∈ ops, op.opType = .state → op.payload.get? "state" = some (.str TaskState.draft.value)) :
    Origin origin (.appends ops .finished) where
  waiting h := by cases h
  giving _ := Or.inr ⟨ops, rfl⟩
  states op hop hkind := ⟨_, hstates op hop hkind, fun _ => rfl, fun _ => horigin⟩

/-- Past its first stretch a YIELD or a RELEASE only appends. -/
theorem Origin.not_giving (h : Origin origin stage) (hstage : stage.givesUp = false)
    (happends : ∀ ops, stage ≠ .appends ops .finished) : origin.givesUp = false := by
  rw [← Bool.not_eq_true]
  intro hgives
  rcases h.giving hgives with heq | ⟨ops, heq⟩
  · rw [heq, hgives] at hstage
    cases hstage
  · exact happends ops heq

/-- An append done, the others are left. -/
theorem Origin.rest {op : PlanOp} {ops : List PlanOp} {continuation : Continuation}
    (h : Origin origin (.appends (op :: ops) continuation)) : Origin origin (.appends ops continuation) where
  waiting hwaits := by cases hwaits
  giving hgives := by
    rcases h.giving hgives with heq | ⟨ops', heq⟩
    · rw [← heq] at hgives
      cases hgives
    · cases heq
      exact Or.inr ⟨ops, rfl⟩
  states op' hop' := h.states op' (List.mem_cons_of_mem _ hop')

theorem decideOps_states {envelope : Envelope DecidePayload} {record : Consensus.DecideRecord} :
    ∀ op ∈ decideOps envelope record draws, op.opType = .state →
      ∃ state, op.payload.get? "state" = some (.str state) ∧ state ≠ TaskState.draft.value := by
  intro op hop hkind
  rcases List.mem_append.mp hop with hop | hop
  · obtain ⟨taskId, _, rfl⟩ := List.mem_map.mp hop
    exact ⟨TaskState.decided.value, rfl, by decide⟩
  · rw [List.mem_singleton.mp hop] at hkind
    cases hkind

theorem Origin.resume (h : Origin origin stage) (hnext : (stage.resume adapter allowed draws node).1 = some next) :
    Origin origin next := by
  cases stage with
  | claimExtended envelope =>
    have horigin := h.not_giving rfl (by intro ops hops; cases hops)
    obtain ⟨claim, _, rfl⟩ := Option.map_eq_some_iff.mp hnext
    exact .goesOn horigin rfl rfl
  | decide envelope caller =>
    have horigin := h.not_giving rfl (by intro ops hops; cases hops)
    simp only [Stage.resume, startDecide] at hnext
    split at hnext
    next =>
      split at hnext
      next => cases hnext
      next => exact .backTo horigin hnext
      next =>
        cases hnext
        exact .other horigin rfl decideOps_states
    next => exact .backTo horigin hnext
  | finalize envelope =>
    have horigin := h.not_giving rfl (by intro ops hops; cases hops)
    simp only [Stage.resume] at hnext
    split at hnext
    next => cases hnext
    next =>
      split at hnext
      next =>
        cases hnext
        refine .other horigin rfl ?_
        intro op hop hkind
        simp only [Stage.pending, finalizeOps, List.mem_cons, List.not_mem_nil, or_false] at hop
        rcases hop with rfl | rfl
        · exact ⟨TaskState.final.value, rfl, by decide⟩
        · cases hkind
      next => cases hnext
  | release envelope =>
    have horigin : origin.givesUp = true := by rw [← h.waiting rfl]; rfl
    simp only [Stage.resume] at hnext
    split at hnext
    next =>
      cases hnext
      refine .gives horigin ?_
      intro op hop hkind
      simp only [releaseOps, List.mem_cons, List.not_mem_nil, or_false] at hop
      rcases hop with rfl | rfl
      · cases hkind
      · rfl
    next => cases hnext
  | yields envelope =>
    have horigin : origin.givesUp = true := by rw [← h.waiting rfl]; rfl
    simp only [Stage.resume] at hnext
    split at hnext
    next =>
      obtain ⟨taskId, _, rfl⟩ := Option.map_eq_some_iff.mp hnext
      refine .gives horigin ?_
      intro op hop hkind
      simp only [yieldOps, List.mem_cons, List.not_mem_nil, or_false] at hop
      rcases hop with rfl | rfl
      · cases hkind
      · rfl
    next => cases hnext
  | appends ops continuation =>
    cases ops with
    | nil =>
      cases continuation with
      | finished => cases hnext
      | completeShard shardId => cases hnext
      | backToClaim claim =>
        have horigin := h.not_giving rfl (by intro ops hops; cases hops)
        cases hnext
        exact .goesOn horigin rfl rfl
    | cons op ops =>
      simp only [Stage.resume] at hnext
      split at hnext
      next =>
        cases hnext
        exact h.rest
      next => cases hnext
  | getTask claim decided =>
    have horigin := h.not_giving rfl (by intro ops hops; cases hops)
    cases hnext
    exact .goesOn horigin rfl rfl
  | register claim decided task =>
    have horigin := h.not_giving rfl (by intro ops hops; cases hops)
    simp only [Stage.resume] at hnext
    split at hnext
    next =>
      cases hnext
      refine .other horigin rfl ?_
      intro op hop hkind
      rw [List.mem_singleton.mp hop] at hkind
      cases hkind
    next => cases hnext

end Origins

section Steps

variable {κ : Type} {adapter : Option (TryDecide κ)} {allowed : Envelope YieldPayload → Bool} {s s' : Attributed κ}

/-- Every handler under way goes back to the envelope it was called with. -/
def Attributable (s : Attributed κ) : Prop :=
  ∀ id stage, s.process.running id = some stage → ∃ origin, s.origin id = some origin ∧ Origin origin stage

theorem origin_arrives {stage : Stage} (h : stage.arrives = true) : Origin stage stage where
  waiting _ := rfl
  giving _ := Or.inl rfl
  states op hop := by
    cases stage with
    | appends ops continuation => cases h
    | claimExtended envelope => cases hop
    | decide envelope caller => cases hop
    | finalize envelope => cases hop
    | release envelope => cases hop
    | yields envelope => cases hop
    | getTask claim decided => cases hop
    | register claim decided task => cases hop

theorem Attributable.step (h : Attributable s) {a : Action κ} (hstep : s.Step adapter allowed a s') : Attributable s' := by
  cases hstep with
  | @receive id stage _ hp =>
    cases hp with
    | receive _ _ hfree harrives =>
      intro i stage' hrun
      obtain ⟨rfl, hnew⟩ | ⟨hi, hold⟩ := update_some hrun
      · cases hnew
        exact ⟨_, Function.update_self .., origin_arrives harrives⟩
      · obtain ⟨origin, horigin, hstage⟩ := h i stage' hold
        exact ⟨origin, (Function.update_of_ne hi ..).trans horigin, hstage⟩
  | @resume id draws _ hp =>
    cases hp with
    | resume _ _ stage hstage hfresh =>
      intro i stage' hrun
      obtain ⟨rfl, hnext⟩ | ⟨_, hold⟩ := update_some hrun
      · obtain ⟨origin, horigin, horg⟩ := h i stage hstage
        exact ⟨origin, horigin, horg.resume hnext⟩
      · exact h i stage' hold
  | elsewhere hp =>
    cases hp with
    | elsewhere consensus => exact h

/-- A YIELD or a RELEASE registers no lease. -/
theorem Origin.grant_none {origin stage : Stage} (h : Origin origin stage) (hgives : origin.givesUp = true) (draws : Draws) :
    stage.grant draws = none := by
  rcases h.giving hgives with heq | ⟨ops, heq⟩
  · rw [heq]
    cases origin with
    | release envelope => rfl
    | yields envelope => rfl
    | claimExtended envelope => cases hgives
    | decide envelope caller => cases hgives
    | finalize envelope => cases hgives
    | appends ops continuation => cases hgives
    | getTask claim decided => cases hgives
    | register claim decided task => cases hgives
  · rw [heq]
    rfl

theorem append?_pending {stage : Stage} {op : PlanOp} (h : stage.append? = some op) : op ∈ stage.pending := by
  cases stage with
  | appends ops continuation =>
    cases ops with
    | nil => cases h
    | cons first rest =>
      cases h
      exact List.mem_cons_self ..
  | claimExtended envelope => cases h
  | decide envelope caller => cases h
  | finalize envelope => cases h
  | release envelope => cases h
  | yields envelope => cases h
  | getTask claim decided => cases h
  | register claim decided task => cases h

/-- A stretch that changes the task's state appends a newer STATE for it, which is
DRAFT exactly in the handlers of a YIELD or a RELEASE. -/
theorem Origin.resume_row {p : Process κ} {origin stage : Stage} {t : String} {row : TaskRow} (horigin : Origin origin stage)
    (hrow : p.node.planStore.tasks.get? t = some row) (adapter : Option (TryDecide κ))
    (allowed : Envelope YieldPayload → Bool) (id : Nat) (draws : Draws) :
    (p.resumed adapter allowed id draws stage).node.planStore.tasks.get? t = some row ∨
      ∃ op state store', stage.append? = some op ∧ op.opType = .state ∧ op.taskId = t ∧ row.lastLamport < op.lamport ∧
        insertOp op p.node.planStore = .ok store' ∧ (origin.givesUp = true ↔ state = TaskState.draft.value) ∧
        (p.resumed adapter allowed id draws stage).node.planStore.tasks.get? t =
          some { row with state := state, lastLamport := op.lamport } := by
  have hstretch : Stretch draws stage p.node (stage.resume adapter allowed draws p.node) := resume_stretch stage p.node
  show (stage.resume adapter allowed draws p.node).2.planStore.tasks.get? t = some row ∨ ∃ op state store', _ ∧ _ ∧ _ ∧
    _ ∧ _ ∧ _ ∧ (stage.resume adapter allowed draws p.node).2.planStore.tasks.get? t = _
  rw [hstretch.planStore]
  cases hop : stage.append? with
  | none => exact Or.inl hrow
  | some op =>
    obtain hkeep | ⟨hkind, ht, hlamport, ⟨store', hinsert⟩, json, state, hjson, hbind, hwrites⟩ := appendOp_row op hrow
    · exact Or.inl hkeep
    · obtain ⟨value, hvalue, hgives⟩ := horigin.states op (append?_pending hop) hkind
      rw [hjson] at hvalue
      rw [Option.some.inj hvalue] at hbind
      cases hbind
      exact Or.inr ⟨op, _, store', rfl, hkind, ht, hlamport, hinsert, hgives, hwrites⟩

theorem resume_leaseRegistry {p : Process κ} {stage : Stage} {draws : Draws} (h : stage.grant draws = none) (id : Nat) :
    (p.resumed adapter allowed id draws stage).node.leaseRegistry = p.node.leaseRegistry := by
  have hstretch : Stretch draws stage p.node (stage.resume adapter allowed draws p.node) := resume_stretch stage p.node
  have hregistry := hstretch.leaseRegistry
  rw [h] at hregistry
  exact hregistry

/-- A stretch that takes a decided task back to DRAFT belongs to a YIELD or a RELEASE,
which appends a newer STATE. -/
theorem resume_draft {p : Process κ} {origin stage : Stage} {id : Nat} {draws : Draws} {t : String}
    (horigin : Origin origin stage) (hdecided : HasState t .decided p.node.planStore)
    (hdraft : HasState t .draft (p.resumed adapter allowed id draws stage).node.planStore) :
    origin.givesUp = true ∧ ∃ op row store', stage.append? = some op ∧ op.opType = .state ∧ op.taskId = t ∧
      p.node.planStore.tasks.get? t = some row ∧ insertOp op p.node.planStore = .ok store' ∧
      row.lastLamport < op.lamport := by
  obtain ⟨row, hrow, hstate⟩ := hdecided
  obtain ⟨row', hrow', hstate'⟩ := hdraft
  obtain hkeep | ⟨op, state, store', hop, hkind, ht, hlamport, hinsert, hgives, hnew⟩ :=
    horigin.resume_row hrow adapter allowed id draws
  · rw [hkeep] at hrow'
    rw [← Option.some.inj hrow', hstate] at hstate'
    exact absurd hstate' (by decide)
  · rw [hnew] at hrow'
    rw [← Option.some.inj hrow'] at hstate'
    exact ⟨hgives.mpr hstate', op, row, store', hop, hkind, ht, hrow, hinsert, hlamport⟩

/-- What a step that keeps to the holders appends for others is no newer. -/
theorem HolderOnly.powerless {s' : Attributed κ} {id : Nat} {draws : Draws} {stage origin : Stage}
    (honly : HolderOnly s (.resume id draws) s') (hstage : s.process.running id = some stage)
    (horigin : s.origin id = some origin) (horg : Origin origin stage)
    (hresumed : s'.process = s.process.resumed adapter allowed id draws stage) : Powerless s (.resume id draws) := by
  intro origin' op lease row store' horigin' hop hkind hheld hforeign hrow hinsert
  rw [hstage, Option.bind_some] at hop
  rw [Option.some.inj (horigin'.symm.trans horigin)] at hforeign
  by_contra hlamport
  rw [not_le] at hlamport
  -- the STATE is DRAFT, and it is written
  obtain ⟨state, hpayload, hgives⟩ := horg.states op (append?_pending hop) hkind
  rw [hgives.mp hforeign.1] at hpayload
  have hnew := appendOp_writes hrow hkind rfl hlamport hinsert hpayload rfl
  obtain ⟨row', hrow', hdecided⟩ := ((honly op.taskId lease hheld).2 id draws origin rfl horigin hforeign).1
  have hstretch : Stretch draws stage s.process.node (stage.resume adapter allowed draws s.process.node) :=
    resume_stretch stage s.process.node
  have hplan : (s.process.resumed adapter allowed id draws stage).node.planStore =
      (s.process.node.planStore.appendOp op).2 := by
    have hplan := hstretch.planStore
    rw [hop] at hplan
    exact hplan
  rw [hresumed, hplan, hnew] at hrow'
  rw [← Option.some.inj hrow'] at hdecided
  change TaskState.draft.value = TaskState.decided.value at hdecided
  exact absurd hdecided (by decide)

theorem Powerless.holderOnly {s' : Attributed κ} {id : Nat} {draws : Draws} {stage origin : Stage}
    (hpowerless : Powerless s (.resume id draws)) (hstage : s.process.running id = some stage)
    (horigin : s.origin id = some origin) (horg : Origin origin stage)
    (hresumed : s'.process = s.process.resumed adapter allowed id draws stage) : HolderOnly s (.resume id draws) s' := by
  intro t lease hheld
  rw [hresumed]
  have hnot : origin.foreignTo lease →
      ¬HasState t .draft (s.process.resumed adapter allowed id draws stage).node.planStore := by
    intro hforeign hdraft
    obtain ⟨_, op, row, store', hop, hkind, rfl, hrow, hinsert, hlamport⟩ := resume_draft horg hheld.1 hdraft
    have hle := hpowerless origin op lease row store' horigin (by rw [hstage]; exact hop) hkind hheld hforeign hrow
      hinsert
    omega
  refine ⟨fun hdraft => ⟨id, draws, origin, rfl, horigin, ?_⟩, ?_⟩
  · by_contra hholder
    exact hnot ⟨(resume_draft horg hheld.1 hdraft).1, hholder⟩ hdraft
  · intro id' draws' origin' ha horigin' hforeign
    cases ha
    rw [Option.some.inj (horigin'.symm.trans horigin)] at hforeign
    obtain ⟨row, hrow, hdecided⟩ := hheld.1
    refine ⟨?_, resume_leaseRegistry (horg.grant_none hforeign.1 draws) id⟩
    obtain hkeep | ⟨op, state, _, _, _, _, _, _, hgives, hnew⟩ := horg.resume_row hrow adapter allowed id draws
    · exact ⟨row, hkeep, hdecided⟩
    · exact absurd ⟨_, hnew, hgives.mp hforeign.1⟩ (hnot hforeign)

/-- A step keeps to the holders exactly if foreign YIELDs and RELEASEs are powerless in it. -/
theorem Attributable.holderOnly_iff (h : Attributable s) {a : Action κ} (hstep : s.Step adapter allowed a s') :
    HolderOnly s a s' ↔ Powerless s a := by
  cases hstep with
  | @receive id stage _ hp =>
    cases hp with
    | receive _ _ hfree harrives =>
      refine ⟨fun _ => trivial, fun _ t lease hheld => ⟨fun hdraft => ?_, fun _ _ _ ha => ?_⟩⟩
      · exact absurd hdraft (not_draft_of_decided hheld.1)
      · cases ha
  | elsewhere hp =>
    cases hp with
    | elsewhere consensus =>
      refine ⟨fun _ => trivial, fun _ t lease hheld => ⟨fun hdraft => ?_, fun _ _ _ ha => ?_⟩⟩
      · exact absurd hdraft (not_draft_of_decided hheld.1)
      · cases ha
  | @resume id draws _ hp =>
    cases hp with
    | resume _ _ stage hstage hfresh =>
      obtain ⟨origin, horigin, horg⟩ := h id stage hstage
      constructor
      · intro honly
        exact honly.powerless hstage horigin horg rfl
      · intro hpowerless
        exact hpowerless.holderOnly hstage horigin horg rfl

/-- In every run whose steps leave foreign YIELDs and RELEASEs powerless, every step
keeps to the holders; and at any point of any run a step does so exactly if it leaves
them powerless. -/
theorem holder_only {start : Attributed κ} (hidle : ∀ id, start.process.running id = none) :
    (∀ s, Visits (Attributed.Step adapter allowed) Powerless start s →
      Visits (fun s a s' => Attributed.Step adapter allowed s a s' ∧ HolderOnly s a s') (fun _ _ => True) start s) ∧
    ∀ s a s', Visits (Attributed.Step adapter allowed) (fun _ _ => True) start s →
      Attributed.Step adapter allowed s a s' → (HolderOnly s a s' ↔ Powerless s a) := by
  have hstart : Attributable start := by
    intro id stage hrun
    rw [hidle] at hrun
    cases hrun
  have hattributable : ∀ {ok : Attributed κ → Action κ → Prop} {s}, Visits (Attributed.Step adapter allowed) ok start s →
      Attributable s := by
    intro ok s hrun
    exact hrun.invariant hstart fun hs _ hstep => hs.step hstep
  constructor
  · intro s hrun
    induction hrun with
    | start => exact .start
    | next hrun hok hstep ih => exact .next ih trivial ⟨hstep, ((hattributable hrun).holderOnly_iff hstep).mpr hok⟩
  · intro s a s' hrun hstep
    exact (hattributable hrun).holderOnly_iff hstep

end Steps

/-- A node on which the first worker holds the task, with nothing under way. -/
def heldStart : Attributed Consensus.Etcd := ⟨⟨claimedNode, fun _ => none, [], fun _ => 0⟩, fun _ => none⟩

def heldLease : Lease := (claimOf "worker-a" 2).lease (numberedRun "a" 6)

theorem powerless_resume {s : Attributed Consensus.Etcd} {id : Nat} {draws : Draws} {origin : Stage}
    (horigin : s.origin id = some origin) (hregistry : s.process.node.leaseRegistry = claimedNode.leaseRegistry)
    (hholder : origin.fromHolder heldLease) : Powerless s (.resume id draws) := by
  intro origin' op lease row store' horigin' _ _ hheld hforeign _ _
  rw [← Option.some.inj (horigin.symm.trans horigin')] at hforeign
  have hlease : lease = heldLease := by
    have hcurrent := hheld.2
    rw [hregistry] at hcurrent
    have hmem := List.mem_filter.mp (List.mem_of_getLast? hcurrent)
    exact List.mem_singleton.mp hmem.1
  rw [hlease] at hforeign
  exact absurd hholder hforeign.2

def yieldBy (worker : String) (lamport : Int) : Stage := .yields ⟨"north", worker, lamport, ⟨some "task", none⟩⟩

/-- The holder gives the task up. -/
theorem holder_only_yield : ∃ s,
    Visits (fun s a s' => Attributed.Step (none : Option (TryDecide Consensus.Etcd)) (fun _ => true) s a s' ∧ HolderOnly s a s')
      (fun _ _ => True) heldStart s ∧ HasState "task" .draft s.process.node.planStore := by
  have hholder : (yieldBy "worker-a" 7).fromHolder heldLease := rfl
  have hreceive : Visits (Attributed.Step (none : Option (TryDecide Consensus.Etcd)) fun _ => true) Powerless heldStart _ :=
    .next .start (show Powerless heldStart (.receive 1 (yieldBy "worker-a" 7)) from trivial)
      (.receive (.receive 1 (yieldBy "worker-a" 7) rfl rfl))
  have hstart := Visits.next hreceive (powerless_resume rfl rfl hholder) (.resume (.resume 1 (numbered "y") _ rfl rfl))
  have hnote := Visits.next hstart (powerless_resume rfl rfl hholder) (.resume (.resume 1 (numbered "y") _ rfl rfl))
  have hdraft := Visits.next hnote (powerless_resume rfl rfl hholder) (.resume (.resume 1 (numbered "y") _ rfl rfl))
  exact ⟨_, (holder_only fun _ => rfl).1 _ hdraft, ⟨_, rfl, rfl⟩⟩

/-- A RELEASE that names no lease of the task takes it away from its holder. -/
theorem foreign_release_takes_task : ∃ s a s',
    Visits (Attributed.Step (none : Option (TryDecide Consensus.Etcd)) fun _ => true) (fun _ _ => True) heldStart s ∧
    Attributed.Step none (fun _ => true) s a s' ∧ HeldBy "task" heldLease s.process.node ∧
    HasState "task" .draft s'.process.node.planStore ∧ ¬HolderOnly s a s' := by
  have hreceive : Visits (Attributed.Step (none : Option (TryDecide Consensus.Etcd)) fun _ => true) (fun _ _ => True) heldStart _ :=
    .next .start trivial (.receive (.receive 1 (.release ⟨"north", "monitor", 7, ⟨some "task", some "earlier", none⟩⟩) rfl rfl))
  have hstart := Visits.next hreceive trivial (.resume (.resume 1 (numbered "r") _ rfl rfl))
  have hnote := Visits.next hstart trivial (.resume (.resume 1 (numbered "r") _ rfl rfl))
  refine ⟨_, _, _, hnote, .resume (.resume 1 (numbered "r") _ rfl rfl), ⟨⟨_, rfl, rfl⟩, rfl⟩, ⟨_, rfl, rfl⟩, ?_⟩
  intro honly
  obtain ⟨id, draws, origin, ha, horigin, hholder⟩ := (honly "task" heldLease ⟨⟨_, rfl, rfl⟩, rfl⟩).1 ⟨_, rfl, rfl⟩
  cases ha
  cases horigin
  have hname : "earlier" = heldLease.leaseId := Option.some.inj hholder
  exact absurd hname (by decide)

end AgentNetwork.Handlers
