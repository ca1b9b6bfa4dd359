import AgentNetwork.Handlers.FinalState
import AgentNetwork.Library.Traces

namespace AgentNetwork.Handlers

open Relational Plan Transition Consensus

/-- Whether `get_task` found the task DECIDED. -/
def isDecided (task : Option TaskView) : Bool := task.any (·.state = .str TaskState.decided.value)

/-- All leases ever registered for a task belong to one worker. -/
def OneWorker {κ : Type} (p : Process κ) : Prop :=
  ∀ g ∈ p.granted, ∀ g' ∈ p.granted, g.1.taskId = g'.1.taskId → g.1.workerId = g'.1.workerId

/-- Every lease was registered for a claim whose own `try_decide` returned a record. -/
def OwnDecide {κ : Type} (p : Process κ) : Prop := ∀ g ∈ p.granted, g.2.2 = true

/-- No lease of another worker has been registered for the task between the lock
check of a claim and its registration, and a claim whose DECIDE was refused does not
find its task DECIDED. -/
def Undisturbed {κ : Type} (p : Process κ) : Action κ → Prop
  | .resume id _ =>
    (∀ claim decided task, p.running id = some (.register claim decided task) → isDecided task = true →
      ∀ g ∈ p.granted.drop (p.checkedAt id), g.1.taskId = claim.taskId → g.1.workerId = claim.workerId) ∧
    ∀ claim, p.running id = some (.getTask claim false) → isDecided (p.node.planStore.getTask claim.taskId) = false
  | .receive _ _ | .elsewhere _ => True

section Registry

variable {t id : String} {registry : Table String Lease} {lease : Lease} {claim : Claim} {draws : Draws} {stage : Stage}

theorem findTaskLease_some (h : findTaskLease t registry = some lease) :
    lease.taskId = t ∧ ∃ id, registry.get? id = some lease := by
  obtain ⟨entry, hm, hlease⟩ := List.mem_map.mp (List.mem_of_find?_eq_some h)
  have hfound := List.find?_some h
  refine ⟨of_decide_eq_true hfound, entry.1, ?_⟩
  rw [Table.get?_eq_some_iff, ← hlease]
  exact hm

theorem findTaskLease_of_get? (h : registry.get? id = some lease) (ht : lease.taskId = t) :
    ∃ found, findTaskLease t registry = some found := by
  cases hfound : findTaskLease t registry with
  | some found => exact ⟨found, rfl⟩
  | none =>
    have hm : lease ∈ registry.entries.map Prod.snd := List.mem_map.mpr ⟨(id, lease), Table.get?_eq_some_iff.mp h, rfl⟩
    have hnot := List.find?_eq_none.mp hfound lease hm
    exact absurd (decide_eq_true ht) hnot

/-- The lease that a claim finds at its lock check is its own worker's. -/
theorem admitClaim_lease {envelope : Envelope ClaimPayload} (h : admitClaim envelope registry = some claim)
    (hfound : findTaskLease claim.taskId registry = some lease) : lease.workerId = claim.workerId := by
  simp only [admitClaim, Option.bind_eq_bind, Option.bind_eq_some_iff] at h
  obtain ⟨taskId, _, leaseTtl, _, hchecks⟩ := h
  split at hchecks
  next => cases hchecks
  next =>
    split at hchecks
    next => cases hchecks
    next =>
      split at hchecks
      next => cases hchecks
      next =>
        split at hchecks
        next => cases hchecks
        next hlock =>
          rw [← Option.some.inj hchecks] at hfound ⊢
          dsimp only at hfound ⊢
          rw [hfound] at hlock
          simpa using hlock

theorem grant_register {g : Lease × Claim × Bool} (h : stage.grant draws = some g) :
    ∃ task, stage = .register g.2.1 g.2.2 task ∧ isDecided task = true ∧ g.1 = g.2.1.lease draws := by
  cases stage with
  | register c decided task =>
    simp only [Stage.grant] at h
    split at h
    next ht =>
      rw [← Option.some.inj h]
      exact ⟨task, rfl, ht, rfl⟩
    next => cases h
  | claimExtended envelope => cases h
  | decide envelope caller => cases h
  | finalize envelope => cases h
  | release envelope => cases h
  | yields envelope => cases h
  | appends ops next => cases h
  | getTask c decided => cases h

end Registry

/-- The registry holds the leases that were registered, a claim under way has met at
its lock check only leases of its own worker, and a refused claim has not found its
task DECIDED. -/
structure Leasing {κ : Type} (p : Process κ) : Prop where
  registered : ∀ g ∈ p.granted, p.node.leaseRegistry.get? g.1.leaseId = some g.1
  known : ∀ id lease, p.node.leaseRegistry.get? id = some lease → ∃ g ∈ p.granted, g.1 = lease
  checked : ∀ id stage claim, p.running id = some stage → stage.claim? = some claim →
    p.checkedAt id ≤ p.granted.length ∧
    ∀ g ∈ p.granted.take (p.checkedAt id), g.1.taskId = claim.taskId → g.1.workerId = claim.workerId
  refused : ∀ id claim task, p.running id = some (.register claim false task) → isDecided task = false
  oneWorker : OneWorker p
  ownDecide : OwnDecide p

section Steps

variable {κ : Type} {adapter : Option (TryDecide κ)} {allowed : Envelope YieldPayload → Bool} {p p' : Process κ}

theorem update_some {f : Nat → Option Stage} {id i : Nat} {value : Option Stage} {stage : Stage}
    (h : Function.update f id value i = some stage) : (i = id ∧ value = some stage) ∨ (i ≠ id ∧ f i = some stage) := by
  by_cases hi : i = id
  · subst hi
    rw [Function.update_self] at h
    exact Or.inl ⟨rfl, h⟩
  · rw [Function.update_of_ne hi] at h
    exact Or.inr ⟨hi, h⟩

/-- The leases of its task that the registry shows to a claim at its lock check are
all of its worker. -/
theorem Leasing.admitted (h : Leasing p) {envelope : Envelope ClaimPayload} {claim : Claim}
    (hadmits : admitClaim envelope p.node.leaseRegistry = some claim) :
    ∀ g ∈ p.granted, g.1.taskId = claim.taskId → g.1.workerId = claim.workerId := by
  intro g hg ht
  obtain ⟨found, hfound⟩ := findTaskLease_of_get? (h.registered g hg) ht
  obtain ⟨htask, id, hget⟩ := findTaskLease_some hfound
  obtain ⟨g', hg', hlease⟩ := h.known id found hget
  have hsame := h.oneWorker g hg g' hg' (by rw [hlease, ht, htask])
  rw [hsame, hlease]
  exact admitClaim_lease hadmits hfound

/-- Only a claim at its lock check marks how many leases it has seen. -/
theorem checkedAt_resumed (id : Nat) (draws : Draws) (stage : Stage) (i : Nat) :
    (p.resumed adapter allowed id draws stage).checkedAt i = p.checkedAt i ∨
      i = id ∧ ∃ envelope, stage = .claimExtended envelope := by
  cases stage with
  | claimExtended envelope =>
    by_cases hi : i = id
    · subst hi
      exact Or.inr ⟨rfl, envelope, rfl⟩
    · exact Or.inl (Function.update_of_ne hi _ _)
  | decide _ _ => exact Or.inl rfl
  | finalize _ => exact Or.inl rfl
  | release _ => exact Or.inl rfl
  | yields _ => exact Or.inl rfl
  | appends _ _ => exact Or.inl rfl
  | getTask _ _ => exact Or.inl rfl
  | register _ _ _ => exact Or.inl rfl

/-- What a handler has seen of the leases stays true while others go on. -/
theorem Leasing.checked_resumed (h : Leasing p) {id : Nat} {draws : Draws} {stage : Stage}
    (hstage : p.running id = some stage) (i : Nat) (stage' : Stage) (claim : Claim)
    (hrun : (p.resumed adapter allowed id draws stage).running i = some stage') (hc : stage'.claim? = some claim) :
    (p.resumed adapter allowed id draws stage).checkedAt i ≤ p.granted.length ∧
    ∀ g ∈ p.granted.take ((p.resumed adapter allowed id draws stage).checkedAt i),
      g.1.taskId = claim.taskId → g.1.workerId = claim.workerId := by
  have hstretch : Stretch draws stage p.node (stage.resume adapter allowed draws p.node) := resume_stretch stage p.node
  have hmark := @checkedAt_resumed κ adapter allowed p id draws stage i
  obtain ⟨hi, hnext⟩ | ⟨hi, hold⟩ := update_some hrun
  · obtain hsame | ⟨envelope, hclaim, hadmits⟩ := hstretch.claim stage' hnext claim hc
    · obtain hkept | ⟨_, envelope, hclaim⟩ := hmark
      · rw [hkept, hi]
        exact h.checked id stage claim hstage hsame
      · rw [hclaim] at hsame
        cases hsame
    · have hnow : (p.resumed adapter allowed id draws stage).checkedAt i = p.granted.length := by
        rw [hclaim, hi]
        exact Function.update_self _ _ _
      rw [hnow, List.take_length]
      exact ⟨le_rfl, h.admitted hadmits⟩
  · obtain hkept | ⟨hsame, _⟩ := hmark
    · rw [hkept]
      exact h.checked i stage' claim hold hc
    · exact absurd hsame hi

/-- A refused claim that comes to its registration has not found its task DECIDED. -/
theorem Leasing.refused_resumed (h : Leasing p) {id : Nat} {draws : Draws} {stage : Stage}
    (hstage : p.running id = some stage) (hok : Undisturbed p (.resume id draws)) (i : Nat) (claim : Claim)
    (task : Option TaskView)
    (hrun : (p.resumed adapter allowed id draws stage).running i = some (.register claim false task)) :
    isDecided task = false := by
  have hstretch : Stretch draws stage p.node (stage.resume adapter allowed draws p.node) := resume_stretch stage p.node
  obtain ⟨_, hnext⟩ | ⟨_, hold⟩ := update_some hrun
  · obtain ⟨hget, htask⟩ := hstretch.register claim false task hnext
    rw [htask]
    exact hok.2 claim (hget ▸ hstage)
  · exact h.refused i claim task hold

/-- A stretch that registers no lease. -/
theorem Leasing.quiet (h : Leasing p) {id : Nat} {draws : Draws} {stage : Stage} (hstage : p.running id = some stage)
    (hgrant : stage.grant draws = none) (hok : Undisturbed p (.resume id draws)) :
    Leasing (p.resumed adapter allowed id draws stage) := by
  have hstretch : Stretch draws stage p.node (stage.resume adapter allowed draws p.node) := resume_stretch stage p.node
  have hregistry := hstretch.leaseRegistry
  rw [hgrant] at hregistry
  have hgranted : (p.resumed adapter allowed id draws stage).granted = p.granted := by
    show p.granted ++ (stage.grant draws).toList = p.granted
    rw [hgrant]
    exact List.append_nil _
  refine ⟨?_, ?_, ?_, fun i claim task => h.refused_resumed hstage hok i claim task, ?_, ?_⟩
  · intro g hg
    rw [hgranted] at hg
    show (stage.resume adapter allowed draws p.node).2.leaseRegistry.get? _ = _
    rw [hregistry]
    exact h.registered g hg
  · intro i lease hget
    have hget : (stage.resume adapter allowed draws p.node).2.leaseRegistry.get? i = some lease := hget
    rw [hregistry] at hget
    rw [hgranted]
    exact h.known i lease hget
  · intro i stage' claim hrun hc
    rw [hgranted]
    exact h.checked_resumed hstage i stage' claim hrun hc
  · rw [OneWorker, hgranted]
    exact h.oneWorker
  · rw [OwnDecide, hgranted]
    exact h.ownDecide

/-- A stretch that registers a lease: those before the lock check of the claim and
those since are all of its worker. -/
theorem Leasing.grants (h : Leasing p) {id : Nat} {draws : Draws} {stage : Stage} {g : Lease × Claim × Bool}
    (hstage : p.running id = some stage) (hgrant : stage.grant draws = some g)
    (hfresh : p.node.leaseRegistry.get? (draws.uuid4 0) = none) (hok : Undisturbed p (.resume id draws)) :
    Leasing (p.resumed adapter allowed id draws stage) := by
  have hstretch : Stretch draws stage p.node (stage.resume adapter allowed draws p.node) := resume_stretch stage p.node
  have hregistry := hstretch.leaseRegistry
  rw [hgrant] at hregistry
  obtain ⟨task, hregister, hdecided, hlease⟩ := grant_register hgrant
  have hid : g.1.leaseId = draws.uuid4 0 := by rw [hlease]; rfl
  have htask : g.1.taskId = g.2.1.taskId := by rw [hlease]; rfl
  have hworker : g.1.workerId = g.2.1.workerId := by rw [hlease]; rfl
  have hgranted : (p.resumed adapter allowed id draws stage).granted = p.granted ++ [g] := by
    show p.granted ++ (stage.grant draws).toList = _
    rw [hgrant]
    rfl
  obtain ⟨hbound, hbefore⟩ := h.checked id stage g.2.1 hstage (by rw [hregister]; rfl)
  have hsame : ∀ g' ∈ p.granted, g'.1.taskId = g.1.taskId → g'.1.workerId = g.1.workerId := by
    intro g' hg' ht
    rw [htask] at ht
    rw [hworker]
    rw [← List.take_append_drop (p.checkedAt id) p.granted] at hg'
    rcases List.mem_append.mp hg' with hm | hm
    · exact hbefore g' hm ht
    · exact hok.1 g.2.1 g.2.2 task (hregister ▸ hstage) hdecided g' hm ht
  have hown : g.2.2 = true := by
    cases hflag : g.2.2 with
    | true => rfl
    | false =>
      rw [hflag] at hregister
      have hnot := h.refused id g.2.1 task (hregister ▸ hstage)
      rw [hnot] at hdecided
      cases hdecided
  refine ⟨?_, ?_, ?_, fun i claim task => h.refused_resumed hstage hok i claim task, ?_, ?_⟩
  · intro g' hg'
    show (stage.resume adapter allowed draws p.node).2.leaseRegistry.get? _ = _
    rw [hregistry, Table.get?_upsert]
    rw [hgranted] at hg'
    rcases List.mem_append.mp hg' with hm | hm
    · rw [if_neg]
      · exact h.registered g' hm
      · intro he
        have hget := h.registered g' hm
        rw [he, hid, hfresh] at hget
        cases hget
    · rw [List.mem_singleton.mp hm, if_pos rfl]
  · intro i lease hget
    have hget : (stage.resume adapter allowed draws p.node).2.leaseRegistry.get? i = some lease := hget
    rw [hregistry, Table.get?_upsert] at hget
    rw [hgranted]
    split at hget
    next => exact ⟨g, List.mem_append_right _ (List.mem_singleton_self g), Option.some.inj hget⟩
    next =>
      obtain ⟨g', hg', hlease'⟩ := h.known i lease hget
      exact ⟨g', List.mem_append_left _ hg', hlease'⟩
  · intro i stage' claim hrun hc
    obtain ⟨hle, hseen⟩ := h.checked_resumed hstage i stage' claim hrun hc
    rw [hgranted, List.length_append, List.take_append_of_le_length hle]
    exact ⟨by omega, hseen⟩
  · intro g₁ hg₁ g₂ hg₂ ht
    rw [hgranted] at hg₁ hg₂
    rcases List.mem_append.mp hg₁ with hm₁ | hm₁
    · rcases List.mem_append.mp hg₂ with hm₂ | hm₂
      · exact h.oneWorker g₁ hm₁ g₂ hm₂ ht
      · rw [List.mem_singleton.mp hm₂] at ht ⊢
        exact hsame g₁ hm₁ ht
    · rw [List.mem_singleton.mp hm₁] at ht ⊢
      rcases List.mem_append.mp hg₂ with hm₂ | hm₂
      · exact (hsame g₂ hm₂ ht.symm).symm
      · rw [List.mem_singleton.mp hm₂]
  · intro g' hg'
    rw [hgranted] at hg'
    rcases List.mem_append.mp hg' with hm | hm
    · exact h.ownDecide g' hm
    · rw [List.mem_singleton.mp hm]
      exact hown

theorem Leasing.step (h : Leasing p) {a : Action κ} (hok : Undisturbed p a) (hstep : p.Step adapter allowed a p') :
    Leasing p' := by
  cases hstep with
  | receive id stage hfree harrives =>
    have hclaim : stage.claim? = none := by
      cases stage with
      | decide envelope caller =>
        cases caller with
        | none => rfl
        | some c => cases harrives
      | claimExtended envelope => rfl
      | finalize envelope => rfl
      | release envelope => rfl
      | yields envelope => rfl
      | appends ops next => cases harrives
      | getTask c decided => cases harrives
      | register c decided task => cases harrives
    refine ⟨h.registered, h.known, ?_, ?_, h.oneWorker, h.ownDecide⟩
    · intro i stage' claim hrun hc
      obtain ⟨_, hnew⟩ | ⟨_, hold⟩ := update_some hrun
      · rw [← Option.some.inj hnew, hclaim] at hc
        cases hc
      · exact h.checked i stage' claim hold hc
    · intro i claim task hrun
      obtain ⟨_, hnew⟩ | ⟨_, hold⟩ := update_some hrun
      · rw [Option.some.inj hnew] at hclaim
        cases hclaim
      · exact h.refused i claim task hold
  | resume id draws stage hstage hfresh =>
    cases hgrant : stage.grant draws with
    | none => exact h.quiet hstage hgrant hok
    | some g => exact h.grants hstage hgrant hfresh hok
  | elsewhere consensus =>
    exact ⟨h.registered, h.known, h.checked, h.refused, h.oneWorker, h.ownDecide⟩

/-- Nothing is under way and no lease has been registered; the plan store and the
decisions may be any. -/
structure Idle (p : Process κ) : Prop where
  running : ∀ id, p.running id = none
  granted : p.granted = []
  leaseRegistry : ∀ id, p.node.leaseRegistry.get? id = none

theorem Idle.leasing (h : Idle p) : Leasing p where
  registered g hg := by rw [h.granted] at hg; cases hg
  known id lease hget := by rw [h.leaseRegistry] at hget; cases hget
  checked id stage claim hrun := by rw [h.running] at hrun; cases hrun
  refused id claim task hrun := by rw [h.running] at hrun; cases hrun
  oneWorker g hg := by rw [h.granted] at hg; cases hg
  ownDecide g hg := by rw [h.granted] at hg; cases hg

/-- In every interleaving in which no claim is disturbed, the leases of a task belong
to one worker, and each was registered for a claim whose own DECIDE was accepted. -/
theorem one_lease_holder {start : Process κ} (h0 : Idle start)
    (h : Visits (Process.Step adapter allowed) Undisturbed start p) : OneWorker p ∧ OwnDecide p := by
  have hleasing : Leasing p := Visits.invariant h h0.leasing fun hs hok hstep => hs.step hok hstep
  exact ⟨hleasing.oneWorker, hleasing.ownDecide⟩

end Steps

/-- The adapter of the Raft consensus, on a node at epoch 1. -/
def raftAdapter : TryDecide Etcd := fun record etcd =>
  let (result, etcd) := RaftConsensusAdapter.tryDecide (fun _ => 0) 1 record etcd
  (.ok result, etcd)

/-- A process on which nothing has happened. -/
def idleProcess : Process Etcd := ⟨⟨PlanStore.init, .empty, .empty, none⟩, fun _ => none, [], fun _ => 0⟩

def earlierDecide : DecideRecord := ⟨"task", "plan-a", 1, 1, 1, "coordinator", 0⟩

/-- A process on which the need of the task has been decided for another proposal. -/
def decidedProcess : Process Etcd :=
  { idleProcess with
    node := { idleProcess.node with
      planStore := (PlanStore.init.appendOp
        ⟨"a", "north", 1, "coordinator", .state, "task", dict [("state", .str "DECIDED")], 0⟩).2
      consensus := (raftAdapter earlierDecide .empty).2 } }

def claimBy (worker : String) : Envelope ClaimPayload :=
  ⟨"north", worker, 2, ⟨some "task", none, some 60, none, none, none, none, none, none, none⟩⟩

theorem undisturbed_of_first {p : Process Etcd} {id : Nat} {draws : Draws} {stage : Stage}
    (hstage : p.running id = some stage) (hnone : p.granted = []) (hget : ∀ claim, stage ≠ .getTask claim false) :
    Undisturbed p (.resume id draws) := by
  refine ⟨?_, ?_⟩
  · intro claim decided task _ _ g hg
    rw [hnone, List.drop_nil] at hg
    cases hg
  · intro claim hclaim
    exact absurd (Option.some.inj (hstage.symm.trans hclaim)) (hget claim)

/-- A claim on a task whose need is open gets its lease, through a DECIDE of its own. -/
theorem one_lease_holder_first_claim : ∃ p : Process Etcd,
    p.granted.map (fun g => (g.1.workerId, g.2.2)) = [("worker-a", true)] ∧ OneWorker p ∧ OwnDecide p := by
  have hidle : Idle idleProcess := ⟨fun _ => rfl, rfl, fun _ => rfl⟩
  have hreceive : Visits (Process.Step (some raftAdapter) fun _ => true) Undisturbed idleProcess
      { idleProcess with
        running := Function.update idleProcess.running 0 (some (.claimExtended (claimBy "worker-a"))) } := by
    refine .next .start ?_ (.receive 0 (.claimExtended (claimBy "worker-a")) rfl rfl)
    trivial
  have hlock := Visits.next hreceive (undisturbed_of_first rfl rfl (by intro _ h; cases h))
    (.resume 0 (numbered "a") _ rfl rfl)
  have hdecide := Visits.next hlock (undisturbed_of_first rfl rfl (by intro _ h; cases h))
    (.resume 0 (numbered "b") _ rfl rfl)
  have hstate := Visits.next hdecide (undisturbed_of_first rfl rfl (by intro _ h; cases h))
    (.resume 0 (numbered "c") _ rfl rfl)
  have hnote := Visits.next hstate (undisturbed_of_first rfl rfl (by intro _ h; cases h))
    (.resume 0 (numbered "d") _ rfl rfl)
  have hback := Visits.next hnote (undisturbed_of_first rfl rfl (by intro _ h; cases h))
    (.resume 0 (numbered "e") _ rfl rfl)
  have hget := Visits.next hback (undisturbed_of_first rfl rfl (by intro _ h; cases h))
    (.resume 0 (numbered "f") _ rfl rfl)
  have hregister := Visits.next hget (undisturbed_of_first rfl rfl (by intro _ h; cases h))
    (.resume 0 (numbered "g") _ rfl rfl)
  exact ⟨_, rfl, one_lease_holder hidle hregister⟩

/-- The need has been decided for another plan: both claims are refused, find the
task DECIDED and get a lease. -/
theorem refused_claims_get_leases : ∃ p, Idle decidedProcess ∧
    Visits (Process.Step (some raftAdapter) fun _ => true) (fun _ _ => True) decidedProcess p ∧
    p.granted.map (fun g => (g.1.taskId, g.1.workerId, g.2.2)) =
      [("task", "worker-a", false), ("task", "worker-b", false)] ∧ ¬OneWorker p ∧ ¬OwnDecide p := by
  have hidle : Idle decidedProcess := ⟨fun _ => rfl, rfl, fun _ => rfl⟩
  have ha : Visits (Process.Step (some raftAdapter) fun _ => true) (fun _ _ => True) decidedProcess _ :=
    .next .start trivial (.receive 0 (.claimExtended (claimBy "worker-a")) rfl rfl)
  have hb := Visits.next ha trivial (.receive 1 (.claimExtended (claimBy "worker-b")) rfl rfl)
  have hlockA := Visits.next hb trivial (.resume 0 (numbered "a") _ rfl rfl)
  have hlockB := Visits.next hlockA trivial (.resume 1 (numbered "b") _ rfl rfl)
  have hdecideA := Visits.next hlockB trivial (.resume 0 (numbered "a") _ rfl rfl)
  have hdecideB := Visits.next hdecideA trivial (.resume 1 (numbered "b") _ rfl rfl)
  have hgetA := Visits.next hdecideB trivial (.resume 0 (numbered "a") _ rfl rfl)
  have hgetB := Visits.next hgetA trivial (.resume 1 (numbered "b") _ rfl rfl)
  have hregisterA := Visits.next hgetB trivial (.resume 0 (numbered "a") _ rfl rfl)
  have hregisterB := Visits.next hregisterA trivial (.resume 1 (numbered "b") _ rfl rfl)
  refine ⟨_, hidle, hregisterB, rfl, ?_, ?_⟩
  · intro hone
    have hsame := hone _ List.mem_cons_self _ (List.mem_cons_of_mem _ List.mem_cons_self) rfl
    exact absurd hsame (by decide)
  · intro hown
    cases hown _ List.mem_cons_self

end AgentNetwork.Handlers
