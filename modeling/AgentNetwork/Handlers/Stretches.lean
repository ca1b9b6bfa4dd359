import AgentNetwork.Handlers.Node

namespace AgentNetwork.Handlers

open Relational Plan

/-- The operation that a stretch appends to the plan store. -/
def Stage.append? : Stage → Option PlanOp
  | .appends (op :: _) _ => some op
  | .appends [] _ | .claimExtended _ | .decide _ _ | .finalize _ | .release _ | .yields _ | .getTask _ _
  | .register _ _ _ => none

/-- The claim that a handler is working on, past its lock check. -/
def Stage.claim? : Stage → Option Claim
  | .decide _ caller => caller
  | .appends _ (.backToClaim claim) | .getTask claim _ | .register claim _ _ => some claim
  | .appends _ .finished | .appends _ (.completeShard _) | .claimExtended _ | .finalize _ | .release _ | .yields _ => none

/-- What a stretch of a handler can do: append its operation, register its lease,
and go on with the claim it had or with one that has just passed its checks. -/
structure Stretch {κ : Type} (draws : Draws) (stage : Stage) (node : Node κ) (result : Option Stage × Node κ) : Prop where
  planStore : result.2.planStore = match stage.append? with
    | some op => (node.planStore.appendOp op).2
    | none => node.planStore
  leaseRegistry : result.2.leaseRegistry = match stage.grant draws with
    | some g => node.leaseRegistry.upsert g.1.leaseId g.1
    | none => node.leaseRegistry
  claim : ∀ next ∈ result.1, ∀ claim ∈ next.claim?, stage.claim? = some claim ∨
    ∃ envelope, stage = .claimExtended envelope ∧ admitClaim envelope node.leaseRegistry = some claim
  register : ∀ claim decided task, result.1 = some (.register claim decided task) →
    stage = .getTask claim decided ∧ task = node.planStore.getTask claim.taskId

section Cases

variable {κ : Type} {adapter : Option (TryDecide κ)} {allowed : Envelope YieldPayload → Bool} {draws : Draws}
  {stage : Stage} {node node' : Node κ}

/-- A handler that ends without having appended or registered anything. -/
theorem Stretch.ends (happend : stage.append? = none) (hgrant : stage.grant draws = none)
    (hplan : node'.planStore = node.planStore) (hregistry : node'.leaseRegistry = node.leaseRegistry) :
    Stretch draws stage node (none, node') where
  planStore := by rw [happend]; exact hplan
  leaseRegistry := by rw [hgrant]; exact hregistry
  claim _ hnext := nomatch hnext
  register _ _ _ hnext := nomatch hnext

/-- A handler that goes on with its appends. -/
theorem Stretch.goesOn {ops : List PlanOp} {next : Continuation} (happend : stage.append? = none)
    (hgrant : stage.grant draws = none) (hplan : node'.planStore = node.planStore)
    (hregistry : node'.leaseRegistry = node.leaseRegistry)
    (hclaim : ∀ claim, next = .backToClaim claim → stage.claim? = some claim) :
    Stretch draws stage node (some (.appends ops next), node') where
  planStore := by rw [happend]; exact hplan
  leaseRegistry := by rw [hgrant]; exact hregistry
  claim stage' hnext claim hc := by
    rw [← Option.some.inj hnext] at hc
    left
    cases next with
    | finished => cases hc
    | completeShard s => cases hc
    | backToClaim c => exact Option.some.inj hc ▸ hclaim c rfl
  register _ _ _ hnext := nomatch hnext

/-- A claim whose DECIDE has come to nothing goes on to its `get_task`. -/
theorem Stretch.refused {envelope : Envelope DecidePayload} {caller : Option Claim}
    (hplan : node'.planStore = node.planStore) (hregistry : node'.leaseRegistry = node.leaseRegistry) :
    Stretch draws (.decide envelope caller) node (backTo caller false, node') where
  planStore := hplan
  leaseRegistry := hregistry
  claim stage' hnext claim hc := by
    left
    cases caller with
    | none => cases hnext
    | some c =>
      rw [← Option.some.inj hnext] at hc
      exact hc
  register _ _ _ hnext := by
    cases caller with
    | none => cases hnext
    | some c => cases hnext

theorem startDecide_stretch (envelope : Envelope DecidePayload) (caller : Option Claim) :
    Stretch draws (.decide envelope caller) node (startDecide adapter draws envelope caller node) := by
  unfold startDecide
  dsimp only
  split
  next =>
    split
    next => exact .ends rfl rfl rfl rfl
    next => exact .refused rfl rfl
    next =>
      refine .goesOn rfl rfl rfl rfl ?_
      intro claim hnext
      cases caller with
      | none => cases hnext
      | some c => exact congrArg some (Continuation.backToClaim.inj hnext)
  next => exact .refused rfl rfl

theorem claimExtended_stretch (envelope : Envelope ClaimPayload) :
    Stretch draws (.claimExtended envelope) node ((Stage.claimExtended envelope).resume adapter allowed draws node) := by
  refine ⟨rfl, rfl, ?_, ?_⟩
  · intro next hnext claim hc
    obtain ⟨c, hadmits, hstage⟩ := Option.map_eq_some_iff.mp hnext
    rw [← hstage] at hc
    rw [← Option.some.inj hc]
    exact Or.inr ⟨envelope, rfl, hadmits⟩
  · intro claim decided task hnext
    obtain ⟨c, _, hstage⟩ := Option.map_eq_some_iff.mp hnext
    cases hstage

theorem finalize_stretch (envelope : Envelope FinalizePayload) :
    Stretch draws (.finalize envelope) node ((Stage.finalize envelope).resume adapter allowed draws node) := by
  simp only [Stage.resume]
  split
  next => exact .ends rfl rfl rfl rfl
  next =>
    split
    next =>
      refine .goesOn rfl rfl rfl rfl ?_
      intro claim hnext
      cases hshard : envelope.payload.shardId with
      | none =>
        rw [hshard] at hnext
        cases hnext
      | some s =>
        rw [hshard] at hnext
        cases hnext
    next => exact .ends rfl rfl rfl rfl

theorem release_stretch (envelope : Envelope ReleasePayload) :
    Stretch draws (.release envelope) node ((Stage.release envelope).resume adapter allowed draws node) := by
  simp only [Stage.resume]
  split
  next =>
    refine .goesOn rfl rfl rfl rfl ?_
    intro claim hnext
    cases hnext
  next => exact .ends rfl rfl rfl rfl

theorem yields_stretch (envelope : Envelope YieldPayload) :
    Stretch draws (.yields envelope) node ((Stage.yields envelope).resume adapter allowed draws node) := by
  simp only [Stage.resume]
  split
  next =>
    cases given envelope.payload.taskId with
    | none => exact .ends rfl rfl rfl rfl
    | some taskId =>
      refine .goesOn rfl rfl rfl rfl ?_
      intro claim hnext
      cases hnext
  next => exact .ends rfl rfl rfl rfl

/-- One append of a handler, or its return once all are done. -/
theorem appends_stretch (ops : List PlanOp) (next : Continuation) :
    Stretch draws (.appends ops next) node ((Stage.appends ops next).resume adapter allowed draws node) := by
  cases ops with
  | nil =>
    cases next with
    | finished => exact .ends rfl rfl rfl rfl
    | completeShard s => exact .ends rfl rfl rfl rfl
    | backToClaim c =>
      refine ⟨rfl, rfl, ?_, ?_⟩
      · intro stage' hnext claim hc
        rw [← Option.some.inj hnext] at hc
        exact Or.inl hc
      · intro claim decided task hnext
        cases hnext
  | cons op ops =>
    simp only [Stage.resume]
    split
    next planStore h =>
      refine ⟨by simp only [Stage.append?, h], rfl, ?_, ?_⟩
      · intro stage' hnext claim hc
        rw [← Option.some.inj hnext] at hc
        left
        cases next <;> exact hc
      · intro claim decided task hnext
        cases hnext
    next e planStore h =>
      refine ⟨by simp only [Stage.append?, h], rfl, ?_, ?_⟩
      · intro stage' hnext
        cases hnext
      · intro claim decided task hnext
        cases hnext

theorem getTask_stretch (c : Claim) (decided : Bool) :
    Stretch draws (.getTask c decided) node ((Stage.getTask c decided).resume adapter allowed draws node) := by
  refine ⟨rfl, rfl, ?_, ?_⟩
  · intro stage' hnext claim hc
    rw [← Option.some.inj hnext] at hc
    exact Or.inl hc
  · intro claim decided' task hnext
    obtain ⟨hclaim, hdecided, htask⟩ := Stage.register.inj (Option.some.inj hnext)
    rw [← hclaim, ← hdecided, ← htask]
    exact ⟨rfl, rfl⟩

theorem register_stretch (c : Claim) (decided : Bool) (task : Option TaskView) :
    Stretch draws (.register c decided task) node ((Stage.register c decided task).resume adapter allowed draws node) := by
  simp only [Stage.resume]
  split
  next ht =>
    refine ⟨rfl, ?_, ?_, ?_⟩
    · simp only [Stage.grant, if_pos ht]
    · intro stage' hnext claim hc
      rw [← Option.some.inj hnext] at hc
      cases hc
    · intro claim decided task hnext
      cases hnext
  next ht =>
    refine .ends rfl ?_ rfl rfl
    simp only [Stage.grant, if_neg ht]

theorem resume_stretch (stage : Stage) (node : Node κ) :
    Stretch draws stage node (stage.resume adapter allowed draws node) := by
  cases stage with
  | claimExtended envelope => exact claimExtended_stretch envelope
  | decide envelope caller => exact startDecide_stretch envelope caller
  | finalize envelope => exact finalize_stretch envelope
  | release envelope => exact release_stretch envelope
  | yields envelope => exact yields_stretch envelope
  | appends ops next => exact appends_stretch ops next
  | getTask c decided => exact getTask_stretch c decided
  | register c decided task => exact register_stretch c decided task

end Cases

end AgentNetwork.Handlers
