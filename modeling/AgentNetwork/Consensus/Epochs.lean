import AgentNetwork.Consensus.Raft
import AgentNetwork.Library.Awaiting
import AgentNetwork.Library.PythonInt
import AgentNetwork.Library.PythonValues
import AgentNetwork.Policy.Envelope

/-! Epochs: what survives a restart, the tokens that fence off what was decided before, and the message that advances them. -/

namespace AgentNetwork.Consensus

open Python

structure EpochState where
  epochNumber : Int
  startedAtNs : Int
  coordinatorId : String
  deriving DecidableEq

/-- An `EpochManager`: what it holds in memory, and the row of its database. -/
structure EpochManager where
  state : EpochState
  row : EpochState
  deriving DecidableEq

namespace EpochManager

/-- `_load_or_init_state` on the row that is there. -/
def load (row : EpochState) : EpochManager := ⟨row, row⟩

/-- `_load_or_init_state` on an empty table, where the row is saved. -/
def create (now : Int) : EpochManager := load ⟨1, now, "system"⟩

def getCurrentEpoch (m : EpochManager) : Int := m.state.epochNumber

def createFenceToken (epoch : Option Int) (m : EpochManager) : String :=
  "epoch-" ++ (epoch.getD m.state.epochNumber).repr ++ "-" ++ m.state.startedAtNs.repr

/-- `validate_fence_token`: the part after the first dash has to be a number. -/
def validateFenceToken (token : String) (currentEpoch : Int) : Bool :=
  match (token.toList.splitOn '-')[1]? with
  | some part =>
    match parseInt (String.ofList part) with
    | some tokenEpoch => currentEpoch ≤ tokenEpoch
    | none => false
  | none => false

/-- `advance_epoch`; where the database raises, the epoch in memory has advanced all the same. -/
def advanceEpoch (now : Int) (saved : Bool) (m : EpochManager) : EpochManager :=
  let state := { m.state with epochNumber := m.state.epochNumber + 1, startedAtNs := now }
  ⟨state, if saved then state else m.row⟩

/-- A process that starts anew reads the row. -/
def restart (m : EpochManager) : EpochManager := load m.row

end EpochManager

/-- A plan store that was injected; `none` stands for a store without `annotate_task`. -/
structure AnnotatedStore (σ : Type) where
  plan : σ
  annotateTask : Option (Json → Policy.Dict → σ → Called σ)

inductive ReconcileError
  | raised (e : Exn)
  | databaseError

namespace AnnotatedStore

variable {σ : Type}

/-- A call that is not awaited runs only a plain function. -/
def callUnawaited (taskId : Json) (annotations : Policy.Dict) (store : AnnotatedStore σ) : AnnotatedStore σ :=
  match store.annotateTask with
  | some annotate =>
    match annotate taskId annotations store.plan with
    | .value plan => { store with plan := plan }
    | .coroutine _ => store
  | none => store

/-- `mark_orphaned`; what `annotate_task` raises is caught. -/
def markOrphaned (decide : Json) (winningEpoch now : Int) (store : AnnotatedStore σ) : Except Exn (AnnotatedStore σ) := do
  let fields ← asDict "get" decide
  let taskId := if truthy (Policy.getKey fields "task_id") then Policy.getKey fields "task_id" else Policy.getKey fields "need_id"
  if ¬truthy taskId then .ok store
  else
    .ok (store.callUnawaited taskId
      [("orphaned", .bool true), ("orphaned_by_epoch", .int winningEpoch),
        ("orphaned_proposal", Policy.getKey fields "proposal_id"), ("orphaned_at_ns", .int now),
        ("orphan_reason", .str ("Lost to epoch " ++ winningEpoch.repr))])

end AnnotatedStore

section Reconcile

variable {σ : Type}

/-- `len(value)` does not raise. -/
def hasLen : Json → Except Exn Unit
  | .arr _ | .obj _ | .str _ => .ok ()
  | value => .error (.typeError ("object of type '" ++ typeName value ++ "' has no len()"))

/-- The loop over the branches; `mark_orphaned` on what is no dictionary ends it. -/
def orphanAll (winningEpoch now : Int) : List Json → AnnotatedStore σ → Except Exn Unit × AnnotatedStore σ
  | [], store => (.ok (), store)
  | branch :: rest, store =>
    match store.markOrphaned branch winningEpoch now with
    | .ok store => orphanAll winningEpoch now rest store
    | .error e => (.error e, store)

/-- What `handle_reconcile` does once the epoch has advanced. -/
def orphanBranches (orphaned : Json) (winningEpoch now : Int) (store : Option (AnnotatedStore σ)) :
    Except Exn Unit × Option (AnnotatedStore σ) :=
  match hasLen orphaned, iterate orphaned, store with
  | .error e, _, store => (.error e, store)
  | .ok (), _, none => (.ok (), none)
  | .ok (), .error e, store => (.error e, store)
  | .ok (), .ok branches, some store =>
    let (result, store) := orphanAll winningEpoch now branches store
    (result, some store)

/-- `handle_reconcile`, with the epochs and the plan store that it leaves. -/
def handleReconcile (envelope : Policy.Dict) (now : Int) (saved : Bool) (m : EpochManager) (store : Option (AnnotatedStore σ)) :
    Except ReconcileError Unit × EpochManager × Option (AnnotatedStore σ) :=
  match asDict "get" (Policy.getOr envelope "payload" (.obj [])) with
  | .error e => (.error (.raised e), m, store)
  | .ok payload =>
    let m := m.advanceEpoch now saved
    if ¬saved then (.error .databaseError, m, store)
    else
      let (result, store) := orphanBranches (Policy.getOr payload "orphaned_branches" (.arr [])) m.getCurrentEpoch now store
      (result.mapError .raised, m, store)

end Reconcile

/-- What happens to a node: a RECONCILE message, a call of `try_decide`, a decision that another node has put into etcd, and
a restart of the process. -/
inductive EpochEvent
  | reconcile (envelope : Policy.Dict) (now : Int) (saved : Bool)
  | tryDecide (record : DecideRecord)
  | elsewhere (key : String) (record : DecideRecord)
  | restart

/-- A node with its epochs, its plan store, and the etcd that it shares with others. -/
structure EpochNode (σ : Type) where
  epochs : EpochManager
  store : Option (AnnotatedStore σ)
  etcd : Etcd

namespace EpochNode

variable {σ : Type} (getBucketForNeed : String → UInt8)

def apply (node : EpochNode σ) : EpochEvent → EpochNode σ
  | .reconcile envelope now saved =>
    let (_, epochs, store) := handleReconcile envelope now saved node.epochs node.store
    { node with epochs := epochs, store := store }
  | .tryDecide record =>
    { node with etcd := (RaftConsensusAdapter.tryDecide getBucketForNeed node.epochs.getCurrentEpoch record node.etcd).2 }
  | .elsewhere key record => { node with etcd := (RaftConsensusAdapter.transaction key record node.etcd).2 }
  | .restart => { node with epochs := node.epochs.restart }

def run (events : List EpochEvent) (node : EpochNode σ) : EpochNode σ := events.foldl (apply getBucketForNeed) node

/-- No restart comes while an advance is not saved. -/
def Lossless : List EpochEvent → EpochNode σ → Prop
  | [], _ => True
  | .restart :: later, node => node.epochs.state = node.epochs.row ∧ Lossless later (node.apply getBucketForNeed .restart)
  | event :: later, node => Lossless later (node.apply getBucketForNeed event)

end EpochNode

namespace EpochEvent

/-- The message advances the epoch: its payload is a dictionary, or it has none. -/
def advances : EpochEvent → Bool
  | .reconcile envelope _ _ =>
    match Policy.getOr envelope "payload" (.obj []) with
    | .obj _ => true
    | _ => false
  | .tryDecide _ | .elsewhere _ _ | .restart => false

end EpochEvent

section Tokens

namespace EpochManager

/-- A token made for an epoch is valid as long as the epoch is not a later one. -/
theorem validate_createFenceToken {m : EpochManager} (h : 0 ≤ m.state.epochNumber) (currentEpoch : Int) :
    validateFenceToken (m.createFenceToken none) currentEpoch = decide (currentEpoch ≤ m.state.epochNumber) := by
  obtain ⟨n, hn⟩ : ∃ n : Nat, m.state.epochNumber = n := Int.eq_ofNat_of_zero_le h
  have hepoch : m.state.epochNumber.repr = String.ofList (Nat.toDigits 10 n) := by
    rw [hn, ← String.toList_inj, toList_repr, String.toList_ofList]
    rfl
  have hdash : ∀ cs : List Char, (∀ c ∈ cs, Json.isDigit c = true) → '-' ∉ cs := fun cs hcs hmem =>
    absurd (hcs '-' hmem) (by decide)
  have htoken : (m.createFenceToken none).toList =
      "epoch".toList ++ '-' :: (Nat.toDigits 10 n ++ '-' :: m.state.startedAtNs.repr.toList) := by
    unfold createFenceToken
    rw [Option.getD_none, hepoch]
    simp [String.toList_append]
  have hpart : ((m.createFenceToken none).toList.splitOn '-')[1]? = some (Nat.toDigits 10 n) := by
    rw [htoken, List.splitOn_append_cons_self, List.splitOn_append_cons_self,
      List.splitOn_eq_singleton (hdash _ (toDigits_value n).2.1)]
    rfl
  unfold validateFenceToken
  rw [hpart]
  simp only [parseInt_toDigits, hn]

end EpochManager

end Tokens

section Runs

variable {σ : Type} {getBucketForNeed : String → UInt8}

open EpochNode

theorem handleReconcile_epochs (envelope : Policy.Dict) (now : Int) (saved : Bool) (m : EpochManager)
    (store : Option (AnnotatedStore σ)) : (handleReconcile envelope now saved m store).2.1 =
      if (EpochEvent.reconcile envelope now saved).advances then m.advanceEpoch now saved else m := by
  rw [handleReconcile, EpochEvent.advances]
  cases Policy.getOr envelope "payload" (.obj []) with
  | obj fields => cases saved <;> rfl
  | null | bool | int | float | str | arr => rfl

/-- What an event does to the epochs. -/
theorem epochs_apply (node : EpochNode σ) (event : EpochEvent) :
    (event = .restart ∧ (node.apply getBucketForNeed event).epochs = node.epochs.restart) ∨
      (event.advances = true ∧
        ∃ now saved, (node.apply getBucketForNeed event).epochs = node.epochs.advanceEpoch now saved) ∨
      (event ≠ .restart ∧ event.advances = false ∧ (node.apply getBucketForNeed event).epochs = node.epochs) := by
  cases event with
  | restart => exact .inl ⟨rfl, rfl⟩
  | tryDecide | elsewhere => exact .inr (.inr ⟨nofun, rfl, rfl⟩)
  | reconcile envelope now saved =>
    have hepochs := handleReconcile_epochs envelope now saved node.epochs node.store
    by_cases hadvances : (EpochEvent.reconcile envelope now saved).advances = true
    · rw [if_pos hadvances] at hepochs
      exact .inr (.inl ⟨hadvances, now, saved, hepochs⟩)
    · rw [if_neg hadvances] at hepochs
      exact .inr (.inr ⟨nofun, by simpa using hadvances, hepochs⟩)

theorem run_append (p q : List EpochEvent) (node : EpochNode σ) :
    run getBucketForNeed (p ++ q) node = run getBucketForNeed q (run getBucketForNeed p node) := List.foldl_append

theorem lossless_append {p q : List EpochEvent} {node : EpochNode σ} : Lossless getBucketForNeed (p ++ q) node ↔
    Lossless getBucketForNeed p node ∧ Lossless getBucketForNeed q (run getBucketForNeed p node) := by
  induction p generalizing node with
  | nil => simp [Lossless, run]
  | cons event rest ih =>
    cases event with
    | restart => simp only [List.cons_append, Lossless, ih, and_assoc]; rfl
    | reconcile | tryDecide | elsewhere => simp only [List.cons_append, Lossless, ih]; rfl

def EpochEvent.count (events : List EpochEvent) : Nat := events.countP EpochEvent.advances

/-- No epoch is used twice where nothing is lost. -/
theorem epoch_of_lossless {events : List EpochEvent} {node : EpochNode σ} (h : Lossless getBucketForNeed events node) :
    (run getBucketForNeed events node).epochs.getCurrentEpoch = node.epochs.getCurrentEpoch + EpochEvent.count events := by
  induction events generalizing node with
  | nil => simp [run, EpochEvent.count]
  | cons event rest ih =>
    have hrest : Lossless getBucketForNeed rest (node.apply getBucketForNeed event) := by
      cases event with
      | restart => exact h.2
      | reconcile | tryDecide | elsewhere => exact h
    have hstep : (node.apply getBucketForNeed event).epochs.getCurrentEpoch =
        node.epochs.getCurrentEpoch + if event.advances then 1 else 0 := by
      rcases epochs_apply node event with ⟨rfl, hepochs⟩ | ⟨hadvances, now, saved, hepochs⟩ | ⟨-, hadvances, hepochs⟩
      · have hsame : node.epochs.restart.state = node.epochs.state := h.1.symm
        rw [hepochs, EpochManager.getCurrentEpoch, hsame]
        exact (add_zero _).symm
      · rw [hepochs, hadvances]
        rfl
      · rw [hepochs, hadvances]
        exact (add_zero _).symm
    show (run getBucketForNeed rest (node.apply getBucketForNeed event)).epochs.getCurrentEpoch = _
    rw [ih hrest, hstep, EpochEvent.count, EpochEvent.count, List.countP_cons]
    split <;> omega

theorem run_concat (events : List EpochEvent) (event : EpochEvent) (node : EpochNode σ) :
    run getBucketForNeed (events ++ [event]) node = (run getBucketForNeed events node).apply getBucketForNeed event := by
  rw [run, List.foldl_concat]
  rfl

/-- The last moment at which the epoch was the saved one; an advance after it that is not saved shows. -/
theorem last_saved {node : EpochNode σ} (hsaved : node.epochs.state = node.epochs.row) (events : List EpochEvent) :
    ∃ p q, events = p ++ q ∧ (run getBucketForNeed p node).epochs.state = (run getBucketForNeed events node).epochs.row ∧
      ((run getBucketForNeed events node).epochs.state = (run getBucketForNeed events node).epochs.row ∨
        ∃ e ∈ q, e.advances = true) := by
  induction events using List.reverseRecOn with
  | nil => exact ⟨[], [], rfl, hsaved, .inl hsaved⟩
  | append_singleton events event ih =>
    obtain ⟨p, q, rfl, hp, hq⟩ := ih
    rw [run_concat]
    rcases epochs_apply (run getBucketForNeed (p ++ q) node) event with
      ⟨rfl, hepochs⟩ | ⟨hadvances, now, saved, hepochs⟩ | ⟨-, -, hepochs⟩
    · refine ⟨p ++ q ++ [.restart], [], (List.append_nil _).symm, ?_, .inl ?_⟩
      · rw [run_concat, hepochs]
        rfl
      · rw [hepochs]
        rfl
    · cases saved with
      | true =>
        refine ⟨p ++ q ++ [event], [], (List.append_nil _).symm, ?_, .inl ?_⟩
        · rw [run_concat, hepochs]
          rfl
        · rw [hepochs]
          rfl
      | false =>
        refine ⟨p, q ++ [event], List.append_assoc p q _, ?_, .inr ⟨event, by simp, hadvances⟩⟩
        rw [hepochs]
        exact hp
    · refine ⟨p, q ++ [event], List.append_assoc p q _, ?_, ?_⟩
      · rw [hepochs]
        exact hp
      · rw [hepochs]
        exact hq.imp_right fun ⟨e, he, hadvances⟩ => ⟨e, List.mem_append_left _ he, hadvances⟩

theorem epoch_nonneg {node : EpochNode σ} (h : 0 ≤ node.epochs.state.epochNumber ∧ 0 ≤ node.epochs.row.epochNumber)
    (events : List EpochEvent) : 0 ≤ (run getBucketForNeed events node).epochs.state.epochNumber ∧
      0 ≤ (run getBucketForNeed events node).epochs.row.epochNumber := by
  induction events using List.reverseRecOn with
  | nil => exact h
  | append_singleton events event ih =>
    rw [run_concat]
    rcases epochs_apply (run getBucketForNeed events node) event with
      ⟨-, hepochs⟩ | ⟨-, now, saved, hepochs⟩ | ⟨-, -, hepochs⟩
    · rw [hepochs]
      exact ⟨ih.2, ih.2⟩
    · have hnext : 0 ≤ (run getBucketForNeed events node).epochs.state.epochNumber + 1 := by omega
      rw [hepochs]
      cases saved with
      | true => exact ⟨hnext, hnext⟩
      | false => exact ⟨hnext, ih.2⟩
    · rw [hepochs]
      exact ih

theorem lossless_iff {events : List EpochEvent} {node : EpochNode σ} : Lossless getBucketForNeed events node ↔
    ∀ p, p ++ [.restart] <+: events →
      (run getBucketForNeed p node).epochs.state = (run getBucketForNeed p node).epochs.row := by
  induction events using List.reverseRecOn with
  | nil => simp [Lossless]
  | append_singleton events event ih =>
    rw [lossless_append, ih]
    constructor
    · rintro ⟨hearlier, hlast⟩ p hp
      rcases List.prefix_concat_iff.mp hp with heq | hearly
      · obtain ⟨rfl, hevent⟩ := List.append_inj' heq rfl
        cases List.singleton_inj.mp hevent
        exact hlast.1
      · exact hearlier p hearly
    · intro h
      refine ⟨fun p hp => h p (hp.trans (List.prefix_append _ _)), ?_⟩
      cases event with
      | restart => exact ⟨h events (List.prefix_refl _), trivial⟩
      | reconcile | tryDecide | elsewhere => exact trivial

/-- The tokens of a node tell what came before an advance from what came after it exactly if no advance is lost: its save
failed, and the process started anew before a later one was saved. -/
theorem fences_hold_iff {node : EpochNode σ} (hsaved : node.epochs.state = node.epochs.row)
    (hepoch : 0 ≤ node.epochs.getCurrentEpoch) (events : List EpochEvent) :
    Lossless getBucketForNeed events node ↔ ∀ p q, p ++ q <+: events →
      (EpochManager.validateFenceToken ((run getBucketForNeed p node).epochs.createFenceToken none)
        (run getBucketForNeed (p ++ q) node).epochs.getCurrentEpoch = true ↔ ∀ e ∈ q, e.advances = false) := by
  have hnonneg := @epoch_nonneg σ getBucketForNeed node ⟨hepoch, hsaved ▸ hepoch⟩
  constructor
  · intro h p q hprefix
    obtain ⟨later, rfl⟩ := hprefix
    have hq := (lossless_append.mp (lossless_append.mp h).1).2
    rw [EpochManager.validate_createFenceToken (hnonneg p).1, run_append, epoch_of_lossless hq, decide_eq_true_eq]
    have hcount : EpochEvent.count q = 0 ↔ ∀ e ∈ q, e.advances = false := by
      simp [EpochEvent.count, List.countP_eq_zero]
    rw [← hcount]
    show (run getBucketForNeed p node).epochs.state.epochNumber + _ ≤ _ ↔ _
    omega
  · intro h
    refine lossless_iff.mpr fun u hu => ?_
    obtain ⟨p, q, rfl, hp, hlast⟩ := @last_saved σ getBucketForNeed node hsaved u
    refine hlast.resolve_right fun ⟨e, he, hadvances⟩ => ?_
    -- the restart takes the epoch back to that of the token
    have hback : (run getBucketForNeed (p ++ (q ++ [.restart])) node).epochs.getCurrentEpoch =
        (run getBucketForNeed p node).epochs.state.epochNumber := by
      rw [← List.append_assoc, run_concat, hp]
      rfl
    have hvalid := h p (q ++ [.restart]) (by rwa [← List.append_assoc])
    rw [EpochManager.validate_createFenceToken (hnonneg p).1, hback] at hvalid
    have hnone := hvalid.mp (decide_eq_true le_rfl) e (List.mem_append_left _ he)
    rw [hadvances] at hnone
    cases hnone

def freshNode : EpochNode Nat := ⟨.create 5, some ⟨0, some fun _ _ plan => .coroutine (plan + 1)⟩, .empty⟩

def advanceUnsaved : List EpochEvent := [.reconcile [] 6 false, .restart]

theorem fences_hold_iff_unsaved : ¬∀ p q, p ++ q <+: advanceUnsaved →
    (EpochManager.validateFenceToken ((run (fun _ => 0) p freshNode).epochs.createFenceToken none)
      (run (fun _ => 0) (p ++ q) freshNode).epochs.getCurrentEpoch = true ↔ ∀ e ∈ q, e.advances = false) := by
  have hlost : ¬Lossless (fun _ => 0) advanceUnsaved freshNode := fun h => by
    have hstate := congrArg EpochState.epochNumber h.1
    cases hstate
  exact (fences_hold_iff rfl (by decide) advanceUnsaved).not.mp hlost

section Decisions

open RaftConsensusAdapter

theorem transaction_get? {key other : String} {record r : DecideRecord} {etcd : Etcd}
    (h : (transaction key record etcd).2.get? other = some r) :
    etcd.get? other = some r ∨ (etcd.get? other = none ∧ other = key ∧ r = record) := by
  unfold transaction at h
  split at h
  next => exact .inl h
  next hfree =>
    change (etcd.upsert key record).get? other = some r at h
    rw [Relational.Table.get?_upsert] at h
    split at h
    next heq =>
      refine .inr ⟨?_, heq, (Option.some.inj h).symm⟩
      rw [heq]
      exact Relational.Table.contains_eq_false_iff.mp (by simpa using hfree)
    next => exact .inl h

/-- A decision is in etcd since before, or the event has put it there. -/
theorem etcd_apply {node : EpochNode σ} {event : EpochEvent} {key : String} {r : DecideRecord}
    (h : (node.apply getBucketForNeed event).etcd.get? key = some r) : node.etcd.get? key = some r ∨
      event = .elsewhere key r ∨ (event = .tryDecide r ∧ node.epochs.getCurrentEpoch ≤ r.epoch) := by
  cases event with
  | reconcile | restart => exact .inl h
  | elsewhere other record =>
    rcases transaction_get? h with hbefore | ⟨-, rfl, rfl⟩
    · exact .inl hbefore
    · exact .inr (.inl rfl)
  | tryDecide record =>
    change (tryDecide getBucketForNeed node.epochs.getCurrentEpoch record node.etcd).2.get? key = some r at h
    unfold tryDecide at h
    split at h
    next => exact .inl h
    next hcurrent =>
      have hput : (transaction (getDecideKey getBucketForNeed record.needId) record node.etcd).2.get? key = some r := by
        dsimp only at h
        split at h <;> exact h
      rcases transaction_get? hput with hbefore | ⟨-, -, rfl⟩
      · exact .inl hbefore
      · exact .inr (.inr ⟨rfl, by simpa [stale] using hcurrent⟩)

/-- What a node decides after some messages has at least the epoch that they have led to. -/
theorem own_decisions_fenced {node : EpochNode σ} {events later : List EpochEvent}
    (hlossless : Lossless getBucketForNeed (events ++ later) node) {key : String} {r : DecideRecord}
    (hbefore : (run getBucketForNeed events node).etcd.get? key = none)
    (hnow : (run getBucketForNeed (events ++ later) node).etcd.get? key = some r) :
    EpochEvent.elsewhere key r ∈ later ∨ ∃ earlier rest, later = earlier ++ .tryDecide r :: rest ∧
      (run getBucketForNeed events node).epochs.getCurrentEpoch + EpochEvent.count earlier ≤ r.epoch := by
  have hlater := (lossless_append.mp hlossless).2
  rw [run_append] at hnow
  clear hlossless
  generalize run getBucketForNeed events node = base at hbefore hnow hlater
  induction later using List.reverseRecOn with
  | nil =>
    rw [run, List.foldl_nil, hbefore] at hnow
    cases hnow
  | append_singleton later event ih =>
    have hearlier := (lossless_append.mp hlater).1
    rw [run_concat] at hnow
    rcases etcd_apply hnow with hthere | rfl | ⟨rfl, hepoch⟩
    · rcases ih hthere hearlier with hmem | ⟨earlier, rest, rfl, hepoch⟩
      · exact .inl (List.mem_append_left _ hmem)
      · exact .inr ⟨earlier, rest ++ [event], by simp, hepoch⟩
    · exact .inl (by simp)
    · refine .inr ⟨later, [], rfl, ?_⟩
      rwa [epoch_of_lossless hearlier] at hepoch

def secondEpochDecision : DecideRecord := ⟨"need", "plan", 2, 5, 3, "coordinator", 0⟩

theorem own_decisions_fenced_second_epoch :
    EpochEvent.elsewhere "/decide/bucket-000/need" secondEpochDecision ∈ [EpochEvent.tryDecide secondEpochDecision] ∨
      ∃ earlier rest, [EpochEvent.tryDecide secondEpochDecision] = earlier ++ .tryDecide secondEpochDecision :: rest ∧
        (run (fun _ => 0) [.reconcile [] 6 true] freshNode).epochs.getCurrentEpoch + EpochEvent.count earlier ≤
          secondEpochDecision.epoch :=
  @own_decisions_fenced Nat (fun _ => 0) freshNode [.reconcile [] 6 true] [.tryDecide secondEpochDecision] trivial _ _ rfl
    (by decide)

end Decisions

section Orphans

/-- The store is one whose `annotate_task` only runs once it is awaited, or has none. -/
def Unawaited (store : AnnotatedStore σ) : Prop := ∀ annotate, store.annotateTask = some annotate →
  ∀ taskId annotations plan, ∃ next, annotate taskId annotations plan = .coroutine next

theorem callUnawaited_same {store : AnnotatedStore σ} (h : Unawaited store) (taskId : Json) (annotations : Policy.Dict) :
    store.callUnawaited taskId annotations = store := by
  unfold AnnotatedStore.callUnawaited
  split
  next annotate hannotate =>
    obtain ⟨next, hnext⟩ := h annotate hannotate taskId annotations store.plan
    rw [hnext]
  next => rfl

theorem markOrphaned_same {store : AnnotatedStore σ} (h : Unawaited store) (branch : Json) (winningEpoch now : Int) :
    store.markOrphaned branch winningEpoch now = (asDict "get" branch).map fun _ => store := by
  unfold AnnotatedStore.markOrphaned
  cases asDict "get" branch with
  | error e => rfl
  | ok fields =>
    show (if _ then _ else _) = Except.ok store
    split <;> simp [callUnawaited_same h]

theorem orphanAll_same {store : AnnotatedStore σ} (h : Unawaited store) (winningEpoch now : Int) (branches : List Json) :
    (orphanAll winningEpoch now branches store).2 = store ∧
      ((orphanAll winningEpoch now branches store).1 = .ok () ↔ ∀ branch ∈ branches, ∃ fields, branch = .obj fields) := by
  induction branches with
  | nil => exact ⟨rfl, by simp [orphanAll]⟩
  | cons branch rest ih =>
    unfold orphanAll
    rw [markOrphaned_same h]
    cases branch with
    | obj fields => exact ⟨ih.1, ih.2.trans (by simp)⟩
    | null | bool | int | float | str | arr => exact ⟨rfl, by simp [asDict, Except.map]⟩

/-- All branches are dictionaries, or no plan store is there to look at them. -/
def Legible (orphaned : Json) (store : Option (AnnotatedStore σ)) : Prop :=
  hasLen orphaned = .ok () ∧
    (store = none ∨ ∃ branches, iterate orphaned = .ok branches ∧ ∀ branch ∈ branches, ∃ fields, branch = .obj fields)

theorem orphanBranches_same {store : Option (AnnotatedStore σ)} (h : ∀ s, store = some s → Unawaited s) (orphaned : Json)
    (winningEpoch now : Int) : (orphanBranches orphaned winningEpoch now store).2 = store ∧
      ((orphanBranches orphaned winningEpoch now store).1 = .ok () ↔ Legible orphaned store) := by
  unfold orphanBranches Legible
  cases hlen : hasLen orphaned with
  | error e => exact ⟨rfl, by simp⟩
  | ok =>
    cases store with
    | none => exact ⟨rfl, by simp⟩
    | some s =>
      cases hiterate : iterate orphaned with
      | error e => exact ⟨rfl, by simp⟩
      | ok branches =>
        obtain ⟨hstore, hresult⟩ := orphanAll_same (h s rfl) winningEpoch now branches
        exact ⟨congrArg some hstore, hresult.trans (by simp)⟩

theorem handleReconcile_same {store : Option (AnnotatedStore σ)} (h : ∀ s, store = some s → Unawaited s)
    (envelope : Policy.Dict) (now : Int) (saved : Bool) (m : EpochManager) :
    (handleReconcile envelope now saved m store).2.2 = store ∧
      ((handleReconcile envelope now saved m store).1 = .ok () ↔ saved = true ∧
        ∃ payload, Policy.getOr envelope "payload" (.obj []) = .obj payload ∧
          Legible (Policy.getOr payload "orphaned_branches" (.arr [])) store) := by
  rw [handleReconcile]
  cases Policy.getOr envelope "payload" (.obj []) with
  | null | bool | int | float | str | arr => exact ⟨rfl, by simp [asDict]⟩
  | obj payload =>
    cases saved with
    | false => exact ⟨rfl, by simp [asDict]⟩
    | true =>
      obtain ⟨hstore, hresult⟩ := orphanBranches_same h (Policy.getOr payload "orphaned_branches" (.arr []))
        (m.advanceEpoch now true).getCurrentEpoch now
      refine ⟨hstore, ?_⟩
      show Except.mapError ReconcileError.raised (orphanBranches _ _ now store).1 = .ok () ↔ _
      simp only [Json.obj.injEq, exists_eq_left', true_and, ← hresult]
      cases (orphanBranches (Policy.getOr payload "orphaned_branches" (.arr []))
        (m.advanceEpoch now true).getCurrentEpoch now store).1 <;> simp [Except.mapError]

/-- No message ever marks a branch as orphaned; it is handled without an exception exactly if it can be read. -/
theorem reconcile_exact {node : EpochNode σ} (h : ∀ s, node.store = some s → Unawaited s) (events : List EpochEvent) :
    (run getBucketForNeed events node).store = node.store ∧ ∀ envelope now saved,
      ((handleReconcile envelope now saved (run getBucketForNeed events node).epochs (run getBucketForNeed events node).store).1 =
        .ok () ↔ saved = true ∧ ∃ payload, Policy.getOr envelope "payload" (.obj []) = .obj payload ∧
          Legible (Policy.getOr payload "orphaned_branches" (.arr [])) node.store) := by
  have hrun : (run getBucketForNeed events node).store = node.store := by
    induction events using List.reverseRecOn with
    | nil => rfl
    | append_singleton events event ih =>
      rw [run_concat]
      cases event with
      | tryDecide | elsewhere | restart => exact ih
      | reconcile envelope now saved =>
        have hsame := (@handleReconcile_same σ (run getBucketForNeed events node).store (by rwa [ih]) envelope now saved
          (run getBucketForNeed events node).epochs).1
        exact hsame.trans ih
  refine ⟨hrun, fun envelope now saved => ?_⟩
  rw [hrun]
  exact (handleReconcile_same h envelope now saved _).2

theorem reconcile_exact_coroutine :
    (run (fun _ => 0) [.reconcile [("payload", .obj [("orphaned_branches", .arr [.obj [("need_id", .str "need")]])])] 6 true]
      freshNode).store = freshNode.store :=
  (reconcile_exact (fun s hs annotate hannotate taskId annotations plan => by
    cases hs
    cases hannotate
    exact ⟨plan + 1, rfl⟩) _).1

end Orphans

end Runs

end AgentNetwork.Consensus
