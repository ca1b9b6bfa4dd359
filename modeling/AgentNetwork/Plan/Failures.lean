import AgentNetwork.Plan.Merge
import AgentNetwork.Library.Program
import AgentNetwork.Library.Traces

namespace AgentNetwork.Plan

open Relational StableSort AutomergePlanStore Transition

/-- `_apply_to_state` finds what it reads: the state of a STATE that is not skipped,
the two ends of a LINK. -/
structure Finds (doc : CRDTDocument) (op : PlanOp) : Prop where
  state : op.opType = .state → op.payload.contains "state" = true ∨
    ∃ task, doc.tasks.get? op.taskId = some task ∧ op.lamport ≤ task.lastLamport
  link : op.opType = .link →
    ∃ parent, op.payload.get? "parent" = some parent ∧ parent.hashable = true ∧ op.payload.contains "child" = true

/-- The payload has the keys that operations of its kind are read for. -/
structure PlanOp.Complete (op : PlanOp) : Prop where
  state : op.opType = .state → op.payload.contains "state" = true
  link : op.opType = .link →
    ∃ parent, op.payload.get? "parent" = some parent ∧ parent.hashable = true ∧ op.payload.contains "child" = true

/-- The entry of a log can be read and applied. -/
def Applies (doc : CRDTDocument) (d : OpDict) : Prop := ∃ op, d.toOp = .ok op ∧ Finds doc op

/-- Every operation of the log applies when its turn comes. -/
def Replays : List OpDict → CRDTDocument → Prop
  | [], _ => True
  | d :: rest, doc => Applies doc d ∧ ∀ doc', d.toOp.bind (applyToState doc) = .ok doc' → Replays rest doc'

def CRDTDocument.cleared (doc : CRDTDocument) : CRDTDocument :=
  { doc with tasks := .empty, edges := .empty, annotations := .empty }

def lamportOrder (ops : List OpDict) : List OpDict := sortOn (fun d => d.lamport.getD 0) ops

/-- The log is in lamport order and the state is what it makes up to an operation
that does not apply. -/
def Halted (doc : CRDTDocument) : Prop :=
  lamportOrder doc.ops = doc.ops ∧ ∃ before d after, doc.ops = before ++ d :: after ∧
    replayOps before doc.cleared = (.ok (), doc) ∧ ¬Applies doc d

section Apply

variable {doc : CRDTDocument} {op : PlanOp}

theorem payloadField_ok_iff {key : String} :
    (∃ value, payloadField op key = .ok value) ↔ op.payload.contains key = true := by
  rw [Table.contains_eq_true_iff, payloadField]
  cases op.payload.get? key with
  | none => simp [field]
  | some value => simp [field]

theorem setState_ok_iff : (∃ doc', setState doc op = .ok doc') ↔ op.payload.contains "state" = true ∨
    ∃ task, doc.tasks.get? op.taskId = some task ∧ op.lamport ≤ task.lastLamport := by
  rw [← payloadField_ok_iff]
  unfold setState
  cases doc.tasks.get? op.taskId with
  | none => cases payloadField op "state" <;> simp [bind, Except.bind]
  | some task =>
    dsimp only
    split
    next h => cases payloadField op "state" <;> simp [bind, Except.bind, h]
    next h =>
      have hle : op.lamport ≤ task.lastLamport := by omega
      simp [hle]

theorem addLink_ok_iff : (∃ doc', addLink doc op = .ok doc') ↔
    ∃ parent, op.payload.get? "parent" = some parent ∧ parent.hashable = true ∧ op.payload.contains "child" = true := by
  rw [← payloadField_ok_iff]
  unfold addLink payloadField
  cases op.payload.get? "parent" with
  | none => simp [field, bind, Except.bind]
  | some parent =>
    cases op.payload.get? "child" with
    | none => simp [field, bind, Except.bind]
    | some child => cases h : parent.hashable <;> simp [field, bind, Except.bind, h]

theorem applyToState_ok_iff : (∃ doc', applyToState doc op = .ok doc') ↔ Finds doc op := by
  unfold applyToState
  cases h : op.opType with
  | addTask => exact ⟨fun _ => ⟨by simp [h], by simp [h]⟩, fun _ => ⟨_, rfl⟩⟩
  | requires => exact ⟨fun _ => ⟨by simp [h], by simp [h]⟩, fun _ => ⟨_, rfl⟩⟩
  | produces => exact ⟨fun _ => ⟨by simp [h], by simp [h]⟩, fun _ => ⟨_, rfl⟩⟩
  | annotate => exact ⟨fun _ => ⟨by simp [h], by simp [h]⟩, fun _ => ⟨_, rfl⟩⟩
  | state =>
    dsimp only
    rw [setState_ok_iff]
    exact ⟨fun hs => ⟨fun _ => hs, by simp [h]⟩, fun hf => hf.state h⟩
  | link =>
    dsimp only
    rw [addLink_ok_iff]
    exact ⟨fun hl => ⟨by simp [h], fun _ => hl⟩, fun hf => hf.link h⟩

theorem finds_of_complete (h : op.Complete) : Finds doc op := ⟨fun hs => Or.inl (h.state hs), h.link⟩

/-- Applying an operation leaves the log and the version alone. -/
theorem applyToState_log {doc' : CRDTDocument} (h : applyToState doc op = .ok doc') :
    doc'.ops = doc.ops ∧ doc'.version = doc.version := by
  unfold applyToState at h
  split at h
  next =>
    rw [← Except.ok.inj h]
    exact (addTask_frame doc op).2.2
  next =>
    unfold setState at h
    split at h
    next =>
      obtain ⟨state, _, h⟩ := Transactional.except_bind_ok.mp h
      rw [← Except.ok.inj h]
      exact ⟨rfl, rfl⟩
    next =>
      split at h
      next =>
        obtain ⟨state, _, h⟩ := Transactional.except_bind_ok.mp h
        rw [← Except.ok.inj h]
        exact ⟨rfl, rfl⟩
      next =>
        rw [← Except.ok.inj h]
        exact ⟨rfl, rfl⟩
  next =>
    obtain ⟨parent, _, h⟩ := Transactional.except_bind_ok.mp h
    obtain ⟨child, _, h⟩ := Transactional.except_bind_ok.mp h
    split at h
    next =>
      rw [← Except.ok.inj h]
      exact ⟨rfl, rfl⟩
    next => cases h
  next =>
    rw [← Except.ok.inj h]
    exact ⟨rfl, rfl⟩
  next =>
    rw [← Except.ok.inj h]
    exact ⟨rfl, rfl⟩
  next =>
    rw [← Except.ok.inj h]
    exact ⟨rfl, rfl⟩

end Apply

section Replay

variable {doc doc' : CRDTDocument} {d : OpDict} {ops before after : List OpDict}

theorem applies_iff : Applies doc d ↔ ∃ doc', d.toOp.bind (applyToState doc) = .ok doc' := by
  unfold Applies
  cases hop : d.toOp with
  | error e =>
    constructor
    · intro h
      obtain ⟨op, hok, _⟩ := h
      cases hok
    · intro h
      obtain ⟨doc', hok⟩ := h
      cases hok
  | ok op =>
    rw [show (∃ doc', (Except.ok op).bind (applyToState doc) = .ok doc') ↔ Finds doc op from applyToState_ok_iff]
    constructor
    · intro h
      obtain ⟨op', hok, hfinds⟩ := h
      rw [Except.ok.inj hok]
      exact hfinds
    · intro h
      exact ⟨op, rfl, h⟩

theorem replayOps_log (ops : List OpDict) (doc : CRDTDocument) :
    (replayOps ops doc).2.ops = doc.ops ∧ (replayOps ops doc).2.version = doc.version := by
  induction ops generalizing doc with
  | nil => exact ⟨rfl, rfl⟩
  | cons d rest ih =>
    unfold replayOps
    split
    next doc' hbind =>
      cases hop : d.toOp with
      | error e =>
        rw [hop] at hbind
        cases hbind
      | ok op =>
        rw [hop] at hbind
        have hlog := applyToState_log hbind
        rw [← hlog.1, ← hlog.2]
        exact ih doc'
    next => exact ⟨rfl, rfl⟩

theorem replayOps_ok_iff : (replayOps ops doc).1 = .ok () ↔ Replays ops doc := by
  induction ops generalizing doc with
  | nil => exact ⟨fun _ => trivial, fun _ => rfl⟩
  | cons d rest ih =>
    rw [replayOps, Replays, applies_iff]
    cases hbind : d.toOp.bind (applyToState doc) with
    | ok doc₁ =>
      dsimp only
      rw [ih]
      constructor
      · intro h
        refine ⟨⟨doc₁, rfl⟩, ?_⟩
        intro doc' hsame
        rw [← Except.ok.inj hsame]
        exact h
      · intro h
        exact h.2 doc₁ rfl
    | error e =>
      constructor
      · intro h
        cases h
      · intro h
        obtain ⟨doc', hok⟩ := h.1
        cases hok

/-- A replay that raises keeps what the operations before the one that does not
apply have made. -/
theorem replayOps_halts (h : (replayOps ops doc).1 ≠ .ok ()) : ∃ before d after, ops = before ++ d :: after ∧
    replayOps before doc = (.ok (), (replayOps ops doc).2) ∧ ¬Applies (replayOps ops doc).2 d := by
  induction ops generalizing doc with
  | nil => exact absurd rfl h
  | cons d rest ih =>
    rw [replayOps] at h ⊢
    cases hbind : d.toOp.bind (applyToState doc) with
    | ok doc₁ =>
      rw [hbind] at h
      obtain ⟨before, d', after, hops, hbefore, hnot⟩ := ih h
      refine ⟨d :: before, d', after, by rw [hops]; rfl, ?_, hnot⟩
      rw [replayOps, hbind]
      exact hbefore
    | error e =>
      refine ⟨[], d, rest, rfl, rfl, ?_⟩
      rw [applies_iff]
      intro hok
      obtain ⟨doc', hok⟩ := hok
      cases hbind.symm.trans hok

theorem replayOps_halts_at (hbefore : replayOps before doc = (.ok (), doc')) (hnot : ¬Applies doc' d) :
    (replayOps (before ++ d :: after) doc).1 ≠ .ok () ∧ (replayOps (before ++ d :: after) doc).2 = doc' := by
  induction before generalizing doc with
  | nil =>
    have hdoc : doc = doc' := congrArg Prod.snd hbefore
    rw [List.nil_append, replayOps, hdoc]
    cases hbind : d.toOp.bind (applyToState doc') with
    | ok doc₁ => exact absurd (applies_iff.mpr ⟨doc₁, hbind⟩) hnot
    | error e =>
      refine ⟨?_, rfl⟩
      intro hok
      cases hok
  | cons d' before ih =>
    rw [List.cons_append, replayOps]
    rw [replayOps] at hbefore
    cases hbind : d'.toOp.bind (applyToState doc) with
    | ok doc₁ =>
      rw [hbind] at hbefore
      exact ih hbefore
    | error e =>
      rw [hbind] at hbefore
      cases congrArg Prod.fst hbefore

end Replay

/-- The document that a merge sorts and replays. -/
def merged (peer : CRDTDocument) (store : AutomergePlanStore) : CRDTDocument :=
  { store.doc with ops := lamportOrder (store.doc.ops ++ newOps store.opIds peer.ops) }

/-- The document once an operation is in its log. -/
def logged (op : PlanOp) (store : AutomergePlanStore) : CRDTDocument :=
  { store.doc with ops := store.doc.ops ++ [op.toDict], version := store.doc.version + 1 }

section Calls

variable {store : AutomergePlanStore} {peer : CRDTDocument} {op : PlanOp}

theorem appendOp_fresh (h : op.opId ∉ store.opIds) : appendOp op store =
    match applyToState (logged op store) op with
    | .ok doc => (.ok (), ⟨doc, store.opIds ++ [op.opId]⟩)
    | .error e => (.error e, ⟨logged op store, store.opIds ++ [op.opId]⟩) := if_neg h

theorem appendOp_unchanged_iff : ((appendOp op store).1 ≠ .ok () → (appendOp op store).2 = store) ↔
    op.opId ∈ store.opIds ∨ Finds store.doc op := by
  by_cases hid : op.opId ∈ store.opIds
  · have hsame : appendOp op store = (.ok (), store) := if_pos hid
    rw [hsame]
    exact ⟨fun _ => Or.inl hid, fun _ h => absurd rfl h⟩
  · have hfinds : Finds store.doc op ↔ Finds (logged op store) op := ⟨fun h => ⟨h.state, h.link⟩, fun h => ⟨h.state, h.link⟩⟩
    rw [appendOp_fresh hid, hfinds, ← applyToState_ok_iff]
    cases happly : applyToState (logged op store) op with
    | ok doc => exact ⟨fun _ => Or.inr ⟨doc, rfl⟩, fun _ h => absurd rfl h⟩
    | error e =>
      constructor
      · intro h
        have hversion : store.doc.version + 1 = store.doc.version :=
          congrArg (fun s : AutomergePlanStore => s.doc.version) (h nofun)
        omega
      · intro h
        obtain hknown | ⟨doc, hok⟩ := h
        · exact absurd hknown hid
        · cases hok

theorem mapM_field_ok_iff {α : Type} {key : String} {f : OpDict → Option α} {ops : List OpDict} :
    (∃ values, (ops.mapM fun d => field key (f d)) = .ok values) ↔ ∀ d ∈ ops, f d ≠ none := by
  induction ops with
  | nil => exact ⟨fun _ d hd => absurd hd List.not_mem_nil, fun _ => ⟨[], rfl⟩⟩
  | cons d rest ih =>
    rw [List.forall_mem_cons, ← ih, List.mapM_cons]
    cases hf : f d with
    | none => simp [field, bind, Except.bind]
    | some value =>
      cases hrest : rest.mapM fun d => field key (f d) with
      | error e => simp [field, bind, Except.bind]
      | ok values => simp [field, bind, Except.bind, pure, Except.pure]

theorem sortByLamport_ok {ops : List OpDict} (h : ∀ d ∈ ops, d.lamport ≠ none) :
    sortByLamport ops = .ok (lamportOrder ops) := by
  obtain ⟨values, hvalues⟩ := mapM_field_ok_iff.mpr h
  rw [sortByLamport, hvalues]
  rfl

theorem sortByLamport_error {ops : List OpDict} (h : ∃ d ∈ ops, d.lamport = none) :
    ∃ e, sortByLamport ops = .error e := by
  obtain ⟨d, hd, hnone⟩ := h
  cases hmap : ops.mapM fun d => field "lamport" d.lamport with
  | ok values => exact absurd hnone (mapM_field_ok_iff.mp ⟨values, hmap⟩ d hd)
  | error e =>
    rw [sortByLamport, hmap]
    exact ⟨e, rfl⟩

/-- A peer with an operation that has no id is refused before anything changes. -/
theorem mergeWithPeer_refused (h : ∃ d ∈ peer.ops, d.opId = none) : ∃ e, mergeWithPeer peer store = (.error e, store) := by
  obtain ⟨d, hd, hnone⟩ := h
  unfold mergeWithPeer
  cases hmap : peer.ops.mapM fun d => field "op_id" d.opId with
  | ok values => exact absurd hnone (mapM_field_ok_iff.mp ⟨values, hmap⟩ d hd)
  | error e => exact ⟨e, rfl⟩

theorem mergeWithPeer_unsorted (hid : ∀ d ∈ peer.ops, d.opId ≠ none)
    (h : ∃ d ∈ store.doc.ops ++ newOps store.opIds peer.ops, d.lamport = none) :
    ∃ e, mergeWithPeer peer store = (.error e, ⟨{ store.doc with ops := store.doc.ops ++ newOps store.opIds peer.ops },
      store.opIds ++ (newOps store.opIds peer.ops).map fun d => d.opId.getD ""⟩) := by
  obtain ⟨values, hvalues⟩ := mapM_field_ok_iff.mpr hid
  obtain ⟨e, hsort⟩ := sortByLamport_error h
  refine ⟨e, ?_⟩
  rw [mergeWithPeer, hvalues]
  dsimp only
  rw [hsort]

/-- A merge that comes to its replay raises as the replay does, and leaves what it has made. -/
theorem mergeWithPeer_replayed (hid : ∀ d ∈ peer.ops, d.opId ≠ none)
    (h : ∀ d ∈ store.doc.ops ++ newOps store.opIds peer.ops, d.lamport ≠ none) :
    let result := replayOps (merged peer store).ops (merged peer store).cleared
    (mergeWithPeer peer store).1 = result.1 ∧ (mergeWithPeer peer store).2.doc.ops = (merged peer store).ops ∧
    (result.1 ≠ .ok () → (mergeWithPeer peer store).2 =
      ⟨result.2, store.opIds ++ (newOps store.opIds peer.ops).map fun d => d.opId.getD ""⟩) := by
  obtain ⟨values, hvalues⟩ := mapM_field_ok_iff.mpr hid
  have hlog := (replayOps_log (merged peer store).ops (merged peer store).cleared).1
  have hrebuild : rebuildStateFromOps (merged peer store) =
      replayOps (merged peer store).ops (merged peer store).cleared := rfl
  rw [mergeWithPeer, hvalues]
  dsimp only
  rw [sortByLamport_ok h]
  dsimp only
  rw [show rebuildStateFromOps { store.doc with ops := lamportOrder (store.doc.ops ++ newOps store.opIds peer.ops) } =
    replayOps (merged peer store).ops (merged peer store).cleared from hrebuild]
  split
  next e doc' hresult =>
    rw [hresult] at hlog ⊢
    exact ⟨rfl, hlog, fun _ => rfl⟩
  next doc' hresult =>
    rw [hresult] at hlog ⊢
    exact ⟨rfl, hlog, fun hne => absurd rfl hne⟩

theorem lamport_of_applies {doc : CRDTDocument} {d : OpDict} (h : Applies doc d) : d.lamport ≠ none := by
  obtain ⟨op, hop, _⟩ := h
  intro hnone
  obtain ⟨opId, _, h⟩ := Transactional.except_bind_ok.mp hop
  obtain ⟨threadId, _, h⟩ := Transactional.except_bind_ok.mp h
  obtain ⟨lamport, hlamport, _⟩ := Transactional.except_bind_ok.mp h
  rw [hnone] at hlamport
  cases hlamport

theorem lamport_of_replays {ops : List OpDict} {doc : CRDTDocument} (h : Replays ops doc) :
    ∀ d ∈ ops, d.lamport ≠ none := by
  induction ops generalizing doc with
  | nil => exact fun d hd => absurd hd List.not_mem_nil
  | cons d rest ih =>
    obtain ⟨doc', hok⟩ := applies_iff.mp h.1
    exact List.forall_mem_cons.mpr ⟨lamport_of_applies h.1, ih (h.2 doc' hok)⟩

theorem mergeWithPeer_unchanged_iff : ((mergeWithPeer peer store).1 ≠ .ok () → (mergeWithPeer peer store).2 = store) ↔
    (∃ d ∈ peer.ops, d.opId = none) ∨ Replays (merged peer store).ops (merged peer store).cleared ∨
    (newOps store.opIds peer.ops = [] ∧ ((∃ d ∈ store.doc.ops, d.lamport = none) ∨ Halted store.doc)) := by
  by_cases hid : ∃ d ∈ peer.ops, d.opId = none
  · obtain ⟨e, hmerge⟩ := @mergeWithPeer_refused store peer hid
    rw [hmerge]
    exact ⟨fun _ => Or.inl hid, fun _ _ => rfl⟩
  have hids : ∀ d ∈ peer.ops, d.opId ≠ none := fun d hd hnone => hid ⟨d, hd, hnone⟩
  by_cases hlamport : ∃ d ∈ store.doc.ops ++ newOps store.opIds peer.ops, d.lamport = none
  · -- the sort raises, with the log already extended
    obtain ⟨e, hmerge⟩ := mergeWithPeer_unsorted hids hlamport
    obtain ⟨d, hd, hnone⟩ := hlamport
    rw [hmerge]
    constructor
    · intro h
      have hops : store.doc.ops ++ newOps store.opIds peer.ops = store.doc.ops :=
        congrArg (fun s : AutomergePlanStore => s.doc.ops) (h nofun)
      have hnew := List.append_right_eq_self.mp hops
      rw [hnew, List.append_nil] at hd
      exact Or.inr (Or.inr ⟨hnew, Or.inl ⟨d, hd, hnone⟩⟩)
    · intro h _
      obtain h | h | ⟨hnew, _⟩ := h
      · exact absurd h hid
      · exact absurd hnone (lamport_of_replays h d ((mem_sortOn _).mpr hd))
      · rw [hnew, List.append_nil, List.map_nil, List.append_nil]
  have hlamports : ∀ d ∈ store.doc.ops ++ newOps store.opIds peer.ops, d.lamport ≠ none :=
    fun d hd hnone => hlamport ⟨d, hd, hnone⟩
  obtain ⟨hresult, _, hleft⟩ := mergeWithPeer_replayed hids hlamports
  rw [hresult, ← replayOps_ok_iff]
  by_cases hok : (replayOps (merged peer store).ops (merged peer store).cleared).1 = .ok ()
  · exact ⟨fun _ => Or.inr (Or.inl hok), fun _ hne => absurd hok hne⟩
  rw [hleft hok]
  constructor
  · intro h
    have hsame := h hok
    have hnew : newOps store.opIds peer.ops = [] :=
      List.map_eq_nil_iff.mp (List.append_right_eq_self.mp (congrArg AutomergePlanStore.opIds hsame))
    have hdoc : (replayOps (merged peer store).ops (merged peer store).cleared).2 = store.doc :=
      congrArg AutomergePlanStore.doc hsame
    have hsorted : (merged peer store).ops = store.doc.ops := by
      have hlog := (replayOps_log (merged peer store).ops (merged peer store).cleared).1
      rw [hdoc] at hlog
      exact hlog.symm
    have hcleared : (merged peer store).cleared = store.doc.cleared := by
      show { store.doc.cleared with ops := (merged peer store).ops } = _
      rw [hsorted]
      rfl
    obtain ⟨before, d, after, hops, hbefore, hnot⟩ := replayOps_halts hok
    rw [hdoc] at hbefore hnot
    rw [hcleared] at hbefore
    have horder : lamportOrder store.doc.ops = store.doc.ops := by
      rw [merged, hnew, List.append_nil] at hsorted
      exact hsorted
    exact Or.inr (Or.inr ⟨hnew, Or.inr ⟨horder, before, d, after, hsorted ▸ hops, hbefore, hnot⟩⟩)
  · intro h _
    obtain h | h | ⟨hnew, hstuck⟩ := h
    · exact absurd h hid
    · exact absurd h hok
    · obtain ⟨d, hd, hnone⟩ | ⟨horder, before, d, after, hops, hbefore, hnot⟩ := hstuck
      · exact absurd hnone (hlamports d (List.mem_append_left _ hd))
      · have hmerged : merged peer store = store.doc := by
          rw [merged, hnew, List.append_nil, horder]
        rw [hmerged, hops, (replayOps_halts_at hbefore hnot).2, hnew, List.map_nil, List.append_nil]

end Calls

/-- An entry from which an operation can be read that has all it is read for. -/
def CompleteDict (d : OpDict) : Prop := ∃ op, d.toOp = .ok op ∧ op.Complete

inductive Call
  | append (op : PlanOp)
  | merge (peer : CRDTDocument)

/-- What a call brings into the log is complete. -/
def Call.Complete (store : AutomergePlanStore) : Call → Prop
  | .append op => op.opId ∈ store.opIds ∨ op.Complete
  | .merge peer => (∃ d ∈ peer.ops, d.opId = none) ∨ ∀ d ∈ newOps store.opIds peer.ops, CompleteDict d

/-- A call, after which the store stays as the call left it, raised or not. -/
inductive Call.Step (store : AutomergePlanStore) : Call → AutomergePlanStore → Prop
  | append (op : PlanOp) : Step store (.append op) (appendOp op store).2
  | merge (peer : CRDTDocument) : Step store (.merge peer) (mergeWithPeer peer store).2

section Runs

variable {store store' : AutomergePlanStore} {peer : CRDTDocument} {op : PlanOp}

theorem appendOp_ops (h : op.opId ∉ store.opIds) : (appendOp op store).2.doc.ops = store.doc.ops ++ [op.toDict] := by
  rw [appendOp_fresh h]
  split
  next doc happly => exact (applyToState_log happly).1
  next => rfl

theorem mem_mergeWithPeer_ops {d : OpDict} (h : d ∈ (mergeWithPeer peer store).2.doc.ops) :
    d ∈ store.doc.ops ∨ (d ∈ newOps store.opIds peer.ops ∧ ∀ d ∈ peer.ops, d.opId ≠ none) := by
  by_cases hid : ∃ d ∈ peer.ops, d.opId = none
  · obtain ⟨e, hmerge⟩ := @mergeWithPeer_refused store peer hid
    rw [hmerge] at h
    exact Or.inl h
  have hids : ∀ d ∈ peer.ops, d.opId ≠ none := fun d hd hnone => hid ⟨d, hd, hnone⟩
  have hboth : d ∈ store.doc.ops ++ newOps store.opIds peer.ops := by
    by_cases hlamport : ∃ d ∈ store.doc.ops ++ newOps store.opIds peer.ops, d.lamport = none
    · obtain ⟨e, hmerge⟩ := mergeWithPeer_unsorted hids hlamport
      rw [hmerge] at h
      exact h
    · have hreplayed := mergeWithPeer_replayed hids fun d hd hnone => hlamport ⟨d, hd, hnone⟩
      rw [hreplayed.2.1] at h
      exact (mem_sortOn _).mp h
  exact (List.mem_append.mp hboth).imp_right fun hnew => ⟨hnew, hids⟩

/-- Every entry of the log is complete. -/
def CompleteLog (store : AutomergePlanStore) : Prop := ∀ d ∈ store.doc.ops, CompleteDict d

theorem CompleteLog.step (h : CompleteLog store) {call : Call} (hok : call.Complete store)
    (hstep : call.Step store store') : CompleteLog store' := by
  cases hstep with
  | append op =>
    by_cases hid : op.opId ∈ store.opIds
    · rw [show appendOp op store = (.ok (), store) from if_pos hid]
      exact h
    · intro d hd
      rw [appendOp_ops hid] at hd
      rcases List.mem_append.mp hd with hold | hnew
      · exact h d hold
      · rw [List.mem_singleton.mp hnew]
        exact ⟨op, toOp_toDict op, hok.resolve_left hid⟩
  | merge peer =>
    intro d hd
    obtain hold | ⟨hnew, hids⟩ := mem_mergeWithPeer_ops hd
    · exact h d hold
    · obtain ⟨d', hd', hnone⟩ | hcomplete := hok
      · exact absurd hnone (hids d' hd')
      · exact hcomplete d hnew

theorem replays_of_complete {ops : List OpDict} {doc : CRDTDocument} (h : ∀ d ∈ ops, CompleteDict d) :
    Replays ops doc := by
  induction ops generalizing doc with
  | nil => trivial
  | cons d rest ih =>
    obtain ⟨hd, hrest⟩ := List.forall_mem_cons.mp h
    obtain ⟨op, hop, hcomplete⟩ := hd
    exact ⟨⟨op, hop, finds_of_complete hcomplete⟩, fun doc' _ => ih hrest⟩

theorem CompleteDict.opId {d : OpDict} (h : CompleteDict d) : d.opId ≠ none := by
  obtain ⟨op, hop, _⟩ := h
  intro hnone
  obtain ⟨opId, hfield, _⟩ := Transactional.except_bind_ok.mp hop
  rw [hnone] at hfield
  cases hfield

/-- On a complete log a merge with a complete peer does not raise. -/
theorem CompleteLog.merge_ok (h : CompleteLog store) (hpeer : ∀ d ∈ peer.ops, CompleteDict d) :
    (mergeWithPeer peer store).1 = .ok () := by
  have hboth : ∀ d ∈ store.doc.ops ++ newOps store.opIds peer.ops, CompleteDict d := by
    intro d hd
    rcases List.mem_append.mp hd with hold | hnew
    · exact h d hold
    · exact hpeer d (List.mem_filter.mp hnew).1
  have hreplays : Replays (merged peer store).ops (merged peer store).cleared :=
    replays_of_complete fun d hd => hboth d ((mem_sortOn _).mp hd)
  have hlamports := lamport_of_replays hreplays
  have hreplayed := mergeWithPeer_replayed (fun d hd => (hpeer d hd).opId)
    fun d hd => hlamports d ((mem_sortOn _).mpr hd)
  rw [hreplayed.1]
  exact replayOps_ok_iff.mpr hreplays

end Runs

end AgentNetwork.Plan
