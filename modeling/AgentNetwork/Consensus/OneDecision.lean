import AgentNetwork.Consensus.Raft

namespace AgentNetwork.Consensus

open Relational Transition

theorem padBucket_length {n : Nat} (h : n < 1000) : (padBucket n).length = 3 := by
  have hlen : (toString n).length ≤ 3 := (Nat.length_repr_le_iff (by omega)).mpr h
  rw [padBucket, String.length_append, String.length_ofList, List.length_replicate]
  omega

theorem getDecideKey_injective (getBucketForNeed : String → UInt8) :
    Function.Injective (getDecideKey getBucketForNeed) := by
  intro a b h
  have hsplit (s t need : String) : (s ++ t ++ "/" ++ need).toList = (s ++ t ++ "/").toList ++ need.toList :=
    String.toList_append
  have hlength (s t : String) : (s ++ t ++ "/").toList.length = s.length + t.length + "/".length := by
    rw [String.length_toList, String.length_append, String.length_append]
  have hpad (n : String) : (padBucket (getBucketForNeed n).toNat).length = 3 := by
    apply padBucket_length
    have := (getBucketForNeed n).toNat_lt
    omega
  have hlist := congrArg String.toList h
  unfold getDecideKey at hlist
  rw [hsplit, hsplit] at hlist
  have hneed := List.append_inj_right hlist (by rw [hlength, hlength, hpad, hpad])
  exact String.toList_inj.mp hneed

namespace Cluster

open RaftConsensusAdapter

variable {ν : Type} [DecidableEq ν] {getBucketForNeed : String → UInt8} {c c' : Cluster ν}

/-- Every record lies under the key of its need. -/
def Keyed (getBucketForNeed : String → UInt8) (etcd : Etcd) : Prop :=
  ∀ key r, etcd.get? key = some r → key = getDecideKey getBucketForNeed r.needId

/-- What a call returned names the decision that etcd keeps. -/
structure Sound (getBucketForNeed : String → UInt8) (c : Cluster ν) : Prop where
  keyed : Keyed getBucketForNeed c.etcd
  returned : ∀ id record r, c.calls id = some (.returned record (some r)) →
    ∃ e, c.etcd.get? (getDecideKey getBucketForNeed r.needId) = some e ∧ e.proposalId = r.proposalId ∧ e.epoch = r.epoch

/-- Every record that a call returned is the one that etcd keeps. -/
def ReturnsStored (getBucketForNeed : String → UInt8) (c : Cluster ν) : Prop :=
  ∀ id record r, c.calls id = some (.returned record (some r)) →
    c.etcd.get? (getDecideKey getBucketForNeed r.needId) = some r

/-- A retry that names the stored proposal and epoch is the call that stored them,
made again with the same arguments. -/
def Faithful (getBucketForNeed : String → UInt8) (c : Cluster ν) : Action ν → Prop
  | .read id => ∀ record e, c.calls id = some (.refused record) →
    c.etcd.get? (getDecideKey getBucketForNeed record.needId) = some e →
    e.proposalId = record.proposalId → e.epoch = record.epoch →
    e.lamport = record.lamport ∧ e.kPlan = record.kPlan ∧ e.deciderId = record.deciderId ∧ e.timestampNs = record.timestampNs
  | .call _ _ _ | .check _ | .transact _ | .advanceEpoch _ => True

theorem transaction_cases {key : String} {record : DecideRecord} {etcd etcd' : Etcd} {success : Bool}
    (h : transaction key record etcd = (success, etcd')) :
    (success = false ∧ etcd' = etcd) ∨
      (success = true ∧ etcd.get? key = none ∧ etcd' = etcd.upsert key record) := by
  unfold transaction at h
  split at h
  next =>
    obtain ⟨hs, he⟩ := Prod.mk.inj h
    exact Or.inl ⟨hs.symm, he.symm⟩
  next hc =>
    obtain ⟨hs, he⟩ := Prod.mk.inj h
    exact Or.inr ⟨hs.symm, Table.contains_eq_false_iff.mp (by simpa using hc), he.symm⟩

omit [DecidableEq ν] in
theorem setCall_calls (c : Cluster ν) (id j : Nat) (p : Progress ν) :
    (c.setCall id p).calls j = if j = id then some p else c.calls j := by
  unfold setCall
  by_cases h : j = id
  · subst h
    rw [if_pos rfl]
    exact Function.update_self j _ _
  · rw [if_neg h]
    exact Function.update_of_ne h _ _

/-- A stored decision is never replaced. -/
theorem Step.keeps {a : Action ν} (h : Step getBucketForNeed c a c') {key : String} {r : DecideRecord}
    (hr : c.etcd.get? key = some r) : c'.etcd.get? key = some r := by
  cases h with
  | call id node record hfree => exact hr
  | check id node record hcall => exact hr
  | transact id record success etcd hcall htxn =>
    show etcd.get? key = some r
    rcases transaction_cases htxn with ⟨_, he⟩ | ⟨_, hnone, he⟩
    · rw [he]
      exact hr
    · rw [he, Table.get?_upsert, if_neg]
      · exact hr
      · intro hkey
        rw [hkey, hnone] at hr
        cases hr
  | read id record hcall => exact hr
  | advanceEpoch node => exact hr

omit [DecidableEq ν] in
/-- The decision that a retry finds under the key of its need has its need. -/
theorem needId_of_get? (hk : Keyed getBucketForNeed c.etcd) {needId : String} {e : DecideRecord}
    (he : c.etcd.get? (getDecideKey getBucketForNeed needId) = some e) : e.needId = needId :=
  (getDecideKey_injective getBucketForNeed (hk _ _ he)).symm

theorem idempotentRetry_some {record r : DecideRecord} {existing : Option DecideRecord}
    (h : idempotentRetry record existing = some r) :
    r = record ∧ ∃ e, existing = some e ∧ e.proposalId = record.proposalId ∧ e.epoch = record.epoch := by
  cases existing with
  | none => cases h
  | some e =>
    simp only [idempotentRetry] at h
    split at h
    next hsame => exact ⟨(Option.some.inj h).symm, e, rfl, hsame⟩
    next => cases h

/-- The calls that have returned a record after a step: those before it, the one
whose transaction went through, and a retry that found its proposal. -/
theorem Step.returned_cases {a : Action ν} (h : Step getBucketForNeed c a c') {id : Nat} {record r : DecideRecord}
    (hr : c'.calls id = some (.returned record (some r))) :
    c.calls id = some (.returned record (some r)) ∨
      (a = .transact id ∧ c'.etcd.get? (getDecideKey getBucketForNeed r.needId) = some r) ∨
      (a = .read id ∧ c'.etcd = c.etcd ∧ c.calls id = some (.refused r) ∧
        ∃ e, c.etcd.get? (getDecideKey getBucketForNeed r.needId) = some e ∧
          e.proposalId = r.proposalId ∧ e.epoch = r.epoch) := by
  cases h with
  | call j node record' hfree =>
    rw [setCall_calls] at hr
    split at hr
    next => cases hr
    next => exact Or.inl hr
  | check j node record' hcall =>
    rw [setCall_calls] at hr
    split at hr
    next => split at hr <;> cases hr
    next => exact Or.inl hr
  | transact j record' success etcd hcall htxn =>
    rw [setCall_calls] at hr
    split at hr
    next hj =>
      rcases transaction_cases htxn with ⟨hs, _⟩ | ⟨hs, _, he⟩
      · rw [hs] at hr
        cases hr
      · rw [hs, if_pos rfl] at hr
        obtain ⟨_, hrec⟩ := Progress.returned.inj (Option.some.inj hr)
        refine Or.inr (Or.inl ⟨by rw [hj], ?_⟩)
        show etcd.get? _ = _
        rw [he, ← Option.some.inj hrec, Table.get?_upsert, if_pos rfl]
    next => exact Or.inl hr
  | read j record' hcall =>
    rw [setCall_calls] at hr
    split at hr
    next hj =>
      obtain ⟨_, hrec⟩ := Progress.returned.inj (Option.some.inj hr)
      obtain ⟨hsame, e, he, hprop, hepoch⟩ := idempotentRetry_some hrec
      rw [hsame]
      exact Or.inr (Or.inr ⟨by rw [hj], rfl, hj ▸ hcall, e, he, hprop, hepoch⟩)
    next => exact Or.inl hr
  | advanceEpoch node => exact Or.inl hr

theorem Sound.step {a : Action ν} (hs : Sound getBucketForNeed c) (h : Step getBucketForNeed c a c') :
    Sound getBucketForNeed c' where
  keyed := by
    cases h with
    | call id node record hfree => exact hs.keyed
    | check id node record hcall => exact hs.keyed
    | transact id record success etcd hcall htxn =>
      intro key r hr
      have hr : etcd.get? key = some r := hr
      rcases transaction_cases htxn with ⟨_, he⟩ | ⟨_, _, he⟩
      · rw [he] at hr
        exact hs.keyed key r hr
      · rw [he, Table.get?_upsert] at hr
        split at hr
        next hkey => rw [hkey, Option.some.inj hr]
        next => exact hs.keyed key r hr
    | read id record hcall => exact hs.keyed
    | advanceEpoch node => exact hs.keyed
  returned := by
    intro id record r hr
    rcases h.returned_cases hr with hbefore | ⟨_, hstored⟩ | ⟨_, hetcd, _, e, he, hsame⟩
    · obtain ⟨e, he, hsame⟩ := hs.returned id record r hbefore
      exact ⟨e, h.keeps he, hsame⟩
    · exact ⟨r, hstored, rfl, rfl⟩
    · exact ⟨e, by rw [hetcd]; exact he, hsame⟩

/-- A step keeps what was returned equal to what is stored if and only if it is no
retry under other arguments. -/
theorem ReturnsStored.step_iff {a : Action ν} (hs : Sound getBucketForNeed c) (hr : ReturnsStored getBucketForNeed c)
    (h : Step getBucketForNeed c a c') :
    ReturnsStored getBucketForNeed c' ↔ Faithful getBucketForNeed c a := by
  constructor
  · intro hafter
    cases h with
    | read id record hcall =>
      intro record' e hcall' he hprop hepoch
      have hrec : record' = record := by
        rw [hcall'] at hcall
        exact Progress.refused.inj (Option.some.inj hcall)
      rw [hrec] at he hprop hepoch ⊢
      have hreturn : (c.setCall id (.returned record (idempotentRetry record
          (c.etcd.get? (getDecideKey getBucketForNeed record.needId))))).calls id =
            some (.returned record (some record)) := by
        rw [setCall_calls, if_pos rfl, he]
        simp [idempotentRetry, hprop, hepoch]
      have hstored : c.etcd.get? (getDecideKey getBucketForNeed record.needId) = some record :=
        hafter id record record hreturn
      have hsame := Option.some.inj (he.symm.trans hstored)
      rw [hsame]
      exact ⟨rfl, rfl, rfl, rfl⟩
    | call id node record hfree => trivial
    | check id node record hcall => trivial
    | transact id record success etcd hcall htxn => trivial
    | advanceEpoch node => trivial
  · intro hfaithful id record r hret
    rcases h.returned_cases hret with hbefore | ⟨_, hstored⟩ | ⟨ha, hetcd, hcall, e, he, hprop, hepoch⟩
    · exact h.keeps (hr id record r hbefore)
    · exact hstored
    · rw [ha] at hfaithful
      obtain ⟨hlamport, hkplan, hdecider, htime⟩ := hfaithful r e hcall he hprop hepoch
      have hneed := needId_of_get? hs.keyed he
      have hsame : e = r := by
        cases e
        cases r
        simp_all
      rw [hetcd, he, hsame]

/-- No call has been made yet, and what etcd holds lies under its keys. -/
structure Start (getBucketForNeed : String → UInt8) (c : Cluster ν) : Prop where
  keyed : Keyed getBucketForNeed c.etcd
  idle : ∀ id, c.calls id = none

/-- The clusters that steps allowed by `ok` lead to. -/
def Reached (getBucketForNeed : String → UInt8) (ok : Cluster ν → Action ν → Prop) (start : Cluster ν) :
    Cluster ν → Prop := Visits (Step getBucketForNeed) ok start

omit [DecidableEq ν] in
theorem Start.sound {start : Cluster ν} (h : Start getBucketForNeed start) : Sound getBucketForNeed start where
  keyed := h.keyed
  returned id record r hr := by
    rw [h.idle] at hr
    cases hr

theorem Reached.sound {ok : Cluster ν → Action ν → Prop} {start : Cluster ν} (h0 : Start getBucketForNeed start)
    (h : Reached getBucketForNeed ok start c) : Sound getBucketForNeed c :=
  Visits.invariant h h0.sound fun hs _ hstep => hs.step hstep

theorem Reached.keeps {ok : Cluster ν → Action ν → Prop} {start : Cluster ν} (h : Reached getBucketForNeed ok start c)
    {key : String} {r : DecideRecord} (hr : start.etcd.get? key = some r) : c.etcd.get? key = some r :=
  Visits.invariant (I := fun c => c.etcd.get? key = some r) h hr fun hs _ hstep => hstep.keeps hs

/-- The steps of a call that nothing interrupts are `try_decide`. -/
theorem tryDecide_uninterrupted {id : Nat} {node : ν} {record : DecideRecord}
    (hcall : c.calls id = some (.called node record)) :
    ∃ c', Reached getBucketForNeed (fun _ _ => True) c c' ∧
      c'.calls id = some (.returned record (tryDecide getBucketForNeed (c.epochs node) record c.etcd).1) ∧
      c'.etcd = (tryDecide getBucketForNeed (c.epochs node) record c.etcd).2 ∧
      c'.epochs = c.epochs ∧ ∀ j, j ≠ id → c'.calls j = c.calls j := by
  have hself (c : Cluster ν) (p : Progress ν) : (c.setCall id p).calls id = some p := by
    rw [setCall_calls, if_pos rfl]
  have hother (c : Cluster ν) (p : Progress ν) {j : Nat} (hj : j ≠ id) : (c.setCall id p).calls j = c.calls j := by
    rw [setCall_calls, if_neg hj]
  have hcheck : Reached getBucketForNeed (fun _ _ => True) c
      (c.setCall id (if stale (c.epochs node) record then .returned record none else .checked record)) :=
    .next .start trivial (.check id node record hcall)
  cases hstale : stale (c.epochs node) record with
  | true =>
    have htry : tryDecide getBucketForNeed (c.epochs node) record c.etcd = (none, c.etcd) := by simp [tryDecide, hstale]
    rw [hstale] at hcheck
    rw [htry]
    exact ⟨_, hcheck, hself _ _, rfl, rfl, fun j hj => hother _ _ hj⟩
  | false =>
    rw [hstale] at hcheck
    cases htxn : transaction (getDecideKey getBucketForNeed record.needId) record c.etcd with
    | mk success etcd =>
      have htransact := Visits.next hcheck trivial (.transact id record success etcd (hself _ _) htxn)
      cases success with
      | true =>
        have htry : tryDecide getBucketForNeed (c.epochs node) record c.etcd = (some record, etcd) := by
          simp [tryDecide, hstale, htxn]
        rw [htry]
        exact ⟨_, htransact, hself _ _, rfl, rfl, fun j hj => (hother _ _ hj).trans (hother _ _ hj)⟩
      | false =>
        have htry : tryDecide getBucketForNeed (c.epochs node) record c.etcd =
            (idempotentRetry record (etcd.get? (getDecideKey getBucketForNeed record.needId)), etcd) := by
          simp [tryDecide, hstale, htxn]
        rw [htry]
        have hread := Visits.next htransact trivial (.read id record (hself _ _))
        exact ⟨_, hread, hself _ _, rfl, rfl, fun j hj => (hother _ _ hj).trans ((hother _ _ hj).trans (hother _ _ hj))⟩

/-- A stored decision stays, what is returned names it, and a call below the epoch
of its node is turned away; what is returned is the stored record itself in every
run without retries under other arguments, and through no other step is that lost. -/
theorem one_decision_per_need {start : Cluster ν} (h0 : Start getBucketForNeed start)
    (h : Reached getBucketForNeed (fun _ _ => True) start c) :
    (∀ c', Reached getBucketForNeed (fun _ _ => True) c c' → ∀ needId r,
      getDecide getBucketForNeed needId c.etcd = some r → getDecide getBucketForNeed needId c'.etcd = some r) ∧
    (∀ id record r, c.calls id = some (.returned record (some r)) →
      ∃ e, getDecide getBucketForNeed r.needId c.etcd = some e ∧ e.proposalId = r.proposalId ∧ e.epoch = r.epoch) ∧
    (∀ id node record c', c.calls id = some (.called node record) → record.epoch < c.epochs node →
      Step getBucketForNeed c (.check id) c' → c'.calls id = some (.returned record none) ∧ c'.etcd = c.etcd) ∧
    (Reached getBucketForNeed (Faithful getBucketForNeed) start c → ReturnsStored getBucketForNeed c) ∧
    (∀ a c', ReturnsStored getBucketForNeed c → Step getBucketForNeed c a c' →
      (ReturnsStored getBucketForNeed c' ↔ Faithful getBucketForNeed c a)) := by
  refine ⟨fun c' h' needId r hr => h'.keeps hr, (h.sound h0).returned, ?_, ?_, ?_⟩
  · intro id node record c' hcall hepoch hstep
    cases hstep with
    | check id node' record' hcall' =>
      obtain ⟨hnode, hrecord⟩ := Progress.called.inj (Option.some.inj (hcall'.symm.trans hcall))
      have hstale : stale (c.epochs node) record = true := decide_eq_true hepoch
      rw [hnode, hrecord, hstale]
      exact ⟨by rw [setCall_calls, if_pos rfl]; rfl, rfl⟩
  · intro hrun
    have hboth := Visits.invariant (I := fun c => Sound getBucketForNeed c ∧ ReturnsStored getBucketForNeed c) hrun
      ⟨h0.sound, fun id record r hr => by rw [h0.idle] at hr; cases hr⟩
      fun hs hok hstep => ⟨hs.1.step hstep, (hs.2.step_iff hs.1 hstep).mpr hok⟩
    exact hboth.2
  · intro a c' hr hstep
    exact hr.step_iff (h.sound h0) hstep

def quietCluster : Cluster Bool := ⟨.empty, fun _ => 1, fun _ => none⟩

theorem start_quietCluster : Start (fun _ => 0) quietCluster := ⟨nofun, fun _ => rfl⟩

def firstCall : DecideRecord := ⟨"need", "plan-a", 1, 5, 3, "coordinator", 0⟩

/-- The same proposal in the same epoch, decided by someone else later. -/
def laterRetry : DecideRecord := { firstCall with lamport := 9, deciderId := "quorum-system" }

theorem one_decision_per_need_first_call : ∃ c, Reached (fun _ => 0) (Faithful fun _ => 0) quietCluster c ∧
    c.calls 0 = some (.returned firstCall (some firstCall)) ∧ ReturnsStored (fun _ => 0) c := by
  have hcall : Reached (fun _ => 0) (Faithful fun _ => 0) quietCluster (quietCluster.setCall 0 (.called true firstCall)) := by
    refine .next .start ?_ (.call 0 true firstCall rfl)
    trivial
  have hcheck : Reached (fun _ => 0) (Faithful fun _ => 0) quietCluster
      ((quietCluster.setCall 0 (.called true firstCall)).setCall 0 (.checked firstCall)) := by
    refine .next hcall ?_ (.check 0 true firstCall rfl)
    trivial
  have hrun : Reached (fun _ => 0) (Faithful fun _ => 0) quietCluster
      ({ (quietCluster.setCall 0 (.called true firstCall)).setCall 0 (.checked firstCall) with
        etcd := Table.empty.upsert (getDecideKey (fun _ => 0) "need") firstCall }.setCall 0
          (.returned firstCall (some firstCall))) := by
    refine .next hcheck ?_ (.transact 0 firstCall true _ rfl rfl)
    trivial
  have hany := Visits.invariant (I := Reached (fun _ => 0) (fun _ _ => True) quietCluster) hrun .start
    fun hs _ hstep => .next hs trivial hstep
  exact ⟨_, hrun, by decide, (one_decision_per_need start_quietCluster hany).2.2.2.1 hrun⟩

/-- A second client decides what a first one has decided, and is told that its own
record is the decision. -/
theorem retry_returns_unstored_record : ∃ c, Reached (fun _ => 0) (fun _ _ => True) quietCluster c ∧
    c.calls 1 = some (.returned laterRetry (some laterRetry)) ∧
    getDecide (fun _ => 0) "need" c.etcd = some firstCall ∧ ¬ReturnsStored (fun _ => 0) c := by
  have hcall₁ : Reached (fun _ => 0) (fun _ _ => True) quietCluster (quietCluster.setCall 0 (.called true firstCall)) :=
    .next .start trivial (.call 0 true firstCall rfl)
  have hcalled₁ : (quietCluster.setCall 0 (.called true firstCall)).calls 0 = some (.called true firstCall) := by
    rw [setCall_calls, if_pos rfl]
  obtain ⟨c₁, hrun₁, _, hetcd₁, hepochs₁, hothers₁⟩ :=
    @tryDecide_uninterrupted Bool _ (fun _ => 0) _ 0 true firstCall hcalled₁
  have hfree : c₁.calls 1 = none := hothers₁ 1 (by decide)
  have hcalled₂ : (c₁.setCall 1 (.called false laterRetry)).calls 1 = some (.called false laterRetry) := by
    rw [setCall_calls, if_pos rfl]
  obtain ⟨c₂, hrun₂, hreturned, hetcd₂, _, _⟩ :=
    @tryDecide_uninterrupted Bool _ (fun _ => 0) _ 1 false laterRetry hcalled₂
  have hbefore : (c₁.setCall 1 (.called false laterRetry)).etcd = c₁.etcd := rfl
  have hepoch : (c₁.setCall 1 (.called false laterRetry)).epochs false = 1 := by
    show c₁.epochs false = 1
    rw [hepochs₁]
    rfl
  rw [hbefore, hepoch, hetcd₁] at hreturned hetcd₂
  have hresult : c₂.calls 1 = some (.returned laterRetry (some laterRetry)) := by
    rw [hreturned]
    decide +kernel
  have hstored : getDecide (fun _ => 0) "need" c₂.etcd = some firstCall := by
    rw [hetcd₂]
    decide +kernel
  refine ⟨c₂, (Visits.next (hcall₁.trans hrun₁) trivial (.call 1 false laterRetry hfree)).trans hrun₂, hresult, hstored, ?_⟩
  intro hall
  have hsame : some laterRetry = some firstCall := (hall 1 laterRetry laterRetry hresult).symm.trans hstored
  exact absurd hsame (by decide)

end Cluster

end AgentNetwork.Consensus
