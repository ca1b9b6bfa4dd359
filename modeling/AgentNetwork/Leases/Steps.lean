import AgentNetwork.Leases.Manager

/-! What a step of the system can do to the rows, to the expectations, to the published
messages and to what the monitor is about to do. -/

namespace AgentNetwork.Leases

open Relational

/-- The leases of the list at hand that may still be reported or deleted. -/
def Monitor.listed : Monitor → List String
  | .checkExpiry | .checkMissedHeartbeats => []
  | .handling _ _ (.removeExpectation false) rest => rest
  | .handling _ leaseId _ rest => leaseId :: rest

/-- The lease that `get_lease` found and that is not deleted yet. -/
def Monitor.committed : Monitor → Option String
  | .handling _ leaseId (.publishRelease _) _ | .handling _ leaseId (.removeExpectation true) _
  | .handling _ leaseId .deleteLease _ => some leaseId
  | _ => none

/-- The RELEASE of the lease is published and the lease not deleted yet. -/
def Monitor.Finishing (monitor : Monitor) (leaseId : String) : Prop :=
  ∃ reason rest, monitor = .handling reason leaseId (.removeExpectation true) rest ∨
    monitor = .handling reason leaseId .deleteLease rest

@[simp] theorem Monitor.committed_next (reason : ReleaseReason) (ids : List String) : (Monitor.next reason ids).committed = none := by
  cases ids with
  | nil => cases reason <;> rfl
  | cons id rest => rfl

@[simp] theorem Monitor.listed_next (reason : ReleaseReason) (ids : List String) : (Monitor.next reason ids).listed = ids := by
  cases ids with
  | nil => cases reason <;> rfl
  | cons id rest => rfl

theorem Monitor.next_ne_publish {reason reason' : ReleaseReason} {ids rest : List String} {leaseId : String} {lease : LeaseRecord} :
    Monitor.next reason ids ≠ .handling reason' leaseId (.publishRelease lease) rest := by
  cases ids with
  | nil => cases reason <;> exact nofun
  | cons id rest => exact nofun

namespace System

variable {uuid4 : Nat → String} {s : System} {id : String} {lease : LeaseRecord}

/-- All that a step of the monitor can do. -/
inductive MonitorStep (s : System) : System → Prop
  | expired (hm : s.monitor = .checkExpiry) :
      MonitorStep s { s with monitor := .next .timeout (s.manager.checkExpiry s.now) }
  | missed (hm : s.monitor = .checkMissedHeartbeats) :
      MonitorStep s { s with monitor := .next .heartbeatMiss (s.protocol.checkMissedHeartbeats s.now) }
  | found {reason : ReleaseReason} {leaseId : String} {rest : List String} {lease : LeaseRecord}
      (hm : s.monitor = .handling reason leaseId .getLease rest) (hget : s.manager.getLease leaseId = some lease) :
      MonitorStep s { s with monitor := .handling reason leaseId (.publishRelease lease) rest }
  | skipped {leaseId : String} {rest : List String} (hm : s.monitor = .handling .timeout leaseId .getLease rest) :
      MonitorStep s { s with monitor := .next .timeout rest }
  | gone {leaseId : String} {rest : List String} (hm : s.monitor = .handling .heartbeatMiss leaseId .getLease rest) :
      MonitorStep s { s with monitor := .handling .heartbeatMiss leaseId (.removeExpectation false) rest }
  | published {reason : ReleaseReason} {leaseId : String} {rest : List String} {lease : LeaseRecord}
      (hm : s.monitor = .handling reason leaseId (.publishRelease lease) rest) :
      MonitorStep s { s.publishRelease lease.taskId leaseId reason with
        monitor := .handling reason leaseId (.removeExpectation true) rest }
  | forgotten {reason : ReleaseReason} {leaseId : String} {rest : List String}
      (hm : s.monitor = .handling reason leaseId (.removeExpectation true) rest) :
      MonitorStep s { s with
        protocol := s.protocol.removeExpectation leaseId, monitor := .handling reason leaseId .deleteLease rest }
  | dropped {reason : ReleaseReason} {leaseId : String} {rest : List String}
      (hm : s.monitor = .handling reason leaseId (.removeExpectation false) rest) :
      MonitorStep s { s with protocol := s.protocol.removeExpectation leaseId, monitor := .next reason rest }
  | deleted {reason : ReleaseReason} {leaseId : String} {rest : List String}
      (hm : s.monitor = .handling reason leaseId .deleteLease rest) :
      MonitorStep s { s with manager := (s.manager.deleteLease leaseId).2, monitor := .next reason rest }

theorem monitorStep_spec (s : System) : MonitorStep s s.monitorStep := by
  unfold monitorStep
  split
  next hm => exact .expired hm
  next hm => exact .missed hm
  next reason leaseId rest hm =>
    split
    next hget => exact .found hm hget
    next => exact .skipped hm
    next => exact .gone hm
  next hm => exact .published hm
  next reason leaseId found rest hm =>
    cases found with
    | true => exact .forgotten hm
    | false => exact .dropped hm
  next hm => exact .deleted hm

/-- The one step that publishes. -/
theorem released_step (uuid4 : Nat → String) (s : System) (a : Action) : (s.step uuid4 a).released = s.released ∨
    ∃ reason leaseId lease rest, s.monitor = .handling reason leaseId (.publishRelease lease) rest ∧
      (s.step uuid4 a).released = s.released ++ [leaseId] ∧ (s.step uuid4 a).monitor.Finishing leaseId := by
  cases a with
  | monitor =>
    change s.monitorStep.released = _ ∨
      ∃ reason leaseId lease rest, _ ∧ s.monitorStep.released = _ ∧ s.monitorStep.monitor.Finishing leaseId
    generalize s.monitorStep = s', monitorStep_spec s = hstep
    cases hstep with
    | published hm =>
      cases hbus : s.bus with
      | none => exact Or.inl (by simp [released, publishRelease, hbus])
      | some messages =>
        exact Or.inr ⟨_, _, _, _, hm, by simp [released, publishRelease, hbus], _, _, Or.inl rfl⟩
    | _ => exact Or.inl rfl
  | _ => exact Or.inl rfl

/-- The steps that take rows out. -/
theorem getLease_step (a : Action) (hget : s.manager.getLease id = some lease) :
    (∃ lease', (s.step uuid4 a).manager.getLease id = some lease') ∨ (a = .scavengeExpired ∧ lease.isExpired s.now = true) ∨
      a = .monitor ∧ ∃ reason rest, s.monitor = .handling reason id .deleteLease rest := by
  cases a with
  | monitor =>
    change (∃ lease', s.monitorStep.manager.getLease id = some lease') ∨ _
    generalize s.monitorStep = s', monitorStep_spec s = hstep
    cases hstep with
    | @deleted reason leaseId rest hm =>
      by_cases hid : id = leaseId
      · subst hid
        exact Or.inr (Or.inr ⟨rfl, reason, rest, hm⟩)
      · exact Or.inl ⟨lease, by simp [LeaseManager.getLease_deleteLease, hid, hget]⟩
    | _ => exact Or.inl ⟨lease, hget⟩
  | scavengeExpired =>
    cases hexpired : lease.isExpired s.now with
    | true => exact Or.inr (Or.inl ⟨rfl, rfl⟩)
    | false => exact Or.inl ⟨lease, by simp [step, LeaseManager.getLease_scavengeExpired, hget, hexpired, Option.filter_some]⟩
  | createLease taskId workerId ttl heartbeatInterval =>
    apply Or.inl
    change ∃ lease', ((s.manager.createLease (uuid4 s.issued) s.now taskId workerId ttl heartbeatInterval).getD
      s.manager).getLease id = some lease'
    cases hcreate : s.manager.createLease (uuid4 s.issued) s.now taskId workerId ttl heartbeatInterval with
    | none => exact ⟨lease, hget⟩
    | some manager =>
      rw [Option.getD_some, LeaseManager.getLease_createLease hcreate]
      split
      · exact ⟨_, rfl⟩
      · exact ⟨lease, hget⟩
  | renewLease leaseId =>
    apply Or.inl
    simp only [step, LeaseManager.renewLease, LeaseManager.getLease_modify]
    split
    next hid => exact ⟨_, by rw [← hid, hget]; rfl⟩
    next => exact ⟨lease, hget⟩
  | heartbeat leaseId =>
    apply Or.inl
    simp only [step, LeaseManager.heartbeat, LeaseManager.getLease_modify]
    split
    next hid => exact ⟨_, by rw [← hid, hget]; rfl⟩
    next => exact ⟨lease, hget⟩
  | tick elapsed => exact Or.inl ⟨lease, hget⟩
  | expectHeartbeat leaseId interval => exact Or.inl ⟨lease, hget⟩
  | receiveHeartbeat leaseId => exact Or.inl ⟨lease, hget⟩

/-- The one step that puts a row where none was. -/
theorem created_step (a : Action) (hnone : s.manager.getLease id = none) (hget : (s.step uuid4 a).manager.getLease id = some lease) :
    id = uuid4 s.issued ∧ (s.step uuid4 a).issued = s.issued + 1 := by
  cases a with
  | monitor =>
    exfalso
    change s.monitorStep.manager.getLease id = _ at hget
    have hstep := monitorStep_spec s
    revert hget
    generalize s.monitorStep = s' at hstep
    cases hstep with
    | deleted hm => simp [LeaseManager.getLease_deleteLease, hnone]
    | _ => exact fun hget => absurd (hnone.symm.trans hget) nofun
  | scavengeExpired => simp [step, LeaseManager.getLease_scavengeExpired, hnone] at hget
  | createLease taskId workerId ttl heartbeatInterval =>
    refine ⟨?_, rfl⟩
    change ((s.manager.createLease (uuid4 s.issued) s.now taskId workerId ttl heartbeatInterval).getD
      s.manager).getLease id = some lease at hget
    cases hcreate : s.manager.createLease (uuid4 s.issued) s.now taskId workerId ttl heartbeatInterval with
    | none =>
      rw [hcreate] at hget
      exact absurd (hnone.symm.trans hget) nofun
    | some manager =>
      rw [hcreate, Option.getD_some, LeaseManager.getLease_createLease hcreate] at hget
      by_contra hid
      rw [if_neg hid] at hget
      exact absurd (hnone.symm.trans hget) nofun
  | renewLease leaseId =>
    simp only [step, LeaseManager.renewLease, LeaseManager.getLease_modify] at hget
    split at hget
    next hid => simp [← hid, hnone] at hget
    next => exact absurd (hnone.symm.trans hget) nofun
  | heartbeat leaseId =>
    simp only [step, LeaseManager.heartbeat, LeaseManager.getLease_modify] at hget
    split at hget
    next hid => simp [← hid, hnone] at hget
    next => exact absurd (hnone.symm.trans hget) nofun
  | tick elapsed => exact absurd (hnone.symm.trans hget) nofun
  | expectHeartbeat leaseId interval => exact absurd (hnone.symm.trans hget) nofun
  | receiveHeartbeat leaseId => exact absurd (hnone.symm.trans hget) nofun

theorem issued_step (uuid4 : Nat → String) (s : System) (a : Action) : s.issued ≤ (s.step uuid4 a).issued := by
  cases a with
  | monitor =>
    change s.issued ≤ s.monitorStep.issued
    generalize s.monitorStep = s', monitorStep_spec s = hstep
    cases hstep <;> exact le_rfl
  | createLease taskId workerId ttl heartbeatInterval => exact Nat.le_succ _
  | _ => exact le_rfl

theorem now_step (uuid4 : Nat → String) (s : System) (a : Action) : s.now ≤ (s.step uuid4 a).now := by
  cases a with
  | monitor =>
    change s.now ≤ s.monitorStep.now
    generalize s.monitorStep = s', monitorStep_spec s = hstep
    cases hstep <;> exact le_rfl
  | tick elapsed => exact Int.le_add_of_nonneg_right (Int.natCast_nonneg elapsed)
  | _ => exact le_rfl

/-- A lease is committed to when its row is found. -/
theorem committed_step (a : Action) (hc : (s.step uuid4 a).monitor.committed = some id) :
    s.monitor.committed = some id ∨ s.manager.getLease id ≠ none := by
  cases a with
  | monitor =>
    change s.monitorStep.monitor.committed = _ at hc
    have hstep := monitorStep_spec s
    revert hc
    generalize s.monitorStep = s' at hstep
    cases hstep with
    | found hm hget =>
      intro hc
      cases hc
      exact Or.inr (by simp [hget])
    | published hm => exact fun hc => Or.inl (by rw [hm]; exact hc)
    | forgotten hm => exact fun hc => Or.inl (by rw [hm]; exact hc)
    | gone => exact nofun
    | _ => simp
  | _ => exact Or.inl hc

/-- A published lease is deleted before anything else is handled. -/
theorem finishing_step (a : Action) (hf : s.monitor.Finishing id) :
    (s.step uuid4 a).monitor.Finishing id ∨ (s.step uuid4 a).manager.getLease id = none := by
  cases a with
  | monitor =>
    change s.monitorStep.monitor.Finishing id ∨ s.monitorStep.manager.getLease id = none
    generalize s.monitorStep = s', monitorStep_spec s = hstep
    obtain ⟨reason, rest, hold | hold⟩ := hf
    · cases hstep with
      | forgotten hm =>
        cases hold.symm.trans hm
        exact Or.inl ⟨reason, rest, Or.inr rfl⟩
      | _ hm => cases hold.symm.trans hm
    · cases hstep with
      | deleted hm =>
        cases hold.symm.trans hm
        exact Or.inr (by simp [LeaseManager.getLease_deleteLease])
      | _ hm => cases hold.symm.trans hm
  | _ => exact Or.inl hf

/-- What is about to be published was so before, or has just been found. -/
theorem publishing_step {reason : ReleaseReason} {rest : List String} (a : Action)
    (hm : (s.step uuid4 a).monitor = .handling reason id (.publishRelease lease) rest) :
    (s.step uuid4 a).released = s.released ∧ (s.monitor = .handling reason id (.publishRelease lease) rest ∨
      s.monitor = .handling reason id .getLease rest ∧ s.manager.getLease id = some lease) := by
  cases a with
  | monitor =>
    change s.monitorStep.monitor = _ at hm
    change s.monitorStep.released = _ ∧ _
    have hstep := monitorStep_spec s
    revert hm
    generalize s.monitorStep = s' at hstep ⊢
    cases hstep with
    | found hold hget =>
      intro hm
      cases hm
      exact ⟨rfl, Or.inr ⟨hold, hget⟩⟩
    | gone => exact nofun
    | published => exact nofun
    | forgotten => exact nofun
    | _ => exact fun hm => absurd hm Monitor.next_ne_publish
  | _ => exact ⟨rfl, Or.inl hm⟩

/-- A step that is no call of a worker leaves or removes rows and expectations, and its time goes on. -/
structure Passive (s s' : System) : Prop where
  getLease : ∀ id lease, s'.manager.getLease id = some lease → s.manager.getLease id = some lease
  expectations : ∀ id deadline, s'.protocol.expectations.get? id = some deadline → s.protocol.expectations.get? id = some deadline
  now : s.now ≤ s'.now

theorem passive_monitorStep (s : System) : Passive s s.monitorStep := by
  generalize s.monitorStep = s', monitorStep_spec s = hstep
  have hforgets : ∀ leaseId id deadline, (s.protocol.removeExpectation leaseId).expectations.get? id = some deadline →
      s.protocol.expectations.get? id = some deadline := by
    intro leaseId id deadline hget
    rw [HeartbeatProtocol.removeExpectation, Table.get?_erase] at hget
    split at hget
    · cases hget
    · exact hget
  cases hstep with
  | forgotten => exact ⟨fun _ _ h => h, hforgets _, le_rfl⟩
  | dropped => exact ⟨fun _ _ h => h, hforgets _, le_rfl⟩
  | deleted =>
    refine ⟨?_, fun _ _ h => h, le_rfl⟩
    intro id lease hget
    rw [LeaseManager.getLease_deleteLease] at hget
    split at hget
    · cases hget
    · exact hget
  | _ => exact ⟨fun _ _ h => h, fun _ _ h => h, le_rfl⟩

theorem passive_scavengeExpired (s : System) : Passive s { s with manager := (s.manager.scavengeExpired s.now).2 } := by
  refine ⟨?_, fun _ _ h => h, le_rfl⟩
  intro id lease hget
  rw [LeaseManager.getLease_scavengeExpired] at hget
  exact (Option.filter_eq_some_iff.mp hget).1

theorem passive_tick (s : System) (elapsed : Nat) : Passive s { s with now := s.now + elapsed } :=
  ⟨fun _ _ h => h, fun _ _ h => h, by simp⟩

end System

end AgentNetwork.Leases
