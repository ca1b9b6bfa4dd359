import AgentNetwork.Leases.Steps
import AgentNetwork.Library.Traces

/-! Which leases the monitor takes back. It acts on lists, and what they say of a lease
is out of date as soon as its worker renews it or is heard from. -/

namespace AgentNetwork.Leases

open Relational Transition

/-- The row was neither renewed nor heard from for its interval. -/
def LeaseRecord.isSilent (lease : LeaseRecord) (now : Int) : Bool :=
  decide (lease.lastHeartbeat + lease.heartbeatInterval * nsPerSecond < now)

theorem LeaseRecord.isExpired_mono {lease : LeaseRecord} {now later : Int} (h : lease.isExpired now = true) (hle : now ≤ later) :
    lease.isExpired later = true := by
  have hlt := of_decide_eq_true h
  exact decide_eq_true (lt_of_lt_of_le hlt hle)

theorem LeaseRecord.isSilent_mono {lease : LeaseRecord} {now later : Int} (h : lease.isSilent now = true) (hle : now ≤ later) :
    lease.isSilent later = true := by
  have hlt := of_decide_eq_true h
  exact decide_eq_true (lt_of_lt_of_le hlt hle)

/-- A system with the last record that each lease had and the last time by which a heartbeat of it was expected. -/
structure History where
  system : System
  lastRecord : String → Option LeaseRecord
  lastDeadline : String → Option Int

namespace History

def step (uuid4 : Nat → String) (h : History) (a : Action) : History :=
  let s := h.system.step uuid4 a
  ⟨s, fun id => (s.manager.getLease id).or (h.lastRecord id),
    fun id => (s.protocol.expectations.get? id).or (h.lastDeadline id)⟩

/-- Its time to live is over, or its heartbeat overdue: nothing was heard, neither in its row nor by the protocol. -/
def Dead (h : History) (id : String) : Prop :=
  ∃ lease, h.lastRecord id = some lease ∧ (lease.isExpired h.system.now = true ∨
    lease.isSilent h.system.now = true ∧ ∃ deadline, h.lastDeadline id = some deadline ∧ deadline < h.system.now)

/-- It is there and not dead. -/
def Alive (h : History) (id : String) : Prop := h.system.manager.getLease id ≠ none ∧ ¬h.Dead id

/-- Only dead leases are reported or deleted in this step, and none has been reported twice. -/
structure TakesBackDead (h h' : History) : Prop where
  reported : ∀ id ∈ h'.system.released, id ∉ h.system.released → h.Dead id
  deleted : ∀ id, h.system.manager.getLease id ≠ none → h'.system.manager.getLease id = none → h.Dead id
  once : h'.system.released.Nodup

/-- No call of a worker brings a lease back to life that the monitor has listed and not dealt with yet,
and the leases that it lists for a missed heartbeat are not alive. -/
def Considerate (uuid4 : Nat → String) (h : History) : Action → Prop
  | .monitor => h.system.monitor = .checkMissedHeartbeats →
      ∀ id ∈ h.system.protocol.checkMissedHeartbeats h.system.now, ¬h.Alive id
  | .scavengeExpired | .tick _ => True
  | a => ∀ id ∈ h.system.monitor.listed, ¬h.Alive id → ¬(h.step uuid4 a).Alive id

/-- What holds in every run. -/
structure Bookkeeping (uuid4 : Nat → String) (h : History) : Prop where
  record : ∀ id lease, h.system.manager.getLease id = some lease → h.lastRecord id = some lease
  deadline : ∀ id deadline, h.system.protocol.expectations.get? id = some deadline → h.lastDeadline id = some deadline
  known : ∀ id, h.lastRecord id ≠ none → ∃ n < h.system.issued, id = uuid4 n
  nodup : h.system.released.Nodup
  gone : ∀ id ∈ h.system.released, h.lastRecord id ≠ none ∧
    (h.system.manager.getLease id = none ∨ h.system.monitor.Finishing id)
  pending : ∀ reason id lease rest, h.system.monitor = .handling reason id (.publishRelease lease) rest →
    h.lastRecord id ≠ none ∧ id ∉ h.system.released

section Steps

variable {uuid4 : Nat → String} {h : History} {id : String}

theorem lastRecord_step (a : Action) (hknown : h.lastRecord id ≠ none) : (h.step uuid4 a).lastRecord id ≠ none := by
  change ((h.system.step uuid4 a).manager.getLease id).or (h.lastRecord id) ≠ none
  cases (h.system.step uuid4 a).manager.getLease id with
  | none => exact hknown
  | some lease => exact Option.some_ne_none lease

theorem Bookkeeping.known_step (hb : Bookkeeping uuid4 h) (a : Action) (hknown : (h.step uuid4 a).lastRecord id ≠ none) :
    ∃ n < (h.system.step uuid4 a).issued, id = uuid4 n := by
  have hissued := System.issued_step uuid4 h.system a
  by_cases hold : h.lastRecord id = none
  · have hnone : h.system.manager.getLease id = none := by
      cases hget : h.system.manager.getLease id with
      | none => rfl
      | some lease => exact absurd (hold.symm.trans (hb.record id lease hget)) nofun
    cases hget : (h.system.step uuid4 a).manager.getLease id with
    | none =>
      change ((h.system.step uuid4 a).manager.getLease id).or (h.lastRecord id) ≠ none at hknown
      rw [hget, hold] at hknown
      exact absurd rfl hknown
    | some lease =>
      obtain ⟨hid, hcount⟩ := System.created_step a hnone hget
      exact ⟨h.system.issued, by omega, hid⟩
  · obtain ⟨n, hn, hid⟩ := hb.known id hold
    exact ⟨n, by omega, hid⟩

/-- A lease that was known and has no row gets none again. -/
theorem Bookkeeping.gone_step (hb : Bookkeeping uuid4 h) (hinj : Function.Injective uuid4) (a : Action)
    (hknown : h.lastRecord id ≠ none) (hnone : h.system.manager.getLease id = none) :
    (h.system.step uuid4 a).manager.getLease id = none := by
  cases hget : (h.system.step uuid4 a).manager.getLease id with
  | none => rfl
  | some lease =>
    obtain ⟨hid, _⟩ := System.created_step a hnone hget
    obtain ⟨n, hn, hold⟩ := hb.known id hknown
    have hsame : n = h.system.issued := hinj (hold.symm.trans hid)
    omega

theorem Bookkeeping.step (hb : Bookkeeping uuid4 h) (hinj : Function.Injective uuid4) (a : Action) :
    Bookkeeping uuid4 (h.step uuid4 a) := by
  have hreleased := System.released_step uuid4 h.system a
  have hgone : ∀ id ∈ h.system.released, (h.step uuid4 a).lastRecord id ≠ none ∧
      ((h.step uuid4 a).system.manager.getLease id = none ∨ (h.step uuid4 a).system.monitor.Finishing id) := by
    intro id hid
    obtain ⟨hknown, hnone | hfinishing⟩ := hb.gone id hid
    · exact ⟨lastRecord_step a hknown, Or.inl (hb.gone_step hinj a hknown hnone)⟩
    · exact ⟨lastRecord_step a hknown, (System.finishing_step a hfinishing).symm⟩
  constructor
  · intro id lease hget
    exact Option.or_eq_some_iff.mpr (Or.inl hget)
  · intro id deadline hget
    exact Option.or_eq_some_iff.mpr (Or.inl hget)
  · exact fun id => hb.known_step a
  · rcases hreleased with hsame | ⟨reason, id, lease, rest, hm, hnew, _⟩
    · exact hsame ▸ hb.nodup
    · have hfresh := (hb.pending reason id lease rest hm).2
      change (h.system.step uuid4 a).released.Nodup
      rw [hnew]
      exact hb.nodup.append (List.nodup_singleton id) (List.disjoint_singleton.mpr hfresh)
  · intro id hid
    change id ∈ (h.system.step uuid4 a).released at hid
    rcases hreleased with hsame | ⟨reason, leaseId, lease, rest, hm, hnew, hfinishing⟩
    · exact hgone id (hsame ▸ hid)
    · rw [hnew] at hid
      rcases List.mem_append.mp hid with hold | hlast
      · exact hgone id hold
      · cases List.mem_singleton.mp hlast
        exact ⟨lastRecord_step a (hb.pending reason id lease rest hm).1, Or.inr hfinishing⟩
  · intro reason id lease rest hm
    obtain ⟨hsame, hbefore | ⟨hbefore, hget⟩⟩ := System.publishing_step a hm
    · obtain ⟨hknown, hfresh⟩ := hb.pending reason id lease rest hbefore
      exact ⟨lastRecord_step a hknown, hsame ▸ hfresh⟩
    · have hknown : h.lastRecord id ≠ none := by
        rw [hb.record id lease hget]
        exact Option.some_ne_none lease
      refine ⟨lastRecord_step a hknown, hsame ▸ ?_⟩
      intro hid
      obtain ⟨_, hnone | ⟨_, _, hfinishing | hfinishing⟩⟩ := hb.gone id hid
      · cases hget.symm.trans hnone
      · cases hbefore.symm.trans hfinishing
      · cases hbefore.symm.trans hfinishing

theorem Bookkeeping.alive_of_passive (hb : Bookkeeping uuid4 h) (a : Action)
    (hp : System.Passive h.system (h.system.step uuid4 a)) (halive : (h.step uuid4 a).Alive id) : h.Alive id := by
  obtain ⟨hthere, hnot⟩ := halive
  obtain ⟨lease, hget'⟩ := Option.ne_none_iff_exists'.mp hthere
  have hget : h.system.manager.getLease id = some lease := hp.getLease id lease hget'
  refine ⟨by simp [hget], ?_⟩
  rintro ⟨record, hrecord, hdead⟩
  cases (hb.record id lease hget).symm.trans hrecord
  apply hnot
  refine ⟨lease, Option.or_eq_some_iff.mpr (Or.inl hget'), ?_⟩
  rcases hdead with hexpired | ⟨hsilent, deadline, hdeadline, hlate⟩
  · exact Or.inl (LeaseRecord.isExpired_mono hexpired hp.now)
  · refine Or.inr ⟨LeaseRecord.isSilent_mono hsilent hp.now, deadline, ?_, lt_of_lt_of_le hlate hp.now⟩
    cases hexpect : (h.system.step uuid4 a).protocol.expectations.get? id with
    | none => exact Option.or_eq_some_iff.mpr (Or.inr ⟨hexpect, hdeadline⟩)
    | some later =>
      cases (hb.deadline id later (hp.expectations id later hexpect)).symm.trans hdeadline
      exact Option.or_eq_some_iff.mpr (Or.inl hexpect)

theorem Bookkeeping.not_alive_of_expired (hb : Bookkeeping uuid4 h)
    (hid : id ∈ h.system.manager.checkExpiry h.system.now) : ¬h.Alive id := by
  obtain ⟨lease, hget, hexpired⟩ := LeaseManager.mem_checkExpiry.mp hid
  exact fun halive => halive.2 ⟨lease, hb.record id lease hget, Or.inl hexpired⟩

end Steps

/-- Nothing that the monitor may still report or delete is alive, and what it is reporting or deleting
was dead when it lost its row. -/
structure Sentenced (h : History) : Prop where
  listed : ∀ id ∈ h.system.monitor.listed, ¬h.Alive id
  gone : ∀ id, h.system.monitor.committed = some id → h.system.manager.getLease id = none →
    ∃ lease, h.lastRecord id = some lease ∧ lease.isExpired h.system.now = true

section Sentences

variable {uuid4 : Nat → String} {h : History} {id : String}

theorem committed_mem_listed {monitor : Monitor} (hc : monitor.committed = some id) : id ∈ monitor.listed := by
  unfold Monitor.committed at hc
  split at hc
  next => cases hc; exact List.mem_cons_self ..
  next => cases hc; exact List.mem_cons_self ..
  next => cases hc; exact List.mem_cons_self ..
  next => cases hc

theorem Sentenced.dead (hs : Sentenced h) (hc : h.system.monitor.committed = some id) : h.Dead id := by
  by_cases hnone : h.system.manager.getLease id = none
  · obtain ⟨lease, hrecord, hexpired⟩ := hs.gone id hc hnone
    exact ⟨lease, hrecord, Or.inl hexpired⟩
  · by_contra hnot
    exact hs.listed id (committed_mem_listed hc) ⟨hnone, hnot⟩

/-- What the monitor lists next is not alive now. -/
theorem Sentenced.listed_monitorStep (hs : Sentenced h) (hb : Bookkeeping uuid4 h) (hok : Considerate uuid4 h .monitor) :
    ∀ id ∈ h.system.monitorStep.monitor.listed, ¬h.Alive id := by
  have hlisted := hs.listed
  generalize h.system.monitorStep = s', System.monitorStep_spec h.system = hstep
  cases hstep with
  | expired =>
    rw [Monitor.listed_next]
    exact fun id => hb.not_alive_of_expired
  | missed hm =>
    rw [Monitor.listed_next]
    exact hok hm
  | found hm =>
    rw [hm] at hlisted
    exact hlisted
  | skipped hm =>
    rw [hm] at hlisted
    rw [Monitor.listed_next]
    exact fun id hid => hlisted id (List.mem_cons_of_mem _ hid)
  | gone hm =>
    rw [hm] at hlisted
    exact fun id hid => hlisted id (List.mem_cons_of_mem _ hid)
  | published hm =>
    rw [hm] at hlisted
    exact hlisted
  | forgotten hm =>
    rw [hm] at hlisted
    exact hlisted
  | dropped hm =>
    rw [hm] at hlisted
    rw [Monitor.listed_next]
    exact hlisted
  | deleted hm =>
    rw [hm] at hlisted
    rw [Monitor.listed_next]
    exact fun id hid => hlisted id (List.mem_cons_of_mem _ hid)

theorem Sentenced.gone_step (hs : Sentenced h) (hb : Bookkeeping uuid4 h) (a : Action)
    (hc : (h.step uuid4 a).system.monitor.committed = some id) (hnone : (h.step uuid4 a).system.manager.getLease id = none) :
    ∃ lease, (h.step uuid4 a).lastRecord id = some lease ∧ lease.isExpired (h.step uuid4 a).system.now = true := by
  have hkept : ∀ lease, h.lastRecord id = some lease → lease.isExpired h.system.now = true →
      ∃ lease, (h.step uuid4 a).lastRecord id = some lease ∧ lease.isExpired (h.step uuid4 a).system.now = true := by
    intro lease hrecord hexpired
    exact ⟨lease, Option.or_eq_some_iff.mpr (Or.inr ⟨hnone, hrecord⟩),
      LeaseRecord.isExpired_mono hexpired (System.now_step uuid4 h.system a)⟩
  cases hget : h.system.manager.getLease id with
  | none =>
    rcases System.committed_step a hc with hbefore | hthere
    · obtain ⟨lease, hrecord, hexpired⟩ := hs.gone id hbefore hget
      exact hkept lease hrecord hexpired
    · exact absurd hget hthere
  | some lease =>
    rcases System.getLease_step a hget with ⟨lease', hget'⟩ | ⟨_, hexpired⟩ | ⟨rfl, reason, rest, hm⟩
    · cases hnone.symm.trans hget'
    · exact hkept lease (hb.record id lease hget) hexpired
    · simp [History.step, System.step, System.monitorStep, hm] at hc

theorem Sentenced.step (hs : Sentenced h) (hb : Bookkeeping uuid4 h) {a : Action} (hok : Considerate uuid4 h a) :
    Sentenced (h.step uuid4 a) := by
  refine ⟨?_, fun id => hs.gone_step hb a⟩
  cases a with
  | monitor =>
    intro id hid halive
    exact hs.listed_monitorStep hb hok id hid (hb.alive_of_passive .monitor (System.passive_monitorStep h.system) halive)
  | scavengeExpired =>
    exact fun id hid halive => hs.listed id hid (hb.alive_of_passive .scavengeExpired (System.passive_scavengeExpired h.system) halive)
  | tick elapsed =>
    exact fun id hid halive => hs.listed id hid (hb.alive_of_passive (.tick elapsed) (System.passive_tick h.system elapsed) halive)
  | _ => exact fun id hid => hok id hid (hs.listed id hid)

theorem Sentenced.takesBackDead (hs : Sentenced h) (hb : Bookkeeping uuid4 h) (hinj : Function.Injective uuid4) (a : Action) :
    TakesBackDead h (h.step uuid4 a) := by
  refine ⟨?_, ?_, (hb.step hinj a).nodup⟩
  · intro id hid hnew
    change id ∈ (h.system.step uuid4 a).released at hid
    rcases System.released_step uuid4 h.system a with hsame | ⟨reason, leaseId, lease, rest, hm, hreleased, _⟩
    · exact absurd (hsame ▸ hid) hnew
    · rw [hreleased] at hid
      have hlast := (List.mem_append.mp hid).resolve_left hnew
      cases List.mem_singleton.mp hlast
      exact hs.dead (by rw [hm]; rfl)
  · intro id hthere hnone
    obtain ⟨lease, hget⟩ := Option.ne_none_iff_exists'.mp hthere
    rcases System.getLease_step a hget with ⟨lease', hget'⟩ | ⟨_, hexpired⟩ | ⟨_, reason, rest, hm⟩
    · cases hnone.symm.trans hget'
    · exact ⟨lease, hb.record id lease hget, Or.inl hexpired⟩
    · exact hs.dead (by rw [hm]; rfl)

end Sentences

/-- A system as it starts: the monitor at its first check, no RELEASE published, and only leases that were given names. -/
structure Started (uuid4 : Nat → String) (h : History) : Prop where
  monitor : h.system.monitor = .checkExpiry
  released : h.system.released = []
  record : ∀ id, h.lastRecord id = h.system.manager.getLease id
  deadline : ∀ id, h.lastDeadline id = h.system.protocol.expectations.get? id
  known : ∀ id, h.system.manager.getLease id ≠ none → ∃ n < h.system.issued, id = uuid4 n

/-- In every run in which no worker revives a lease that the monitor has listed and the lists of missed heartbeats name
no lease that is alive, only dead leases are reported and deleted, and each is reported once. -/
theorem only_dead_leases_taken_back {uuid4 : Nat → String} (fresh : Function.Injective uuid4) {start h : History}
    (started : Started uuid4 start) {steps : List (History × Action × History)}
    (run : Trace (fun h a h' => h' = h.step uuid4 a) start steps h) :
    (∀ e ∈ steps, Considerate uuid4 e.1 e.2.1) → ∀ e ∈ steps, TakesBackDead e.1 e.2.2 := by
  have hbookkeeping : Bookkeeping uuid4 start := by
    constructor
    · exact fun id lease hget => (started.record id).trans hget
    · exact fun id deadline hget => (started.deadline id).trans hget
    · exact fun id hknown => started.known id (started.record id ▸ hknown)
    · rw [started.released]
      exact List.nodup_nil
    · rw [started.released]
      exact List.forall_mem_nil _
    · intro reason id lease rest hm
      cases started.monitor.symm.trans hm
  have hsentenced : Sentenced start := by
    constructor
    · rw [started.monitor]
      exact List.forall_mem_nil _
    · intro id hc
      rw [started.monitor] at hc
      cases hc
  refine run.forall_of (I := fun h => Bookkeeping uuid4 h ∧ Sentenced h) (P := fun h _ h' => TakesBackDead h h')
    ⟨hbookkeeping, hsentenced⟩ ?_ ?_
  · rintro h a _ ⟨hb, hs⟩ hok rfl
    exact ⟨hb.step fresh a, hs.step hb hok⟩
  · rintro h a _ ⟨hb, hs⟩ _ rfl
    exact hs.takesBackDead hb fresh a

section Samples

def sampleUuid4 (n : Nat) : String := String.ofList (List.replicate (n + 1) 'a')

theorem sampleUuid4_injective : Function.Injective sampleUuid4 := by
  intro n m h
  have hlength := congrArg List.length (String.ofList_injective h)
  simpa using hlength

def sampleStart : History := ⟨⟨⟨.empty⟩, ⟨.empty⟩, some [], .checkExpiry, 0, 0⟩, fun _ => none, fun _ => none⟩

theorem sampleStart_started : Started sampleUuid4 sampleStart :=
  ⟨rfl, rfl, fun _ => rfl, fun _ => rfl, fun _ h => absurd rfl h⟩

/-- A lease of one second runs out, and the monitor lists it. -/
def expiringActions : List Action := [.createLease "task" "alice" 1 3600, .tick 2000000000, .monitor]

/-- The monitor takes the lease back and goes on to its second check. -/
theorem only_dead_leases_taken_back_sample :
    let steps := stepsOf (step sampleUuid4) sampleStart (expiringActions ++ [.monitor, .monitor, .monitor, .monitor, .monitor])
    (∃ h, Trace (fun h a h' => h' = h.step sampleUuid4 a) sampleStart steps h) ∧ ∀ e ∈ steps, TakesBackDead e.1 e.2.2 := by
  refine ⟨⟨_, Trace.ofCalls stepsOf_call⟩, ?_⟩
  refine only_dead_leases_taken_back sampleUuid4_injective sampleStart_started (Trace.ofCalls stepsOf_call) ?_
  simp only [expiringActions, List.cons_append, List.nil_append, stepsOf, List.forall_mem_cons]
  refine ⟨List.forall_mem_nil _, trivial, ?_, ?_, ?_, ?_, ?_, ?_, List.forall_mem_nil _⟩
  · exact fun hm => absurd hm (by decide)
  · exact fun hm => absurd hm (by decide)
  · exact fun hm => absurd hm (by decide)
  · exact fun hm => absurd hm (by decide)
  · exact fun hm => absurd hm (by decide)
  · exact fun _ => List.forall_mem_nil _

/-- The worker renews the lease after the monitor has listed it, and it is taken back all the same. -/
theorem renewed_lease_taken_back : ¬∀ uuid4 start steps h, Function.Injective uuid4 → Started uuid4 start →
    Trace (fun h a h' => h' = h.step uuid4 a) start steps h → ∀ e ∈ steps, TakesBackDead e.1 e.2.2 := by
  intro hall
  have h := hall sampleUuid4 sampleStart _ _ sampleUuid4_injective sampleStart_started (Trace.ofCalls stepsOf_call) _
    (last_mem_stepsOf (step sampleUuid4) sampleStart (expiringActions ++ [.renewLease "a", .monitor]) .monitor)
  obtain ⟨lease, hrecord, hdead⟩ := h.reported "a" (by decide) (by decide)
  have hrenewed : (List.foldl (step sampleUuid4) sampleStart (expiringActions ++ [.renewLease "a", .monitor])).lastRecord "a" =
      some ⟨"task", "alice", 1, 2000000000, 2000000000, 3600⟩ := by decide
  cases hrenewed.symm.trans hrecord
  rcases hdead with hexpired | ⟨hsilent, _⟩
  · exact absurd hexpired (by decide)
  · exact absurd hsilent (by decide)

end Samples

end History

end AgentNetwork.Leases
