import AgentNetwork.Library.Table

namespace AgentNetwork.Leases

open Relational

/-- A row of `leases`; times are in nanoseconds, the two durations in seconds. -/
structure LeaseRecord where
  taskId : String
  workerId : String
  ttl : Int
  createdAt : Int
  lastHeartbeat : Int
  heartbeatInterval : Int
  deriving DecidableEq

def nsPerSecond : Int := 1000000000

/-- `current_time > created_at + ttl_ns`. -/
def LeaseRecord.isExpired (lease : LeaseRecord) (now : Int) : Bool :=
  decide (lease.createdAt + lease.ttl * nsPerSecond < now)

structure LeaseManager where
  leases : Table String LeaseRecord
  deriving DecidableEq

namespace LeaseManager

/-- `leaseId` is the name that `uuid4` gives the lease; `none` is the error of a second row under it. -/
def createLease (m : LeaseManager) (leaseId : String) (now : Int) (taskId workerId : String) (ttl heartbeatInterval : Int) :
    Option LeaseManager :=
  (m.leases.insert? leaseId ⟨taskId, workerId, ttl, now, now, heartbeatInterval⟩).map fun leases => ⟨leases⟩

/-- The three writes to a row: nothing happens and the answer is `False` when it is not there. -/
def ifFound (m : LeaseManager) (leaseId : String) (write : Table String LeaseRecord → Table String LeaseRecord) :
    Bool × LeaseManager :=
  if m.leases.contains leaseId then (true, ⟨write m.leases⟩) else (false, m)

def renewLease (m : LeaseManager) (now : Int) (leaseId : String) : Bool × LeaseManager :=
  m.ifFound leaseId fun leases => leases.modify leaseId fun lease => { lease with createdAt := now, lastHeartbeat := now }

def heartbeat (m : LeaseManager) (now : Int) (leaseId : String) : Bool × LeaseManager :=
  m.ifFound leaseId fun leases => leases.modify leaseId fun lease => { lease with lastHeartbeat := now }

def deleteLease (m : LeaseManager) (leaseId : String) : Bool × LeaseManager :=
  m.ifFound leaseId fun leases => leases.erase leaseId

def checkExpiry (m : LeaseManager) (now : Int) : List String :=
  (m.leases.entries.filter fun e => e.2.isExpired now).map Prod.fst

def getLease (m : LeaseManager) (leaseId : String) : Option LeaseRecord := m.leases.get? leaseId

def scavengeExpired (m : LeaseManager) (now : Int) : List String × LeaseManager :=
  let expired := m.checkExpiry now
  (expired, expired.foldl (fun m leaseId => (m.deleteLease leaseId).2) m)

section Effects

variable {m : LeaseManager} {now : Int} {leaseId : String}

theorem getLease_createLease {m' : LeaseManager} {taskId workerId : String} {ttl heartbeatInterval : Int}
    (h : m.createLease leaseId now taskId workerId ttl heartbeatInterval = some m') (id : String) :
    m'.getLease id = if id = leaseId then some ⟨taskId, workerId, ttl, now, now, heartbeatInterval⟩ else m.getLease id := by
  obtain ⟨leases, hinsert, rfl⟩ := Option.map_eq_some_iff.mp h
  obtain ⟨fresh, rfl⟩ := Table.insert?_eq_some_iff.mp hinsert
  exact Table.get?_insert fresh id

theorem getLease_modify (f : LeaseRecord → LeaseRecord) (id : String) :
    (m.ifFound leaseId fun leases => leases.modify leaseId f).2.getLease id =
      if id = leaseId then (m.getLease leaseId).map f else m.getLease id := by
  unfold ifFound getLease
  cases hfound : m.leases.get? leaseId with
  | none =>
    have hmissing : m.leases.contains leaseId = false := Table.contains_eq_false_iff.mpr hfound
    by_cases hid : id = leaseId
    · subst hid
      simp [hmissing, hfound]
    · simp [hmissing, hid]
  | some lease =>
    have hthere : m.leases.contains leaseId = true := Table.contains_eq_true_iff.mpr ⟨lease, hfound⟩
    simp [hthere, hfound]

theorem getLease_deleteLease (leaseId id : String) :
    (m.deleteLease leaseId).2.getLease id = if id = leaseId then none else m.getLease id := by
  unfold deleteLease ifFound getLease
  cases hfound : m.leases.contains leaseId with
  | false =>
    have hmissing := Table.contains_eq_false_iff.mp hfound
    by_cases hid : id = leaseId
    · subst hid
      simp [hmissing]
    · simp [hid]
  | true => simp

theorem mem_checkExpiry : leaseId ∈ m.checkExpiry now ↔ ∃ lease, m.getLease leaseId = some lease ∧ lease.isExpired now = true := by
  constructor
  · intro h
    obtain ⟨entry, hentry, rfl⟩ := List.mem_map.mp h
    obtain ⟨hmem, hexpired⟩ := List.mem_filter.mp hentry
    exact ⟨entry.2, Table.get?_eq_some_iff.mpr hmem, hexpired⟩
  · rintro ⟨lease, hget, hexpired⟩
    exact List.mem_map.mpr ⟨(leaseId, lease), List.mem_filter.mpr ⟨Table.get?_eq_some_iff.mp hget, hexpired⟩, rfl⟩

theorem getLease_foldl_deleteLease (ids : List String) (m : LeaseManager) (id : String) :
    (ids.foldl (fun m leaseId => (m.deleteLease leaseId).2) m).getLease id = if id ∈ ids then none else m.getLease id := by
  induction ids generalizing m with
  | nil => simp
  | cons first rest ih =>
    rw [List.foldl_cons, ih, getLease_deleteLease]
    by_cases hid : id = first <;> simp [hid]

/-- A scavenging takes out the leases that are expired. -/
theorem getLease_scavengeExpired (id : String) :
    (m.scavengeExpired now).2.getLease id = (m.getLease id).filter fun lease => !lease.isExpired now := by
  change (List.foldl _ m (m.checkExpiry now)).getLease id = _
  rw [getLease_foldl_deleteLease]
  cases hget : m.getLease id with
  | none => simp
  | some lease =>
    have hmem : id ∈ m.checkExpiry now ↔ lease.isExpired now = true := by simp [mem_checkExpiry, hget]
    cases hexpired : lease.isExpired now <;> simp [hmem, hexpired, Option.filter_some]

end Effects

end LeaseManager

/-- The times by which the next heartbeat of each lease is expected. -/
structure HeartbeatProtocol where
  expectations : Table String Int
  deriving DecidableEq

namespace HeartbeatProtocol

def expectHeartbeat (p : HeartbeatProtocol) (now : Int) (leaseId : String) (interval : Int) : HeartbeatProtocol :=
  ⟨p.expectations.upsert leaseId (now + interval * nsPerSecond)⟩

def removeExpectation (p : HeartbeatProtocol) (leaseId : String) : HeartbeatProtocol := ⟨p.expectations.erase leaseId⟩

/-- `lease` is what the manager's `get_lease` answers. -/
def receiveHeartbeat (p : HeartbeatProtocol) (now : Int) (leaseId : String) (lease : Option LeaseRecord) : HeartbeatProtocol :=
  match lease with
  | none => p.removeExpectation leaseId
  | some lease => p.expectHeartbeat now leaseId lease.heartbeatInterval

def checkMissedHeartbeats (p : HeartbeatProtocol) (now : Int) : List String :=
  (p.expectations.entries.filter fun e => decide (e.2 < now)).map Prod.fst

end HeartbeatProtocol

end AgentNetwork.Leases

/-! The monitor as a sequence of steps, each one call of the manager, the heartbeat
protocol or the bus, between which the workers make their own calls. -/

namespace AgentNetwork.Leases

open Relational

inductive ReleaseReason
  | timeout
  | heartbeatMiss
  deriving DecidableEq

def ReleaseReason.value : ReleaseReason → String
  | .timeout => "timeout"
  | .heartbeatMiss => "heartbeat_miss"

/-- The envelope of a RELEASE with the fields of its payload. -/
structure ReleaseMessage where
  kind : String
  threadId : String
  taskId : String
  leaseId : String
  reason : String
  deriving DecidableEq

/-- What is done next about a listed lease; `found` is whether `get_lease` found it. -/
inductive Stage
  | getLease
  | publishRelease (lease : LeaseRecord)
  | removeExpectation (found : Bool)
  | deleteLease
  deriving DecidableEq

/-- Where `check_expired_leases` stands: before one of its two checks, or at a lease of
the list that one of them gave, with the rest of that list. -/
inductive Monitor
  | checkExpiry
  | checkMissedHeartbeats
  | handling (reason : ReleaseReason) (leaseId : String) (stage : Stage) (rest : List String)
  deriving DecidableEq

/-- On to the next lease of the list. -/
def Monitor.next (reason : ReleaseReason) : List String → Monitor
  | leaseId :: rest => .handling reason leaseId .getLease rest
  | [] =>
    match reason with
    | .timeout => .checkMissedHeartbeats
    | .heartbeatMiss => .checkExpiry

/-- `bus` is the list of published messages of a bus that has one. -/
structure System where
  manager : LeaseManager
  protocol : HeartbeatProtocol
  bus : Option (List ReleaseMessage)
  monitor : Monitor
  now : Int
  issued : Nat
  deriving DecidableEq

inductive Action
  | monitor
  | scavengeExpired
  | tick (elapsed : Nat)
  | createLease (taskId workerId : String) (ttl heartbeatInterval : Int)
  | renewLease (leaseId : String)
  | heartbeat (leaseId : String)
  | expectHeartbeat (leaseId : String) (interval : Int)
  | receiveHeartbeat (leaseId : String)
  deriving DecidableEq

namespace System

/-- The leases whose RELEASE is published, in order. -/
def released (s : System) : List String := (s.bus.getD []).map (·.leaseId)

def publishRelease (s : System) (taskId leaseId : String) (reason : ReleaseReason) : System :=
  { s with bus := s.bus.map fun messages => messages ++ [⟨"RELEASE", taskId, taskId, leaseId, reason.value⟩] }

/-- One step of `check_expired_leases` and of the two handlers it calls. -/
def monitorStep (s : System) : System :=
  match s.monitor with
  | .checkExpiry => { s with monitor := .next .timeout (s.manager.checkExpiry s.now) }
  | .checkMissedHeartbeats => { s with monitor := .next .heartbeatMiss (s.protocol.checkMissedHeartbeats s.now) }
  | .handling reason leaseId .getLease rest =>
    match s.manager.getLease leaseId, reason with
    | some lease, _ => { s with monitor := .handling reason leaseId (.publishRelease lease) rest }
    | none, .timeout => { s with monitor := .next reason rest }
    | none, .heartbeatMiss => { s with monitor := .handling reason leaseId (.removeExpectation false) rest }
  | .handling reason leaseId (.publishRelease lease) rest =>
    { s.publishRelease lease.taskId leaseId reason with monitor := .handling reason leaseId (.removeExpectation true) rest }
  | .handling reason leaseId (.removeExpectation found) rest =>
    { s with
      protocol := s.protocol.removeExpectation leaseId
      monitor := if found then .handling reason leaseId .deleteLease rest else .next reason rest }
  | .handling reason leaseId .deleteLease rest =>
    { s with manager := (s.manager.deleteLease leaseId).2, monitor := .next reason rest }

/-- One action of the monitor, of a worker or of the clock. -/
def step (uuid4 : Nat → String) (s : System) : Action → System
  | .monitor => s.monitorStep
  | .scavengeExpired => { s with manager := (s.manager.scavengeExpired s.now).2 }
  | .tick elapsed => { s with now := s.now + elapsed }
  | .createLease taskId workerId ttl heartbeatInterval =>
    { s with
      manager := (s.manager.createLease (uuid4 s.issued) s.now taskId workerId ttl heartbeatInterval).getD s.manager
      issued := s.issued + 1 }
  | .renewLease leaseId => { s with manager := (s.manager.renewLease s.now leaseId).2 }
  | .heartbeat leaseId => { s with manager := (s.manager.heartbeat s.now leaseId).2 }
  | .expectHeartbeat leaseId interval => { s with protocol := s.protocol.expectHeartbeat s.now leaseId interval }
  | .receiveHeartbeat leaseId =>
    { s with protocol := s.protocol.receiveHeartbeat s.now leaseId (s.manager.getLease leaseId) }

end System

end AgentNetwork.Leases
