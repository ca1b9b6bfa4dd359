import AgentNetwork.P2P.PeerReputation

/-! The pool of connections to peers, and whom it gives up when it is full. -/

namespace AgentNetwork.P2P

open Relational StableSort Transition

structure Connection where
  peerId : String
  host : String
  port : Int
  connectedAt : ℚ
  lastActivity : ℚ
  messagesSent : Nat
  messagesReceived : Nat
  isActive : Bool
  deriving DecidableEq

structure ConnectionPool where
  maxConnections : Nat
  connectionTimeout : ℚ
  targetPeerCount : Int
  connections : Table String Connection
  deriving DecidableEq

namespace ConnectionPool

def new (maxConnections : Nat) (connectionTimeout : ℚ) (targetPeerCount : Int) : ConnectionPool :=
  ⟨maxConnections, connectionTimeout, targetPeerCount, .empty⟩

def getPeerIds (pool : ConnectionPool) : List String := pool.connections.keys

def getConnectionCount (pool : ConnectionPool) : Nat := pool.connections.entries.length

/-- `close_connection`, as it leaves the pool. -/
def closeConnection (pool : ConnectionPool) (peerId : String) : ConnectionPool :=
  { pool with connections := pool.connections.erase peerId }

/-- `get_connection`, with the time of the call. -/
def getConnection (pool : ConnectionPool) (peerId : String) (now : ℚ) : Option Connection × ConnectionPool :=
  match pool.connections.get? peerId with
  | none => (none, pool)
  | some connection =>
    if connection.isActive then
      let connection := { connection with lastActivity := now }
      (some connection, { pool with connections := pool.connections.set peerId connection })
    else (none, pool)

section Eviction

-- The reputation tracker, where one is set, and the readings of the clock in the order of the connections.
variable (reputation : Option PeerReputation) (clock : Nat → ℚ)

def idleTimes (pool : ConnectionPool) : List (String × ℚ) :=
  pool.connections.entries.zipIdx.map fun e => (e.1.1, clock e.2 - e.1.2.lastActivity)

/-- The first of the peers with the worst score, where it is connected. -/
def worstConnected (pool : ConnectionPool) : Option String :=
  (reputation.bind fun r => (r.getWorstPeers 1).head?).filter fun peerId => pool.connections.contains peerId

/-- The peer whose connection has been idle the longest. -/
def longestIdle (pool : ConnectionPool) : Option String :=
  ((sortOn (fun e : String × ℚ => -e.2) (pool.idleTimes clock)).head?).map Prod.fst

/-- Whom `_evict_connection` closes; nobody without connections. -/
def evicted (pool : ConnectionPool) : Option String :=
  if pool.connections.entries = [] then none
  else
    match pool.worstConnected reputation with
    | some peerId => some peerId
    | none => pool.longestIdle clock

def connect (pool : ConnectionPool) (connection : Connection) : ConnectionPool :=
  { pool with connections := pool.connections.upsert connection.peerId connection }

/-- `add_connection`, with the stamps of the connection that it makes. -/
def addConnection (pool : ConnectionPool) (peerId host : String) (port : Int) (connectedAt lastActivity : ℚ) :
    Option Connection × ConnectionPool :=
  match pool.connections.get? peerId with
  | some connection => (some connection, pool)
  | none =>
    if reputation.any fun r => r.isBlacklisted peerId then (none, pool)
    else
      let connection : Connection := ⟨peerId, host, port, connectedAt, lastActivity, 0, 0, true⟩
      if pool.maxConnections ≤ pool.getConnectionCount then
        match pool.evicted reputation clock with
        | none => (none, pool)
        | some other => (some connection, (pool.closeConnection other).connect connection)
      else (some connection, pool.connect connection)

/-- `_remove_timed_out`; the first reading of the clock is not used. -/
def removeTimedOut (pool : ConnectionPool) : ConnectionPool :=
  let timedOut := (pool.idleTimes fun i => clock (i + 1)).filter fun e => pool.connectionTimeout < e.2
  timedOut.foldl (fun pool e => pool.closeConnection e.1) pool

/-- `_rotate_low_quality`. -/
def rotateLowQuality (r : PeerReputation) (pool : ConnectionPool) : ConnectionPool :=
  if (pool.getConnectionCount : Int) ≤ pool.targetPeerCount then pool
  else
    match (sortOn r.getScore pool.getPeerIds).head? with
    | some worstPeer => if r.getScore worstPeer < 1 / 2 then pool.closeConnection worstPeer else pool
    | none => pool

def maintainConnections (pool : ConnectionPool) : ConnectionPool :=
  let pool := pool.removeTimedOut clock
  match reputation with
  | some r => pool.rotateLowQuality r
  | none => pool

end Eviction

end ConnectionPool

inductive PoolOp
  | add (peerId host : String) (port : Int) (connectedAt lastActivity : ℚ)
  | get (peerId : String) (now : ℚ)
  | close (peerId : String)
  | maintain
  deriving DecidableEq

/-- A call on a pool, with the reputation system as it is then. -/
structure PoolCall where
  reputation : PeerReputation
  clock : Nat → ℚ
  op : PoolOp

namespace ConnectionPool

def call (pool : ConnectionPool) (c : PoolCall) : ConnectionPool :=
  match c.op with
  | .add peerId host port connectedAt lastActivity =>
    (pool.addConnection (some c.reputation) c.clock peerId host port connectedAt lastActivity).2
  | .get peerId now => (pool.getConnection peerId now).2
  | .close peerId => pool.closeConnection peerId
  | .maintain => pool.maintainConnections (some c.reputation) c.clock

/-- The reputation system knows every connected peer. -/
def Known (pool : ConnectionPool) (c : PoolCall) : Prop := ∀ peerId ∈ pool.getPeerIds, peerId ∈ c.reputation.peers.keys

/-- No connected peer has a smaller score. -/
def Worst (pool : ConnectionPool) (c : PoolCall) (peerId : String) : Prop :=
  ∀ other ∈ pool.getPeerIds, c.reputation.getScore peerId ≤ c.reputation.getScore other

/-- A call leaves no more connections than there may be, adds nobody of the blacklist, and
where it evicts for a new peer it evicts the worst and connects the new one. -/
structure GivesUpWorst (pool : ConnectionPool) (c : PoolCall) (pool' : ConnectionPool) : Prop where
  bounded : pool'.getConnectionCount ≤ pool'.maxConnections
  welcome : ∀ peerId ∈ pool'.getPeerIds, peerId ∉ pool.getPeerIds → c.reputation.isBlacklisted peerId = false
  evicts : ∀ peerId host port connectedAt lastActivity, c.op = .add peerId host port connectedAt lastActivity →
    ∀ other ∈ pool.getPeerIds, other ∉ pool'.getPeerIds → pool.Worst c other ∧ peerId ∈ pool'.getPeerIds

/-- When a peer is to be added to a full pool, the first of the worst peers there are is
connected, or whoever is idle the longest is among the worst of the connected ones. -/
def PicksWorst (pool : ConnectionPool) (c : PoolCall) : Prop :=
  ∀ peerId host port connectedAt lastActivity, c.op = .add peerId host port connectedAt lastActivity →
    peerId ∉ pool.getPeerIds → c.reputation.isBlacklisted peerId = false → pool.maxConnections ≤ pool.getConnectionCount →
    (∃ worst, c.reputation.getWorstPeers 1 = [worst] ∧ worst ∈ pool.getPeerIds) ∨
      ∀ other, pool.longestIdle c.clock = some other → pool.Worst c other

section Calls

variable {pool : ConnectionPool} {c : PoolCall} {reputation : Option PeerReputation} {clock : Nat → ℚ} {peerId other : String}

theorem mem_closeConnection : other ∈ (pool.closeConnection peerId).getPeerIds ↔ other ∈ pool.getPeerIds ∧ other ≠ peerId :=
  Table.mem_keys_erase

theorem count_closeConnection_le : (pool.closeConnection peerId).getConnectionCount ≤ pool.getConnectionCount :=
  Table.length_erase_le _ _

theorem count_closeConnection_lt (h : peerId ∈ pool.getPeerIds) :
    (pool.closeConnection peerId).getConnectionCount < pool.getConnectionCount := by
  obtain ⟨connection, hconnection⟩ := Table.mem_keys_iff.mp h
  exact Table.length_erase_lt hconnection

theorem mem_connect {connection : Connection} :
    other ∈ (pool.connect connection).getPeerIds ↔ other = connection.peerId ∨ other ∈ pool.getPeerIds := Table.mem_keys_upsert

theorem count_connect {connection : Connection} (h : connection.peerId ∉ pool.getPeerIds) :
    (pool.connect connection).getConnectionCount = pool.getConnectionCount + 1 := by
  have hfresh : pool.connections.get? connection.peerId = none := Table.get?_eq_none_iff.mpr h
  rw [getConnectionCount, connect, Table.upsert_of_fresh hfresh, Table.insert, List.length_append]
  rfl

/-- The pool with some of its connections. -/
structure Within (pool' pool : ConnectionPool) : Prop where
  capacity : pool'.maxConnections = pool.maxConnections
  peers : pool'.getPeerIds ⊆ pool.getPeerIds
  count : pool'.getConnectionCount ≤ pool.getConnectionCount

theorem Within.refl (pool : ConnectionPool) : Within pool pool := ⟨rfl, List.Subset.refl _, le_rfl⟩

theorem within_closeConnection (pool : ConnectionPool) (peerId : String) : Within (pool.closeConnection peerId) pool :=
  ⟨rfl, fun _ h => (mem_closeConnection.mp h).1, count_closeConnection_le⟩

theorem Within.trans {pool'' pool' : ConnectionPool} (h : Within pool'' pool') (h' : Within pool' pool) : Within pool'' pool :=
  ⟨h.capacity.trans h'.capacity, List.Subset.trans h.peers h'.peers, h.count.trans h'.count⟩

theorem within_removeTimedOut (pool : ConnectionPool) (clock : Nat → ℚ) : Within (pool.removeTimedOut clock) pool := by
  unfold removeTimedOut
  dsimp only
  generalize (pool.idleTimes fun i => clock (i + 1)).filter _ = timedOut
  induction timedOut generalizing pool with
  | nil => exact .refl pool
  | cons e rest ih => exact (ih _).trans (within_closeConnection pool e.1)

theorem within_rotateLowQuality (pool : ConnectionPool) (r : PeerReputation) : Within (pool.rotateLowQuality r) pool := by
  unfold rotateLowQuality
  split
  · exact .refl pool
  · split
    · split
      · exact within_closeConnection pool _
      · exact .refl pool
    · exact .refl pool

theorem within_getConnection (pool : ConnectionPool) (peerId : String) (now : ℚ) : Within (pool.getConnection peerId now).2 pool := by
  unfold getConnection
  split
  · exact .refl pool
  next connection _ =>
    dsimp only
    split
    · refine ⟨rfl, ?_, ?_⟩
      · intro other hother
        rwa [getPeerIds, Table.keys_set] at hother
      · exact (Table.length_set _ _ _).le
    · exact .refl pool

/-- Every call but an addition only takes connections away. -/
theorem within_call (h : ∀ peerId host port connectedAt lastActivity, c.op ≠ .add peerId host port connectedAt lastActivity) :
    Within (pool.call c) pool := by
  unfold call
  cases hop : c.op with
  | add peerId host port connectedAt lastActivity => exact absurd hop (h _ _ _ _ _)
  | get peerId now => exact within_getConnection pool peerId now
  | close peerId => exact within_closeConnection pool peerId
  | maintain => exact (within_rotateLowQuality _ c.reputation).trans (within_removeTimedOut pool c.clock)

theorem mem_of_longestIdle (h : pool.longestIdle clock = some peerId) : peerId ∈ pool.getPeerIds := by
  obtain ⟨e, he, rfl⟩ := Option.map_eq_some_iff.mp h
  obtain ⟨⟨row, i⟩, hrow, rfl⟩ := List.mem_map.mp ((mem_sortOn _).mp (List.mem_of_head? he))
  exact List.mem_map_of_mem (List.fst_mem_of_mem_zipIdx hrow)

theorem worstConnected_eq_some_iff {r : PeerReputation} :
    pool.worstConnected (some r) = some peerId ↔ r.getWorstPeers 1 = [peerId] ∧ peerId ∈ pool.getPeerIds := by
  have hconnected : pool.connections.contains peerId = true ↔ peerId ∈ pool.getPeerIds :=
    Table.contains_eq_true_iff.trans Table.mem_keys_iff.symm
  have hfirst : (r.getWorstPeers 1).head? = some peerId ↔ r.getWorstPeers 1 = [peerId] := by
    unfold PeerReputation.getWorstPeers
    cases sortOn r.getScore r.peers.keys <;> simp
  rw [worstConnected, Option.bind_some, Option.filter_eq_some_iff, hfirst, hconnected]

/-- The worst of the peers that are known is the worst of those that are connected. -/
theorem worst_of_worstConnected (hknown : pool.Known c) (h : pool.worstConnected (some c.reputation) = some peerId) :
    pool.Worst c peerId := by
  have hfirst : (sortOn c.reputation.getScore c.reputation.peers.keys).head? = some peerId := by
    have hworst := congrArg List.head? (worstConnected_eq_some_iff.mp h).1
    rwa [PeerReputation.getWorstPeers, List.head?_take, if_neg one_ne_zero] at hworst
  rw [head?_sortOn] at hfirst
  intro other hother
  exact List.le_of_mem_argmin (hknown other hother) hfirst

theorem evicted_cases (h : pool.evicted (some c.reputation) clock = some peerId) :
    pool.worstConnected (some c.reputation) = some peerId ∨
      (pool.worstConnected (some c.reputation) = none ∧ pool.longestIdle clock = some peerId) := by
  unfold evicted at h
  split at h
  · cases h
  · split at h
    next worst hworst => exact .inl (hworst.trans h)
    next hnone => exact .inr ⟨hnone, h⟩

theorem longestIdle_of_not_evicted (h : pool.evicted reputation clock = none) : pool.longestIdle clock = none := by
  by_contra hsome
  obtain ⟨idle, hidle⟩ := Option.ne_none_iff_exists'.mp hsome
  unfold evicted at h
  split at h
  next hempty =>
    have hmem := mem_of_longestIdle hidle
    rw [getPeerIds, Table.keys, hempty] at hmem
    cases hmem
  next =>
    split at h
    · cases h
    · exact hsome h

theorem mem_of_evicted (h : pool.evicted (some c.reputation) clock = some peerId) : peerId ∈ pool.getPeerIds := by
  rcases evicted_cases h with hworst | ⟨_, hidle⟩
  · exact (worstConnected_eq_some_iff.mp hworst).2
  · exact mem_of_longestIdle hidle

/-- A new connection, as `add_connection` makes it. -/
def connectionTo (peerId host : String) (port : Int) (connectedAt lastActivity : ℚ) : Connection :=
  ⟨peerId, host, port, connectedAt, lastActivity, 0, 0, true⟩

/-- Who may be added to a pool with or without room. -/
theorem addConnection_of_new {r : PeerReputation} (hnew : peerId ∉ pool.getPeerIds) (hfree : r.isBlacklisted peerId = false)
    (host : String) (port : Int) (connectedAt lastActivity : ℚ) :
    (pool.addConnection (some r) clock peerId host port connectedAt lastActivity).2 =
      if pool.maxConnections ≤ pool.getConnectionCount then
        ((pool.evicted (some r) clock).map fun other =>
          (pool.closeConnection other).connect (connectionTo peerId host port connectedAt lastActivity)).getD pool
      else pool.connect (connectionTo peerId host port connectedAt lastActivity) := by
  have hget : pool.connections.get? peerId = none := Table.get?_eq_none_iff.mpr hnew
  simp only [addConnection, hget, Option.any_some, hfree, Bool.false_eq_true, if_false]
  split
  · cases pool.evicted (some r) clock <;> rfl
  · rfl

/-- Nothing changes for a peer that is connected or in the blacklist. -/
theorem addConnection_of_not_new {r : PeerReputation} (h : ¬(peerId ∉ pool.getPeerIds ∧ r.isBlacklisted peerId = false))
    (host : String) (port : Int) (connectedAt lastActivity : ℚ) :
    (pool.addConnection (some r) clock peerId host port connectedAt lastActivity).2 = pool := by
  unfold addConnection
  split
  next => rfl
  next hget =>
    have hbanned : r.isBlacklisted peerId = true := by
      by_contra hnot
      exact h ⟨Table.get?_eq_none_iff.mp hget, Bool.eq_false_iff.mpr hnot⟩
    rw [Option.any_some, if_pos hbanned]

/-- A call that only takes connections away. -/
theorem givesUpWorst_of_within (h : Within (pool.call c) pool) (hbounded : pool.getConnectionCount ≤ pool.maxConnections)
    (hop : ∀ peerId host port connectedAt lastActivity, c.op = .add peerId host port connectedAt lastActivity → pool.call c = pool) :
    pool.GivesUpWorst c (pool.call c) := by
  refine ⟨?_, fun peerId hmem hnew => absurd (h.peers hmem) hnew, ?_⟩
  · rw [h.capacity]
    exact h.count.trans hbounded
  · intro peerId host port connectedAt lastActivity hadd other hother hgone
    rw [hop _ _ _ _ _ hadd] at hgone
    exact absurd hother hgone

section Adds

variable {host : String} {port : Int} {connectedAt lastActivity : ℚ}

theorem count_replaced (hnew : peerId ∉ pool.getPeerIds) (hother : other ∈ pool.getPeerIds) :
    ((pool.closeConnection other).connect (connectionTo peerId host port connectedAt lastActivity)).getConnectionCount ≤
      pool.getConnectionCount := by
  have hfresh : peerId ∉ (pool.closeConnection other).getPeerIds := fun h => hnew (mem_closeConnection.mp h).1
  rw [count_connect hfresh]
  exact Nat.succ_le_of_lt (count_closeConnection_lt hother)

/-- A call that closes one connection for a new one gives up the worst just when that is the worst. -/
theorem givesUpWorst_of_evicted (hbounded : pool.getConnectionCount ≤ pool.maxConnections) (hnew : peerId ∉ pool.getPeerIds)
    (hfree : c.reputation.isBlacklisted peerId = false) (hop : c.op = .add peerId host port connectedAt lastActivity)
    (hother : other ∈ pool.getPeerIds)
    (hcall : pool.call c = (pool.closeConnection other).connect (connectionTo peerId host port connectedAt lastActivity)) :
    pool.GivesUpWorst c (pool.call c) ↔ pool.Worst c other := by
  have hmem : ∀ q, q ∈ (pool.call c).getPeerIds ↔ q = peerId ∨ (q ∈ pool.getPeerIds ∧ q ≠ other) := by
    intro q
    rw [hcall, mem_connect, mem_closeConnection]
    rfl
  constructor
  · intro h
    refine (h.evicts peerId host port connectedAt lastActivity hop other hother fun hkept => ?_).1
    rcases (hmem other).mp hkept with rfl | ⟨_, hne⟩
    · exact hnew hother
    · exact hne rfl
  · intro hworst
    refine ⟨?_, fun q hq hnotBefore => ?_, fun q _ _ _ _ hop' gone hgone hnotAfter => ?_⟩
    · rw [hcall]
      exact (count_replaced hnew hother).trans hbounded
    · rcases (hmem q).mp hq with rfl | ⟨hbefore, _⟩
      · exact hfree
      · exact absurd hbefore hnotBefore
    · rw [hop] at hop'
      cases hop'
      have hsame : gone = other := by
        by_contra hne
        exact hnotAfter ((hmem gone).mpr (.inr ⟨hgone, hne⟩))
      rw [hsame]
      exact ⟨hworst, (hmem peerId).mpr (.inl rfl)⟩

theorem picksWorst_iff (hop : c.op = .add peerId host port connectedAt lastActivity) (hnew : peerId ∉ pool.getPeerIds)
    (hfree : c.reputation.isBlacklisted peerId = false) (hfull : pool.maxConnections ≤ pool.getConnectionCount) :
    pool.PicksWorst c ↔ (∃ worst, c.reputation.getWorstPeers 1 = [worst] ∧ worst ∈ pool.getPeerIds) ∨
      ∀ other, pool.longestIdle c.clock = some other → pool.Worst c other := by
  constructor
  · exact fun h => h peerId host port connectedAt lastActivity hop hnew hfree hfull
  · exact fun h _ _ _ _ _ _ _ _ _ => h

/-- Where there is room nobody is evicted. -/
theorem givesUpWorst_of_connect (hroom : pool.getConnectionCount < pool.maxConnections) (hnew : peerId ∉ pool.getPeerIds)
    (hfree : c.reputation.isBlacklisted peerId = false)
    (hcall : pool.call c = pool.connect (connectionTo peerId host port connectedAt lastActivity)) :
    pool.GivesUpWorst c (pool.call c) := by
  have hmem : ∀ q, q ∈ (pool.call c).getPeerIds ↔ q = peerId ∨ q ∈ pool.getPeerIds := by
    intro q
    rw [hcall, mem_connect]
    rfl
  refine ⟨?_, fun q hq hnotBefore => ?_, fun _ _ _ _ _ _ gone hgone hnotAfter => ?_⟩
  · rw [hcall, count_connect hnew]
    exact hroom
  · rcases (hmem q).mp hq with rfl | hbefore
    · exact hfree
    · exact absurd hbefore hnotBefore
  · exact absurd ((hmem gone).mpr (.inr hgone)) hnotAfter

end Adds

/-- In a pool that is not overfull, whoever is known: a call gives up the worst just when it picks the worst. -/
theorem givesUpWorst_iff (hknown : pool.Known c) (hbounded : pool.getConnectionCount ≤ pool.maxConnections) :
    pool.GivesUpWorst c (pool.call c) ↔ pool.PicksWorst c := by
  by_cases hop : ∃ peerId host port connectedAt lastActivity, c.op = .add peerId host port connectedAt lastActivity
  · obtain ⟨peerId, host, port, connectedAt, lastActivity, hop⟩ := hop
    have hcall : pool.call c = (pool.addConnection (some c.reputation) c.clock peerId host port connectedAt lastActivity).2 := by
      rw [call, hop]
    by_cases hnew : peerId ∉ pool.getPeerIds ∧ c.reputation.isBlacklisted peerId = false
    · obtain ⟨hnew, hfree⟩ := hnew
      rw [addConnection_of_new hnew hfree] at hcall
      by_cases hfull : pool.maxConnections ≤ pool.getConnectionCount
      · rw [if_pos hfull] at hcall
        cases hevicted : pool.evicted (some c.reputation) c.clock with
        | none =>
          rw [hevicted] at hcall
          have hcall : pool.call c = pool := hcall
          have hwithin : Within (pool.call c) pool := by
            rw [hcall]
            exact .refl pool
          refine iff_of_true (givesUpWorst_of_within hwithin hbounded fun _ _ _ _ _ _ => hcall) ?_
          refine (picksWorst_iff hop hnew hfree hfull).mpr (.inr fun other hidle => ?_)
          rw [longestIdle_of_not_evicted hevicted] at hidle
          cases hidle
        | some other =>
          rw [hevicted] at hcall
          rw [givesUpWorst_of_evicted hbounded hnew hfree hop (mem_of_evicted hevicted) hcall, picksWorst_iff hop hnew hfree hfull]
          rcases evicted_cases hevicted with hworst | ⟨hnone, hidle⟩
          · exact iff_of_true (worst_of_worstConnected hknown hworst) (.inl ⟨other, worstConnected_eq_some_iff.mp hworst⟩)
          · constructor
            · intro hworst
              refine .inr fun idle hidle' => ?_
              rw [hidle] at hidle'
              cases hidle'
              exact hworst
            · rintro (⟨worst, hworst⟩ | hall)
              · rw [worstConnected_eq_some_iff.mpr hworst] at hnone
                cases hnone
              · exact hall other hidle
      · rw [if_neg hfull] at hcall
        refine iff_of_true (givesUpWorst_of_connect (not_le.mp hfull) hnew hfree hcall) ?_
        exact fun _ _ _ _ _ _ _ _ hfull' => absurd hfull' hfull
    · rw [addConnection_of_not_new hnew] at hcall
      have hwithin : Within (pool.call c) pool := by
        rw [hcall]
        exact .refl pool
      refine iff_of_true (givesUpWorst_of_within hwithin hbounded fun _ _ _ _ _ _ => hcall) ?_
      intro other _ _ _ _ hop' hnew' hfree
      rw [hop] at hop'
      cases hop'
      exact absurd ⟨hnew', hfree⟩ hnew
  · have hother : ∀ peerId host port connectedAt lastActivity, c.op ≠ .add peerId host port connectedAt lastActivity :=
      fun _ _ _ _ _ h => hop ⟨_, _, _, _, _, h⟩
    exact iff_of_true (givesUpWorst_of_within (within_call hother) hbounded fun _ _ _ _ _ h => absurd h (hother _ _ _ _ _))
      fun _ _ _ _ _ h => absurd h (hother _ _ _ _ _)

/-- Whatever is known of the peers, a call never overfills the pool. -/
theorem count_call_le (hbounded : pool.getConnectionCount ≤ pool.maxConnections) (c : PoolCall) :
    (pool.call c).getConnectionCount ≤ (pool.call c).maxConnections := by
  by_cases hop : ∃ peerId host port connectedAt lastActivity, c.op = .add peerId host port connectedAt lastActivity
  · obtain ⟨peerId, host, port, connectedAt, lastActivity, hop⟩ := hop
    have hcall : pool.call c = (pool.addConnection (some c.reputation) c.clock peerId host port connectedAt lastActivity).2 := by
      rw [call, hop]
    rw [hcall]
    by_cases hnew : peerId ∉ pool.getPeerIds ∧ c.reputation.isBlacklisted peerId = false
    · rw [addConnection_of_new hnew.1 hnew.2]
      split
      · cases hevicted : pool.evicted (some c.reputation) c.clock with
        | none => exact hbounded
        | some other => exact (count_replaced hnew.1 (mem_of_evicted hevicted)).trans hbounded
      next hroom =>
        have hconnect : (pool.connect (connectionTo peerId host port connectedAt lastActivity)).getConnectionCount =
            pool.getConnectionCount + 1 := count_connect hnew.1
        rw [hconnect]
        exact not_le.mp hroom
    · rw [addConnection_of_not_new hnew]
      exact hbounded
  · have hwithin : Within (pool.call c) pool := within_call fun _ _ _ _ _ h => hop ⟨_, _, _, _, _, h⟩
    rw [hwithin.capacity]
    exact hwithin.count.trans hbounded

end Calls

instance (pool : ConnectionPool) (c : PoolCall) : Decidable (pool.Known c) :=
  inferInstanceAs (Decidable (∀ peerId ∈ pool.getPeerIds, peerId ∈ c.reputation.peers.keys))

/-- Two peers that have failed, of which "gone" is never connected, and one that has delivered. -/
def sampleReputation : PeerReputation :=
  (((PeerReputation.new blacklistThreshold).recordMessageFailed "gone" 0).recordMessageFailed "bad" 0).recordMessageDelivered "good" none 0

def addAt (now : ℚ) (peerId : String) : PoolCall := ⟨sampleReputation, fun _ => now, .add peerId "host" 4001 now now⟩

def sampleCalls : List PoolCall := [addAt 0 "good", addAt 1 "bad", addAt 2 "new"]

end ConnectionPool

end AgentNetwork.P2P
