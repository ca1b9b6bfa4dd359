import AgentNetwork.Library.Double
import AgentNetwork.Library.ListSet
import AgentNetwork.Library.Table

/-! The detector of network partitions: which peers it takes for partitioned, and what it
calls when one is found and when one is heard from again. -/

namespace AgentNetwork.Monitoring

open Relational

structure PeerStatus where
  peerId : String
  lastHeartbeat : ℚ
  isAlive : Bool
  deriving DecidableEq

/-- How a callback ends: what `except Exception` takes is only logged, an exit of the
interpreter goes on. -/
inductive CallbackEnd
  | returns
  | raises
  | exits
  deriving DecidableEq

/-- The two callbacks of a detector. -/
inductive Callback
  | onPartition
  | onHeal
  deriving DecidableEq

structure PartitionDetector where
  timeout : ℚ
  peers : Table String PeerStatus
  partitionedPeers : ListSet String
  deriving DecidableEq

namespace PartitionDetector

def new (heartbeatInterval : ℚ) (missedHeartbeatThreshold : Int) : PartitionDetector :=
  ⟨Double.scale missedHeartbeatThreshold heartbeatInterval, .empty, .empty⟩

def registerPeer (d : PartitionDetector) (peerId : String) (now : ℚ) : PartitionDetector :=
  if d.peers.contains peerId then d else { d with peers := d.peers.upsert peerId ⟨peerId, now, true⟩ }

/-- `heartbeat`: whether the peer heals, and the detector that the callback then finds; however
the callback ends, nothing more is changed. -/
def heartbeat (d : PartitionDetector) (peerId : String) (now : ℚ) : Bool × PartitionDetector :=
  match d.peers.get? peerId with
  | none => (false, d)
  | some status =>
    let status := { status with lastHeartbeat := now }
    if peerId ∈ d.partitionedPeers then
      (true, { d with
        partitionedPeers := d.partitionedPeers.filter (· ≠ peerId)
        peers := d.peers.upsert peerId { status with isAlive := true } })
    else (false, { d with peers := d.peers.upsert peerId status })

/-- `time_since_heartbeat > self.timeout`. -/
def isSilent (d : PartitionDetector) (now lastHeartbeat : ℚ) : Bool := d.timeout < Double.nearest (now - lastHeartbeat)

/-- A peer that is newly partitioned. -/
def isNew (d : PartitionDetector) (now : ℚ) (peer : String × PeerStatus) : Bool :=
  d.isSilent now peer.2.lastHeartbeat ∧ peer.1 ∉ d.partitionedPeers

def partition (d : PartitionDetector) (peer : String × PeerStatus) : PartitionDetector :=
  { d with
    partitionedPeers := d.partitionedPeers.add peer.1
    peers := d.peers.upsert peer.1 { peer.2 with isAlive := false } }

/-- The loop of `detect_partition`: the newly partitioned peers, each with a callback, and the
detector that is left; a callback that exits ends the loop. -/
def detectFrom (callbackEnd : String → CallbackEnd) (now : ℚ) :
    List (String × PeerStatus) → PartitionDetector → List String × PartitionDetector
  | [], d => ([], d)
  | peer :: rest, d =>
    if d.isNew now peer then
      if callbackEnd peer.1 = .exits then ([peer.1], d.partition peer)
      else
        let (newlyPartitioned, d) := detectFrom callbackEnd now rest (d.partition peer)
        (peer.1 :: newlyPartitioned, d)
    else detectFrom callbackEnd now rest d

def detectPartition (d : PartitionDetector) (now : ℚ) (callbackEnd : String → CallbackEnd) :
    List String × PartitionDetector :=
  detectFrom callbackEnd now d.peers.entries d

def getPartitionedPeers (d : PartitionDetector) : ListSet String := d.partitionedPeers

def getAlivePeers (d : PartitionDetector) : ListSet String :=
  (ListSet.empty : ListSet String).addAll ((d.peers.entries.filter fun peer => peer.2.isAlive).map Prod.fst)

end PartitionDetector

/-- A call with its reading of the clock and the ends of the callbacks that it makes. -/
inductive DetectorCall
  | registerPeer (peerId : String) (now : ℚ)
  | heartbeat (peerId : String) (now : ℚ) (callbackEnd : CallbackEnd)
  | detectPartition (now : ℚ) (callbackEnd : String → CallbackEnd)

/-- A detector with the callbacks that were made. -/
structure WatchedDetector where
  detector : PartitionDetector
  callbacks : List (Callback × String)

namespace WatchedDetector

def run (w : WatchedDetector) : DetectorCall → WatchedDetector
  | .registerPeer peerId now => { w with detector := w.detector.registerPeer peerId now }
  | .heartbeat peerId now _ =>
    let (heals, detector) := w.detector.heartbeat peerId now
    ⟨detector, w.callbacks ++ if heals then [(.onHeal, peerId)] else []⟩
  | .detectPartition now callbackEnd =>
    let (newlyPartitioned, detector) := w.detector.detectPartition now callbackEnd
    ⟨detector, w.callbacks ++ newlyPartitioned.map fun peerId => (.onPartition, peerId)⟩

/-- A detector with both callbacks, after the calls. -/
def after (heartbeatInterval : ℚ) (missedHeartbeatThreshold : Int) (calls : List DetectorCall) : WatchedDetector :=
  calls.foldl run ⟨.new heartbeatInterval missedHeartbeatThreshold, []⟩

/-- The callbacks that were made for a peer. -/
def callbacksOf (w : WatchedDetector) (peerId : String) : List Callback :=
  (w.callbacks.filter fun made => made.2 = peerId).map Prod.fst

end WatchedDetector

/-- When a peer was heard from last; its registration counts, what it sends before that does not. -/
def lastHeard (calls : List DetectorCall) (peerId : String) : Option ℚ :=
  calls.foldl (fun heard call =>
    match call with
    | .registerPeer registered now => if registered = peerId then some (heard.getD now) else heard
    | .heartbeat sender now _ => if sender = peerId then heard.map fun _ => now else heard
    | .detectPartition _ _ => heard) none

/-- Partition and heal by turns, partition first. -/
def Alternates (callbacks : List Callback) : Prop := callbacks.IsChain (· ≠ ·) ∧ callbacks.head? ≠ some .onHeal

/-- The call is a heartbeat of the peer. -/
def HeardFrom (peerId : String) (call : DetectorCall) : Prop := ∃ now callbackEnd, call = .heartbeat peerId now callbackEnd

/-- The loop of `detect_partition` comes to the peer: no callback before it exits. -/
def Reaches (d : PartitionDetector) (now : ℚ) (callbackEnd : String → CallbackEnd) (peerId : String) : Prop :=
  ∃ earlier status later, d.peers.entries = earlier ++ (peerId, status) :: later ∧
    ∀ peer ∈ earlier, d.isNew now peer = true → callbackEnd peer.1 ≠ .exits

/-- A `detect_partition` finds the peer silent for more than the timeout. -/
structure FindsSilent (calls : List DetectorCall) (d : PartitionDetector) (now : ℚ) (callbackEnd : String → CallbackEnd)
    (peerId : String) : Prop where
  reaches : Reaches d now callbackEnd peerId
  silent : ∃ heard, lastHeard calls peerId = some heard ∧ d.isSilent now heard = true

/-- Some `detect_partition` has found the peer silent, and it has not been heard from since. -/
def SilentSince (heartbeatInterval : ℚ) (missedHeartbeatThreshold : Int) (calls : List DetectorCall) (peerId : String) : Prop :=
  ∃ before now callbackEnd rest, calls = before ++ .detectPartition now callbackEnd :: rest ∧
    FindsSilent before (WatchedDetector.after heartbeatInterval missedHeartbeatThreshold before).detector now callbackEnd peerId ∧
    ∀ call ∈ rest, ¬HeardFrom peerId call

theorem Alternates.concat {callbacks : List Callback} {last : Callback} (h : Alternates callbacks)
    (hlast : callbacks.getLast? = some .onPartition ↔ last = .onHeal) : Alternates (callbacks ++ [last]) := by
  obtain ⟨hchain, hhead⟩ := h
  cases hget : callbacks.getLast? with
  | none =>
    obtain rfl := List.getLast?_eq_none_iff.mp hget
    rw [hget] at hlast
    refine ⟨List.isChain_singleton _, ?_⟩
    rintro hheal
    exact absurd (hlast.mpr (Option.some.inj hheal)) nofun
  | some previous =>
    rw [hget] at hlast
    refine ⟨?_, ?_⟩
    · refine List.isChain_append.mpr ⟨hchain, List.isChain_singleton _, ?_⟩
      intro x hx y hy
      obtain rfl : previous = x := Option.some.inj (hget.symm.trans hx)
      obtain rfl : last = y := Option.some.inj hy
      cases previous <;> cases last <;> simp_all
    · rw [List.head?_append_of_ne_nil]
      · exact hhead
      · rintro rfl
        cases hget

namespace PartitionDetector

variable {d : PartitionDetector} {now : ℚ} {callbackEnd : String → CallbackEnd}

theorem isNew_iff {peer : String × PeerStatus} : d.isNew now peer = true ↔
    d.isSilent now peer.2.lastHeartbeat = true ∧ peer.1 ∉ d.partitionedPeers := by
  simp [isNew]

theorem isNew_partition {peer other : String × PeerStatus} (h : other.1 ≠ peer.1) :
    (d.partition peer).isNew now other = d.isNew now other := by
  have hmem : other.1 ∈ (d.partition peer).partitionedPeers ↔ other.1 ∈ d.partitionedPeers := by simp [partition, h]
  rw [Bool.eq_iff_iff, isNew_iff, isNew_iff, hmem]
  exact Iff.rfl

/-- What the loop leaves: the peers it has found, marked, and everything else as it was. -/
structure Marked (d : PartitionDetector) (found : List String) (d' : PartitionDetector) : Prop where
  timeout : d'.timeout = d.timeout
  nodup : found.Nodup
  fresh : ∀ p ∈ found, p ∉ d.partitionedPeers
  partitioned : ∀ p, p ∈ d'.partitionedPeers ↔ p ∈ d.partitionedPeers ∨ p ∈ found
  peers : ∀ p, d'.peers.get? p =
    (d.peers.get? p).map fun status => if p ∈ found then { status with isAlive := false } else status

theorem marked_partition {peer : String × PeerStatus} (hpeer : d.peers.get? peer.1 = some peer.2)
    (hnew : peer.1 ∉ d.partitionedPeers) : Marked d [peer.1] (d.partition peer) where
  timeout := rfl
  nodup := List.nodup_singleton _
  fresh p hp := List.mem_singleton.mp hp ▸ hnew
  partitioned p := by
    rw [partition, ListSet.mem_add, List.mem_singleton]
    exact or_comm
  peers p := by
    rw [partition, Table.get?_upsert]
    by_cases hp : p = peer.1
    · simp [hp, hpeer]
    · simp [hp]

theorem Marked.trans {d' d'' : PartitionDetector} {found found' : List String} (h : Marked d found d')
    (h' : Marked d' found' d'') : Marked d (found ++ found') d'' where
  timeout := h'.timeout.trans h.timeout
  nodup := by
    refine List.nodup_append.mpr ⟨h.nodup, h'.nodup, ?_⟩
    rintro p hp q hq rfl
    exact h'.fresh p hq ((h.partitioned p).mpr (.inr hp))
  fresh p hp := by
    rcases List.mem_append.mp hp with hp | hp
    · exact h.fresh p hp
    · exact fun hold => h'.fresh p hp ((h.partitioned p).mpr (.inl hold))
  partitioned p := by rw [h'.partitioned, h.partitioned, List.mem_append, or_assoc]
  peers p := by
    rw [h'.peers, h.peers, Option.map_map]
    refine congrArg (fun f => (d.peers.get? p).map f) (funext fun status => ?_)
    by_cases hp : p ∈ found <;> by_cases hp' : p ∈ found' <;> simp [hp, hp']

theorem detectFrom_marked {entries : List (String × PeerStatus)} (hn : (entries.map Prod.fst).Nodup)
    (hentries : ∀ peer ∈ entries, d.peers.get? peer.1 = some peer.2) :
    Marked d (detectFrom callbackEnd now entries d).1 (detectFrom callbackEnd now entries d).2 := by
  induction entries generalizing d with
  | nil =>
    refine ⟨rfl, List.nodup_nil, List.forall_mem_nil _, fun p => ?_, fun p => ?_⟩ <;> simp [detectFrom]
  | cons peer rest ih =>
    obtain ⟨hpeer, hrest⟩ := List.forall_mem_cons.mp hentries
    obtain ⟨hnot, hn⟩ := List.nodup_cons.mp hn
    rw [detectFrom]
    split
    next hnew =>
      have hmarked := marked_partition hpeer (isNew_iff.mp hnew).2
      split
      next => exact hmarked
      next =>
        refine hmarked.trans (ih hn fun other hother => ?_)
        have hne : other.1 ≠ peer.1 := fun he => hnot (he ▸ List.mem_map_of_mem hother)
        rw [partition, Table.get?_upsert, if_neg hne]
        exact hrest other hother
    next => exact ih hn hrest

/-- The loop finds the peers that are new and that it comes to. -/
theorem mem_detectFrom {entries : List (String × PeerStatus)} (hn : (entries.map Prod.fst).Nodup) {p : String} :
    p ∈ (detectFrom callbackEnd now entries d).1 ↔ ∃ earlier status later,
      entries = earlier ++ (p, status) :: later ∧ d.isNew now (p, status) = true ∧
        ∀ peer ∈ earlier, d.isNew now peer = true → callbackEnd peer.1 ≠ .exits := by
  induction entries generalizing d with
  | nil => simp [detectFrom]
  | cons peer rest ih =>
    obtain ⟨hnot, hn⟩ := List.nodup_cons.mp hn
    have hcons : (∃ earlier status later, peer :: rest = earlier ++ (p, status) :: later ∧ d.isNew now (p, status) = true ∧
        ∀ q ∈ earlier, d.isNew now q = true → callbackEnd q.1 ≠ .exits) ↔
        (p = peer.1 ∧ d.isNew now peer = true) ∨ ((d.isNew now peer = true → callbackEnd peer.1 ≠ .exits) ∧
          ∃ earlier status later, rest = earlier ++ (p, status) :: later ∧ d.isNew now (p, status) = true ∧
            ∀ q ∈ earlier, d.isNew now q = true → callbackEnd q.1 ≠ .exits) := by
      constructor
      · rintro ⟨earlier, status, later, heq, hnew, hends⟩
        cases earlier with
        | nil =>
          obtain ⟨rfl, rfl⟩ := List.cons.inj heq
          exact .inl ⟨rfl, hnew⟩
        | cons first earlier =>
          obtain ⟨rfl, rfl⟩ := List.cons.inj heq
          obtain ⟨hfirst, hends⟩ := List.forall_mem_cons.mp hends
          exact .inr ⟨hfirst, earlier, status, later, rfl, hnew, hends⟩
      · rintro (⟨rfl, hnew⟩ | ⟨hfirst, earlier, status, later, rfl, hnew, hends⟩)
        · exact ⟨[], peer.2, rest, rfl, hnew, List.forall_mem_nil _⟩
        · exact ⟨peer :: earlier, status, later, rfl, hnew, List.forall_mem_cons.mpr ⟨hfirst, hends⟩⟩
    rw [hcons, detectFrom]
    by_cases hnew : d.isNew now peer = true
    · rw [if_pos hnew]
      by_cases hexits : callbackEnd peer.1 = .exits
      · rw [if_pos hexits]
        simp [hnew, hexits]
      · rw [if_neg hexits]
        have hsame : ∀ q ∈ rest, (d.partition peer).isNew now q = d.isNew now q := by
          intro q hq
          exact isNew_partition fun he => hnot (he ▸ List.mem_map_of_mem hq)
        simp only [List.mem_cons, ih hn, hnew, hexits, and_true, ne_eq, not_false_eq_true, imp_self, true_and]
        refine or_congr_right ?_
        constructor
        · rintro ⟨earlier, status, later, rfl, hp, hends⟩
          refine ⟨earlier, status, later, rfl, ?_, fun q hq => ?_⟩
          · rwa [← hsame _ (by simp)]
          · rw [← hsame q (List.mem_append_left _ hq)]
            exact hends q hq
        · rintro ⟨earlier, status, later, rfl, hp, hends⟩
          refine ⟨earlier, status, later, rfl, ?_, fun q hq => ?_⟩
          · rwa [hsame _ (by simp)]
          · rw [hsame q (List.mem_append_left _ hq)]
            exact hends q hq
    · rw [if_neg hnew, ih hn]
      simp [hnew]

end PartitionDetector

namespace WatchedDetector

/-- What holds of one peer after the calls. -/
structure Consistent (calls : List DetectorCall) (w : WatchedDetector) (p : String) : Prop where
  registered : p ∈ w.detector.partitionedPeers → ∃ status, w.detector.peers.get? p = some status
  alive : ∀ status, w.detector.peers.get? p = some status → (status.isAlive = true ↔ p ∉ w.detector.partitionedPeers)
  heard : (w.detector.peers.get? p).map PeerStatus.lastHeartbeat = lastHeard calls p
  alternates : Alternates (w.callbacksOf p)
  last : (w.callbacksOf p).getLast? = some .onPartition ↔ p ∈ w.detector.partitionedPeers

theorem lastHeard_concat (calls : List DetectorCall) (call : DetectorCall) (p : String) :
    lastHeard (calls ++ [call]) p =
      match call with
      | .registerPeer registered now => if registered = p then some ((lastHeard calls p).getD now) else lastHeard calls p
      | .heartbeat sender now _ => if sender = p then (lastHeard calls p).map fun _ => now else lastHeard calls p
      | .detectPartition _ _ => lastHeard calls p := by
  rw [lastHeard, List.foldl_concat]
  cases call <;> rfl

theorem callbacksOf_append (w : WatchedDetector) (detector : PartitionDetector) (more : List (Callback × String)) (p : String) :
    callbacksOf ⟨detector, w.callbacks ++ more⟩ p = w.callbacksOf p ++ callbacksOf ⟨detector, more⟩ p := by
  simp [callbacksOf]

theorem callbacksOf_found {detector : PartitionDetector} {found : List String} (hn : found.Nodup) (p : String) :
    callbacksOf ⟨detector, found.map fun peerId => (.onPartition, peerId)⟩ p =
      if p ∈ found then [.onPartition] else [] := by
  induction found with
  | nil => rfl
  | cons q rest ih =>
    obtain ⟨hnot, hn⟩ := List.nodup_cons.mp hn
    have hrest := ih hn
    by_cases hq : q = p
    · subst hq
      rw [if_neg hnot] at hrest
      simpa [callbacksOf] using hrest
    · simpa [callbacksOf, hq, Ne.symm hq] using hrest

theorem consistent_new (heartbeatInterval : ℚ) (missedHeartbeatThreshold : Int) (p : String) :
    Consistent [] ⟨.new heartbeatInterval missedHeartbeatThreshold, []⟩ p where
  registered hp := absurd hp (ListSet.not_mem_empty p)
  alive _ h := nomatch h
  heard := rfl
  alternates := ⟨List.isChain_nil, nofun⟩
  last := iff_of_false nofun (ListSet.not_mem_empty p)

section Steps

variable {calls calls' : List DetectorCall} {w w' : WatchedDetector} {p : String}

/-- A call that leaves the peer alone. -/
theorem Consistent.of_same (h : Consistent calls w p) (hpeers : w'.detector.peers.get? p = w.detector.peers.get? p)
    (hpartitioned : p ∈ w'.detector.partitionedPeers ↔ p ∈ w.detector.partitionedPeers)
    (hcallbacks : w'.callbacksOf p = w.callbacksOf p) (hheard : lastHeard calls' p = lastHeard calls p) :
    Consistent calls' w' p := by
  refine ⟨?_, ?_, ?_, ?_, ?_⟩
  · rw [hpartitioned, hpeers]
    exact h.registered
  · rw [hpartitioned, hpeers]
    exact h.alive
  · rw [hpeers, hheard]
    exact h.heard
  · rw [hcallbacks]
    exact h.alternates
  · rw [hcallbacks, hpartitioned]
    exact h.last

theorem Consistent.not_partitioned (h : Consistent calls w p) (hget : w.detector.peers.get? p = none) :
    p ∉ w.detector.partitionedPeers := by
  intro hmem
  obtain ⟨status, hstatus⟩ := h.registered hmem
  rw [hget] at hstatus
  cases hstatus

theorem Consistent.register (h : Consistent calls w p) (peerId : String) (now : ℚ) :
    Consistent (calls ++ [.registerPeer peerId now]) (w.run (.registerPeer peerId now)) p := by
  have hheard := lastHeard_concat calls (.registerPeer peerId now) p
  rw [run, PartitionDetector.registerPeer]
  split
  next hcontains =>
    refine h.of_same rfl Iff.rfl rfl (hheard.trans ?_)
    dsimp only
    split
    next he =>
      obtain ⟨status, hstatus⟩ := Table.contains_eq_true_iff.mp hcontains
      rw [← h.heard, ← he, hstatus]
      rfl
    next => rfl
  next hcontains =>
    have hget := Table.contains_eq_false_iff.mp (Bool.eq_false_of_not_eq_true hcontains)
    by_cases he : peerId = p
    · subst he
      have hfree := h.not_partitioned hget
      refine ⟨fun hmem => absurd hmem hfree, fun status hstatus => ?_, ?_, h.alternates, h.last⟩
      · rw [Table.get?_upsert, if_pos rfl] at hstatus
        obtain rfl := Option.some.inj hstatus
        exact iff_of_true rfl hfree
      · rw [hheard, ← h.heard, hget, Table.get?_upsert, if_pos rfl]
        simp
    · refine h.of_same ?_ Iff.rfl rfl (hheard.trans (if_neg he))
      rw [Table.get?_upsert, if_neg (Ne.symm he)]

theorem Consistent.heartbeat (h : Consistent calls w p) (peerId : String) (now : ℚ) (callbackEnd : CallbackEnd) :
    Consistent (calls ++ [.heartbeat peerId now callbackEnd]) (w.run (.heartbeat peerId now callbackEnd)) p := by
  have hheard := lastHeard_concat calls (.heartbeat peerId now callbackEnd) p
  rw [run, PartitionDetector.heartbeat]
  cases hget : w.detector.peers.get? peerId with
  | none =>
    refine h.of_same rfl Iff.rfl (by simp [callbacksOf]) (hheard.trans ?_)
    dsimp only
    split
    next he => rw [← h.heard, ← he, hget, Option.map_none, Option.map_none]
    next => rfl
  | some status =>
    by_cases hpartitioned : peerId ∈ w.detector.partitionedPeers
    · simp only [if_pos hpartitioned, if_true]
      by_cases he : peerId = p
      · subst he
        have hhealed : peerId ∉ w.detector.partitionedPeers.filter (· ≠ peerId) := by simp
        have hcallbacks (d : PartitionDetector) : callbacksOf ⟨d, w.callbacks ++ [(.onHeal, peerId)]⟩ peerId =
            w.callbacksOf peerId ++ [.onHeal] := by simp [callbacksOf]
        refine ⟨fun hmem => absurd hmem hhealed, fun status' hstatus => ?_, ?_, ?_, ?_⟩
        · rw [Table.get?_upsert, if_pos rfl] at hstatus
          obtain rfl := Option.some.inj hstatus
          exact iff_of_true rfl hhealed
        · rw [hheard, ← h.heard, hget, Table.get?_upsert, if_pos rfl]
          simp
        · rw [hcallbacks]
          exact h.alternates.concat (iff_of_true (h.last.mpr hpartitioned) rfl)
        · rw [hcallbacks, List.getLast?_concat]
          exact iff_of_false nofun hhealed
      · refine h.of_same ?_ ?_ (by simp [callbacksOf, he]) (hheard.trans (if_neg he))
        · rw [Table.get?_upsert, if_neg (Ne.symm he)]
        · rw [ListSet.mem_filter]
          exact and_iff_left (decide_eq_true (Ne.symm he))
    · simp only [if_neg hpartitioned, Bool.false_eq_true, if_false, List.append_nil]
      by_cases he : peerId = p
      · subst he
        refine ⟨fun hmem => absurd hmem hpartitioned, fun status' hstatus => ?_, ?_, h.alternates, h.last⟩
        · rw [Table.get?_upsert, if_pos rfl] at hstatus
          obtain rfl := Option.some.inj hstatus
          exact h.alive status hget
        · rw [hheard, ← h.heard, hget, Table.get?_upsert, if_pos rfl]
          simp
      · refine h.of_same ?_ Iff.rfl rfl (hheard.trans (if_neg he))
        rw [Table.get?_upsert, if_neg (Ne.symm he)]

theorem marked_detect (w : WatchedDetector) (now : ℚ) (callbackEnd : String → CallbackEnd) :
    PartitionDetector.Marked w.detector (w.detector.detectPartition now callbackEnd).1
      (w.detector.detectPartition now callbackEnd).2 :=
  PartitionDetector.detectFrom_marked w.detector.peers.keysNodup fun _ hpeer => Table.get?_eq_some_iff.mpr hpeer

theorem Consistent.detect (h : Consistent calls w p) (now : ℚ) (callbackEnd : String → CallbackEnd) :
    Consistent (calls ++ [.detectPartition now callbackEnd]) (w.run (.detectPartition now callbackEnd)) p := by
  have hmarked := w.marked_detect now callbackEnd
  have hheard : lastHeard (calls ++ [.detectPartition now callbackEnd]) p = lastHeard calls p := lastHeard_concat ..
  have hrun : w.run (.detectPartition now callbackEnd) = ⟨(w.detector.detectPartition now callbackEnd).2, w.callbacks ++
    (w.detector.detectPartition now callbackEnd).1.map fun peerId => (.onPartition, peerId)⟩ := rfl
  have hcallbacks := callbacksOf_append w (w.detector.detectPartition now callbackEnd).2
    ((w.detector.detectPartition now callbackEnd).1.map fun peerId => (.onPartition, peerId)) p
  rw [callbacksOf_found hmarked.nodup] at hcallbacks
  rw [hrun]
  by_cases hfound : p ∈ (w.detector.detectPartition now callbackEnd).1
  · have hfree := hmarked.fresh p hfound
    have hpartitioned := (hmarked.partitioned p).mpr (.inr hfound)
    rw [if_pos hfound] at hcallbacks
    have hpeer := hmarked.peers p
    simp only [if_pos hfound] at hpeer
    refine ⟨fun _ => ?_, fun status' hstatus => ?_, ?_, ?_, ?_⟩
    · obtain ⟨earlier, status, later, hentries, -⟩ := (PartitionDetector.mem_detectFrom w.detector.peers.keysNodup).mp hfound
      have hget := Table.get?_eq_some_iff.mpr (hentries ▸ List.mem_append_right earlier List.mem_cons_self)
      exact ⟨_, hpeer.trans (congrArg _ hget)⟩
    · rw [hpeer] at hstatus
      obtain ⟨status, -, rfl⟩ := Option.map_eq_some_iff.mp hstatus
      exact iff_of_false Bool.false_ne_true (not_not.mpr hpartitioned)
    · rw [hheard, ← h.heard, hpeer, Option.map_map]
      rfl
    · rw [hcallbacks]
      exact h.alternates.concat (iff_of_false (fun hlast => hfree (h.last.mp hlast)) nofun)
    · rw [hcallbacks, List.getLast?_concat]
      exact iff_of_true rfl hpartitioned
  · rw [if_neg hfound, List.append_nil] at hcallbacks
    refine h.of_same ?_ ?_ hcallbacks hheard
    · rw [hmarked.peers]
      simp [hfound]
    · rw [hmarked.partitioned]
      exact or_iff_left hfound

theorem Consistent.run (h : Consistent calls w p) (call : DetectorCall) : Consistent (calls ++ [call]) (w.run call) p := by
  cases call with
  | registerPeer peerId now => exact h.register peerId now
  | heartbeat peerId now callbackEnd => exact h.heartbeat peerId now callbackEnd
  | detectPartition now callbackEnd => exact h.detect now callbackEnd

end Steps

section Runs

variable {heartbeatInterval : ℚ} {missedHeartbeatThreshold : Int} {calls : List DetectorCall} {p : String}

theorem after_concat (call : DetectorCall) : after heartbeatInterval missedHeartbeatThreshold (calls ++ [call]) =
    (after heartbeatInterval missedHeartbeatThreshold calls).run call := List.foldl_concat ..

theorem consistent_after (heartbeatInterval : ℚ) (missedHeartbeatThreshold : Int) (calls : List DetectorCall) (p : String) :
    Consistent calls (after heartbeatInterval missedHeartbeatThreshold calls) p := by
  induction calls using List.reverseRecOn with
  | nil => exact consistent_new heartbeatInterval missedHeartbeatThreshold p
  | append_singleton calls call ih =>
    rw [after_concat]
    exact ih.run call

/-- A peer has been heard from since it was registered. -/
theorem lastHeard_ne_none_iff : lastHeard calls p ≠ none ↔ ∃ now, .registerPeer p now ∈ calls := by
  induction calls using List.reverseRecOn with
  | nil => simp [lastHeard]
  | append_singleton calls call ih =>
    have hlast : (∃ now, DetectorCall.registerPeer p now ∈ calls ++ [call]) ↔
        (∃ now, DetectorCall.registerPeer p now ∈ calls) ∨ ∃ now, call = .registerPeer p now := by
      simp only [List.mem_append, List.mem_singleton, exists_or, eq_comm]
    rw [hlast, ← ih, lastHeard_concat]
    cases call with
    | registerPeer registered now =>
      by_cases he : registered = p <;> simp [he]
    | heartbeat sender now callbackEnd =>
      by_cases he : sender = p <;> simp [he]
    | detectPartition now callbackEnd => simp

/-- One more call: the peer was silent before and the call is none of its heartbeats, or the
call finds it silent. -/
theorem silentSince_concat (call : DetectorCall) :
    SilentSince heartbeatInterval missedHeartbeatThreshold (calls ++ [call]) p ↔
      (SilentSince heartbeatInterval missedHeartbeatThreshold calls p ∧ ¬HeardFrom p call) ∨
        ∃ now callbackEnd, call = .detectPartition now callbackEnd ∧
          FindsSilent calls (after heartbeatInterval missedHeartbeatThreshold calls).detector now callbackEnd p := by
  constructor
  · rintro ⟨before, now, callbackEnd, rest, heq, hfinds, hrest⟩
    rcases List.eq_nil_or_concat rest with rfl | ⟨rest, last, rfl⟩
    · obtain ⟨rfl, hcall⟩ := List.append_inj' heq rfl
      exact .inr ⟨now, callbackEnd, (List.cons.inj hcall).1, hfinds⟩
    · rw [List.concat_eq_append, ← List.cons_append, ← List.append_assoc] at heq
      obtain ⟨rfl, hcall⟩ := List.append_inj' heq rfl
      obtain ⟨hrest, hlast⟩ := List.forall_mem_append.mp (List.concat_eq_append ▸ hrest)
      rw [(List.cons.inj hcall).1]
      exact .inl ⟨⟨before, now, callbackEnd, rest, rfl, hfinds, hrest⟩, hlast last (List.mem_singleton_self _)⟩
  · rintro (⟨⟨before, now, callbackEnd, rest, rfl, hfinds, hrest⟩, hcall⟩ | ⟨now, callbackEnd, rfl, hfinds⟩)
    · refine ⟨before, now, callbackEnd, rest ++ [call], ?_, hfinds, ?_⟩
      · rw [List.append_assoc, List.cons_append]
      · exact List.forall_mem_append.mpr ⟨hrest, List.forall_mem_singleton.mpr hcall⟩
    · exact ⟨calls, now, callbackEnd, [], rfl, hfinds, List.forall_mem_nil _⟩

/-- A peer is found newly partitioned if it is found silent and is not partitioned. -/
theorem mem_detect_iff (h : Consistent calls (after heartbeatInterval missedHeartbeatThreshold calls) p) (now : ℚ)
    (callbackEnd : String → CallbackEnd) :
    p ∈ ((after heartbeatInterval missedHeartbeatThreshold calls).detector.detectPartition now callbackEnd).1 ↔
      FindsSilent calls (after heartbeatInterval missedHeartbeatThreshold calls).detector now callbackEnd p ∧
        p ∉ (after heartbeatInterval missedHeartbeatThreshold calls).detector.partitionedPeers := by
  have hheard := h.heard
  generalize (after heartbeatInterval missedHeartbeatThreshold calls).detector = d at hheard ⊢
  have hstatus {earlier later : List (String × PeerStatus)} {status : PeerStatus}
      (hentries : d.peers.entries = earlier ++ (p, status) :: later) : lastHeard calls p = some status.lastHeartbeat := by
    have hget := Table.get?_eq_some_iff.mpr (hentries ▸ List.mem_append_right earlier List.mem_cons_self)
    rw [← hheard, hget, Option.map_some]
  rw [PartitionDetector.detectPartition, PartitionDetector.mem_detectFrom d.peers.keysNodup]
  constructor
  · rintro ⟨earlier, status, later, hentries, hnew, hends⟩
    obtain ⟨hsilent, hfree⟩ := PartitionDetector.isNew_iff.mp hnew
    exact ⟨⟨⟨earlier, status, later, hentries, hends⟩, _, hstatus hentries, hsilent⟩, hfree⟩
  · rintro ⟨⟨⟨earlier, status, later, hentries, hends⟩, heard, hlast, hsilent⟩, hfree⟩
    obtain rfl := Option.some.inj (hlast.symm.trans (hstatus hentries))
    exact ⟨earlier, status, later, hentries, PartitionDetector.isNew_iff.mpr ⟨hsilent, hfree⟩, hends⟩

theorem Consistent.partitioned_run {w : WatchedDetector} (h : Consistent calls w p) (call : DetectorCall) :
    p ∈ (w.run call).detector.partitionedPeers ↔
      (p ∈ w.detector.partitionedPeers ∧ ¬HeardFrom p call) ∨ ∃ now callbackEnd, call = .detectPartition now callbackEnd ∧
        p ∈ (w.detector.detectPartition now callbackEnd).1 := by
  cases call with
  | registerPeer peerId now =>
    have hsame : (w.run (.registerPeer peerId now)).detector.partitionedPeers = w.detector.partitionedPeers := by
      rw [WatchedDetector.run, PartitionDetector.registerPeer]
      split <;> rfl
    simp [hsame, HeardFrom]
  | detectPartition now callbackEnd =>
    have hmarked := (w.marked_detect now callbackEnd).partitioned p
    simpa [HeardFrom, WatchedDetector.run] using hmarked
  | heartbeat peerId now callbackEnd =>
    have hheard : HeardFrom p (.heartbeat peerId now callbackEnd) ↔ peerId = p := by simp [HeardFrom]
    rw [hheard]
    simp only [reduceCtorEq, false_and, exists_false, or_false]
    cases hget : w.detector.peers.get? peerId with
    | none =>
      simp only [WatchedDetector.run, PartitionDetector.heartbeat, hget]
      refine ⟨fun hmem => ⟨hmem, ?_⟩, And.left⟩
      rintro rfl
      exact h.not_partitioned hget hmem
    | some status =>
      by_cases hpartitioned : peerId ∈ w.detector.partitionedPeers
      · simp only [WatchedDetector.run, PartitionDetector.heartbeat, hget, if_pos hpartitioned, ListSet.mem_filter, decide_eq_true_eq]
        exact and_congr_right fun _ => ne_comm
      · simp only [WatchedDetector.run, PartitionDetector.heartbeat, hget, if_neg hpartitioned]
        refine ⟨fun hmem => ⟨hmem, ?_⟩, And.left⟩
        rintro rfl
        exact hpartitioned hmem

/-- The partitioned peers are those that were found silent and are silent since. -/
theorem partitioned_iff_silentSince (heartbeatInterval : ℚ) (missedHeartbeatThreshold : Int) (calls : List DetectorCall)
    (p : String) : p ∈ (after heartbeatInterval missedHeartbeatThreshold calls).detector.partitionedPeers ↔
      SilentSince heartbeatInterval missedHeartbeatThreshold calls p := by
  induction calls using List.reverseRecOn with
  | nil =>
    refine iff_of_false (ListSet.not_mem_empty p) ?_
    rintro ⟨before, now, callbackEnd, rest, heq, -⟩
    simp at heq
  | append_singleton calls call ih =>
    have h := consistent_after heartbeatInterval missedHeartbeatThreshold calls p
    rw [after_concat, h.partitioned_run, silentSince_concat, ← ih]
    simp only [mem_detect_iff h]
    constructor
    · rintro (hold | ⟨now, callbackEnd, rfl, hfinds, -⟩)
      · exact .inl hold
      · exact .inr ⟨now, callbackEnd, rfl, hfinds⟩
    · rintro (hold | ⟨now, callbackEnd, rfl, hfinds⟩)
      · exact .inl hold
      · by_cases hmem : p ∈ (after heartbeatInterval missedHeartbeatThreshold calls).detector.partitionedPeers
        · exact .inl ⟨hmem, by simp [HeardFrom]⟩
        · exact .inr ⟨now, callbackEnd, rfl, hfinds, hmem⟩

theorem mem_getAlivePeers {d : PartitionDetector} : p ∈ d.getAlivePeers ↔ ∃ status, d.peers.get? p = some status ∧ status.isAlive = true := by
  rw [PartitionDetector.getAlivePeers, ListSet.mem_addAll, or_iff_right (ListSet.not_mem_empty p), List.mem_map]
  constructor
  · rintro ⟨peer, hpeer, rfl⟩
    obtain ⟨hmem, halive⟩ := List.mem_filter.mp hpeer
    exact ⟨peer.2, Table.get?_eq_some_iff.mpr hmem, halive⟩
  · rintro ⟨status, hstatus, halive⟩
    exact ⟨(p, status), List.mem_filter.mpr ⟨Table.get?_eq_some_iff.mp hstatus, halive⟩, rfl⟩

/-- After any calls, whatever the clock reads and however the callbacks end: the callbacks of
a peer alternate from a partition on; the partitioned peers are the registered ones that are
not alive, those whose last callback was a partition, and those that were found silent and
are silent since. -/
theorem partitions_and_heals_alternate (heartbeatInterval : ℚ) (missedHeartbeatThreshold : Int) (calls : List DetectorCall)
    (p : String) :
    let w := after heartbeatInterval missedHeartbeatThreshold calls
    Alternates (w.callbacksOf p) ∧
    (p ∈ w.detector.getPartitionedPeers ↔ (∃ now, .registerPeer p now ∈ calls) ∧ p ∉ w.detector.getAlivePeers) ∧
    (p ∈ w.detector.getPartitionedPeers ↔ (w.callbacksOf p).getLast? = some .onPartition) ∧
    (p ∈ w.detector.getPartitionedPeers ↔ SilentSince heartbeatInterval missedHeartbeatThreshold calls p) := by
  intro w
  have h : Consistent calls w p := consistent_after heartbeatInterval missedHeartbeatThreshold calls p
  refine ⟨h.alternates, ?_, h.last.symm, partitioned_iff_silentSince heartbeatInterval missedHeartbeatThreshold calls p⟩
  rw [← lastHeard_ne_none_iff, ← h.heard, mem_getAlivePeers]
  cases hget : w.detector.peers.get? p with
  | none => exact iff_of_false (h.not_partitioned hget) fun hreg => hreg.1 rfl
  | some status =>
    have halive := h.alive status hget
    simp [halive, PartitionDetector.getPartitionedPeers]

end Runs

end WatchedDetector

end AgentNetwork.Monitoring
