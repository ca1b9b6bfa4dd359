import AgentNetwork.Library.Json
import AgentNetwork.Library.ListSet
import AgentNetwork.Library.Table

/-! Artifacts held in escrow until every shard they depend on has signalled ready. -/

namespace AgentNetwork.Sharding

open Relational

inductive EscrowState
  | pending
  | ready
  | released
  | expired
  | cancelled
  deriving DecidableEq

structure EscrowArtifact where
  escrowId : String
  artifactHash : String
  ttlNs : Int
  shardDependencies : List Int
  createdAtNs : Int
  expiresAtNs : Int
  state : EscrowState
  readyShards : ListSet Int
  metadata : List (String × Json)
  deriving DecidableEq

namespace EscrowArtifact

/-- `__post_init__`: an expiry of 0 is computed from the creation time. -/
def postInit (escrow : EscrowArtifact) : EscrowArtifact :=
  if escrow.expiresAtNs = 0 then { escrow with expiresAtNs := escrow.createdAtNs + escrow.ttlNs } else escrow

def isExpired (escrow : EscrowArtifact) (currentTimeNs : Int) : Bool := currentTimeNs ≥ escrow.expiresAtNs

def allDependenciesReady (escrow : EscrowArtifact) : Bool :=
  escrow.shardDependencies.all fun shardId => shardId ∈ escrow.readyShards

theorem isExpired_iff {escrow : EscrowArtifact} {t : Int} : escrow.isExpired t = true ↔ escrow.expiresAtNs ≤ t := by
  simp [isExpired]

theorem allDependenciesReady_iff {escrow : EscrowArtifact} :
    escrow.allDependenciesReady = true ↔ ∀ d ∈ escrow.shardDependencies, d ∈ escrow.readyShards := by
  simp [allDependenciesReady]

end EscrowArtifact

structure EscrowManager where
  escrows : Table String EscrowArtifact
  deriving DecidableEq

namespace EscrowManager

def init : EscrowManager := ⟨.empty⟩

def setState (escrowId : String) (state : EscrowState) (m : EscrowManager) : EscrowManager :=
  ⟨m.escrows.modify escrowId fun escrow => { escrow with state := state }⟩

def transitionToReady (escrowId : String) (m : EscrowManager) : EscrowManager := m.setState escrowId .ready

/-- `create_escrow`, with the identifier `uuid4` draws and the time it reads. -/
def createEscrow (escrowId : String) (nowNs : Int) (artifactHash : String) (dependencies : List Int) (ttlNs : Int)
    (metadata : Option (List (String × Json))) (m : EscrowManager) : String × EscrowManager :=
  let escrow := EscrowArtifact.postInit
    { escrowId := escrowId, artifactHash := artifactHash, ttlNs := ttlNs, shardDependencies := dependencies,
      createdAtNs := nowNs, expiresAtNs := 0, state := .pending, readyShards := .empty,
      metadata := metadata.getD [] }
  let m : EscrowManager := ⟨m.escrows.upsert escrowId escrow⟩
  if dependencies = [] then (escrowId, m.transitionToReady escrowId) else (escrowId, m)

def addReadyShard (escrowId : String) (shardId : Int) (m : EscrowManager) : Bool × EscrowManager :=
  match m.escrows.get? escrowId with
  | none => (false, m)
  | some escrow =>
    if escrow.state ≠ .pending then (false, m)
    else
      let escrow := { escrow with readyShards := escrow.readyShards.add shardId }
      let m : EscrowManager := ⟨m.escrows.set escrowId escrow⟩
      if escrow.allDependenciesReady then (true, m.transitionToReady escrowId) else (false, m)

def checkAllReady (escrowId : String) (m : EscrowManager) : Bool :=
  match m.escrows.get? escrowId with
  | none => false
  | some escrow => escrow.state = .ready || escrow.allDependenciesReady

def releaseEscrow (escrowId : String) (m : EscrowManager) : Option String × EscrowManager :=
  match m.escrows.get? escrowId with
  | none => (none, m)
  | some escrow =>
    if escrow.state ≠ .ready then (none, m)
    else (some escrow.artifactHash, m.setState escrowId .released)

def expireEscrow (escrowId : String) (m : EscrowManager) : Bool × EscrowManager :=
  match m.escrows.get? escrowId with
  | none => (false, m)
  | some escrow =>
    if escrow.state ≠ .pending ∧ escrow.state ≠ .ready then (false, m)
    else (true, m.setState escrowId .expired)

def cancelEscrow (escrowId : String) (m : EscrowManager) : Bool × EscrowManager :=
  match m.escrows.get? escrowId with
  | none => (false, m)
  | some escrow =>
    if escrow.state = .released ∨ escrow.state = .expired then (false, m)
    else (true, m.setState escrowId .cancelled)

/-- The loop of `check_expirations` over the identifiers still to visit, with
those expired so far. -/
def expireOverdue (currentTimeNs : Int) : List String → List String × EscrowManager → List String × EscrowManager
  | [], result => result
  | escrowId :: rest, (expired, m) =>
    match m.escrows.get? escrowId with
    | none => expireOverdue currentTimeNs rest (expired, m)
    | some escrow =>
      if escrow.state = .pending ∧ escrow.isExpired currentTimeNs then
        match m.expireEscrow escrowId with
        | (true, m) => expireOverdue currentTimeNs rest (expired ++ [escrowId], m)
        | (false, m) => expireOverdue currentTimeNs rest (expired, m)
      else expireOverdue currentTimeNs rest (expired, m)

/-- `check_expirations` at a given time, or at the time it reads. -/
def checkExpirations (nowNs : Int) (currentTimeNs : Option Int) (m : EscrowManager) : List String × EscrowManager :=
  expireOverdue (currentTimeNs.getD nowNs) m.escrows.keys ([], m)

def isCompleted : EscrowState → Bool
  | .released | .expired | .cancelled => true
  | .pending | .ready => false

def cleanupCompleted (m : EscrowManager) : Nat × EscrowManager :=
  let toRemove := (m.escrows.entries.filter fun e => isCompleted e.2.state).map Prod.fst
  (toRemove.length, ⟨toRemove.foldl Table.erase m.escrows⟩)

def getEscrow (escrowId : String) (m : EscrowManager) : Option EscrowArtifact := m.escrows.get? escrowId

def getPendingEscrows (m : EscrowManager) : List EscrowArtifact :=
  (m.escrows.entries.map Prod.snd).filter fun escrow => escrow.state = .pending

@[simp] theorem getEscrow_init (id : String) : init.getEscrow id = none := rfl

@[simp] theorem getEscrow_setState (m : EscrowManager) (escrowId id : String) (state : EscrowState) :
    (m.setState escrowId state).getEscrow id =
      if id = escrowId then (m.getEscrow escrowId).map fun escrow => { escrow with state := state }
      else m.getEscrow id :=
  Table.get?_modify _ _ _ _

/-- The artifact a new escrow is registered with. -/
def newEscrow (escrowId : String) (nowNs : Int) (artifactHash : String) (dependencies : List Int) (ttlNs : Int)
    (metadata : Option (List (String × Json))) : EscrowArtifact :=
  { escrowId := escrowId, artifactHash := artifactHash, ttlNs := ttlNs, shardDependencies := dependencies,
    createdAtNs := nowNs, expiresAtNs := nowNs + ttlNs, state := if dependencies = [] then .ready else .pending,
    readyShards := .empty, metadata := metadata.getD [] }

theorem getEscrow_createEscrow (m : EscrowManager) (escrowId id : String) (nowNs : Int) (artifactHash : String)
    (dependencies : List Int) (ttlNs : Int) (metadata : Option (List (String × Json))) :
    (m.createEscrow escrowId nowNs artifactHash dependencies ttlNs metadata).2.getEscrow id =
      if id = escrowId then some (newEscrow escrowId nowNs artifactHash dependencies ttlNs metadata)
      else m.getEscrow id := by
  unfold createEscrow transitionToReady
  dsimp only
  split
  next h =>
    rw [getEscrow_setState]
    by_cases hid : id = escrowId
    · simp [hid, h, getEscrow, newEscrow, EscrowArtifact.postInit]
    · simp [hid, getEscrow]
  next h =>
    by_cases hid : id = escrowId <;> simp [hid, h, getEscrow, newEscrow, EscrowArtifact.postInit]

/-- What a ready signal makes of the escrow it names. -/
def signalled (shardId : Int) (escrow : EscrowArtifact) : EscrowArtifact :=
  if escrow.state ≠ .pending then escrow
  else if ∀ d ∈ escrow.shardDependencies, d ∈ escrow.readyShards.add shardId then
    { escrow with readyShards := escrow.readyShards.add shardId, state := .ready }
  else { escrow with readyShards := escrow.readyShards.add shardId }

theorem getEscrow_addReadyShard (m : EscrowManager) (escrowId id : String) (shardId : Int) :
    (m.addReadyShard escrowId shardId).2.getEscrow id =
      if id = escrowId then (m.getEscrow escrowId).map (signalled shardId) else m.getEscrow id := by
  unfold addReadyShard transitionToReady
  split
  next h =>
    by_cases hid : id = escrowId
    · simp [hid, getEscrow, h]
    · simp [hid]
  next escrow h =>
    split
    next hstate =>
      by_cases hid : id = escrowId
      · simp [hid, getEscrow, h, signalled, hstate]
      · simp [hid]
    next hstate =>
      simp only [EscrowArtifact.allDependenciesReady_iff]
      split
      next hall =>
        rw [getEscrow_setState]
        by_cases hid : id = escrowId
        · simp only [hid, getEscrow, Table.get?_set, h, if_true, Option.map_some, signalled, hstate, if_false,
            if_pos hall]
        · simp [hid, getEscrow]
      next hall =>
        by_cases hid : id = escrowId
        · simp only [hid, getEscrow, Table.get?_set, h, if_true, Option.map_some, signalled, hstate, if_false, hall]
        · simp [hid, getEscrow]

theorem releaseEscrow_fst (m : EscrowManager) (escrowId : String) {hash : String} :
    (m.releaseEscrow escrowId).1 = some hash ↔
      ∃ escrow, m.getEscrow escrowId = some escrow ∧ escrow.state = .ready ∧ escrow.artifactHash = hash := by
  unfold releaseEscrow getEscrow
  split
  next h => simp [h]
  next escrow h =>
    split
    next hstate => simp [h, hstate]
    next hstate => simp [h, not_not.mp hstate]

/-- Moves an escrow from the states of a guard to a state. -/
def advanced (guard : EscrowState → Bool) (state : EscrowState) (escrow : EscrowArtifact) : EscrowArtifact :=
  if guard escrow.state then { escrow with state := state } else escrow

def advance (guard : EscrowState → Bool) (state : EscrowState) (escrowId : String) (m : EscrowManager) :
    EscrowManager :=
  ⟨m.escrows.modify escrowId (advanced guard state)⟩

@[simp] theorem getEscrow_advance (m : EscrowManager) (guard : EscrowState → Bool) (state : EscrowState)
    (escrowId id : String) :
    (m.advance guard state escrowId).getEscrow id =
      if id = escrowId then (m.getEscrow escrowId).map (advanced guard state) else m.getEscrow id :=
  Table.get?_modify _ _ _ _

def canRelease (state : EscrowState) : Bool := state = .ready

def canExpire (state : EscrowState) : Bool := state = .pending ∨ state = .ready

def canCancel (state : EscrowState) : Bool := ¬(state = .released ∨ state = .expired)

/-- A guarded change of state is seen by looking an escrow up as `advance` is. -/
theorem getEscrow_guarded {m m' : EscrowManager} {guard : EscrowState → Bool} {state : EscrowState} {escrowId : String}
    (hskip : (∀ escrow, m.getEscrow escrowId = some escrow → guard escrow.state = false) → m' = m)
    (hmove : ∀ escrow, m.getEscrow escrowId = some escrow → guard escrow.state = true →
      m' = m.setState escrowId state) (id : String) :
    m'.getEscrow id = (m.advance guard state escrowId).getEscrow id := by
  rw [getEscrow_advance]
  cases h : m.getEscrow escrowId with
  | none =>
    rw [hskip (by simp [h])]
    by_cases hid : id = escrowId <;> simp [hid, h]
  | some escrow =>
    cases hguard : guard escrow.state with
    | false =>
      rw [hskip (by simpa [h] using hguard)]
      by_cases hid : id = escrowId <;> simp [hid, h, advanced, hguard]
    | true =>
      rw [hmove escrow h hguard, getEscrow_setState]
      by_cases hid : id = escrowId <;> simp [hid, h, advanced, hguard]

theorem getEscrow_releaseEscrow (m : EscrowManager) (escrowId id : String) :
    (m.releaseEscrow escrowId).2.getEscrow id = (m.advance canRelease .released escrowId).getEscrow id := by
  apply getEscrow_guarded
  · intro hskip
    unfold releaseEscrow
    split
    next => rfl
    next escrow h =>
      have hnot : escrow.state ≠ .ready := by simpa [canRelease] using hskip escrow h
      rw [if_pos hnot]
  · intro escrow h hguard
    have hready : escrow.state = .ready := by simpa [canRelease] using hguard
    unfold getEscrow at h
    simp [releaseEscrow, h, hready]

theorem getEscrow_expireEscrow (m : EscrowManager) (escrowId id : String) :
    (m.expireEscrow escrowId).2.getEscrow id = (m.advance canExpire .expired escrowId).getEscrow id := by
  apply getEscrow_guarded
  · intro hskip
    unfold expireEscrow
    split
    next => rfl
    next escrow h =>
      have hfinal := hskip escrow h
      simp only [canExpire, decide_eq_false_iff_not, not_or] at hfinal
      simp [hfinal]
  · intro escrow h hguard
    have hopen : escrow.state = .pending ∨ escrow.state = .ready := by simpa [canExpire] using hguard
    have hnot : ¬(escrow.state ≠ .pending ∧ escrow.state ≠ .ready) := fun hno => hopen.elim hno.1 hno.2
    unfold getEscrow at h
    simp only [expireEscrow, h, if_neg hnot]

theorem getEscrow_cancelEscrow (m : EscrowManager) (escrowId id : String) :
    (m.cancelEscrow escrowId).2.getEscrow id = (m.advance canCancel .cancelled escrowId).getEscrow id := by
  apply getEscrow_guarded
  · intro hskip
    unfold cancelEscrow
    split
    next => rfl
    next escrow h =>
      have hfinal := hskip escrow h
      simp only [canCancel, decide_eq_false_iff_not, not_not] at hfinal
      simp only [if_pos hfinal]
  · intro escrow h hguard
    simp only [canCancel, decide_eq_true_eq] at hguard
    unfold getEscrow at h
    simp only [cancelEscrow, h, if_neg hguard]

/-- What a sweep makes of an escrow. -/
def swept (currentTimeNs : Int) (escrow : EscrowArtifact) : EscrowArtifact :=
  if escrow.state = .pending ∧ escrow.expiresAtNs ≤ currentTimeNs then { escrow with state := .expired } else escrow

theorem getEscrow_expireOverdue (currentTimeNs : Int) (ids : List String) (hn : ids.Nodup) (expired : List String)
    (m : EscrowManager) (id : String) :
    (expireOverdue currentTimeNs ids (expired, m)).2.getEscrow id =
      if id ∈ ids then (m.getEscrow id).map (swept currentTimeNs) else m.getEscrow id := by
  induction ids generalizing expired m with
  | nil => simp [expireOverdue]
  | cons escrowId rest ih =>
    obtain ⟨hfresh, hrest⟩ := List.nodup_cons.mp hn
    -- whatever this round did to the manager, the rest of the loop leaves its escrow alone
    have hround : ∀ (expired' : List String) (m' : EscrowManager),
        (∀ i, m'.getEscrow i = if i = escrowId then (m.getEscrow escrowId).map (swept currentTimeNs)
          else m.getEscrow i) →
        (expireOverdue currentTimeNs rest (expired', m')).2.getEscrow id =
          if id ∈ escrowId :: rest then (m.getEscrow id).map (swept currentTimeNs) else m.getEscrow id := by
      intro expired' m' hm'
      rw [ih hrest, hm']
      by_cases hid : id = escrowId
      · simp [hid, hfresh]
      · simp [hid]
    unfold expireOverdue
    split
    next h =>
      apply hround
      intro i
      by_cases hi : i = escrowId <;> simp [hi, getEscrow, h]
    next escrow h =>
      split
      next hdue =>
        obtain ⟨hstate, htime⟩ := hdue
        rw [EscrowArtifact.isExpired_iff] at htime
        have hexpired : ∀ i, (m.expireEscrow escrowId).2.getEscrow i =
            if i = escrowId then (m.getEscrow escrowId).map (swept currentTimeNs) else m.getEscrow i := by
          intro i
          rw [getEscrow_expireEscrow]
          rw [getEscrow_advance]
          by_cases hi : i = escrowId <;> simp [hi, getEscrow, h, advanced, canExpire, swept, hstate, htime]
        split
        next m' hm' =>
          apply hround
          intro i
          rw [← hexpired i, hm']
        next m' hm' =>
          apply hround
          intro i
          rw [← hexpired i, hm']
      next hdue =>
        apply hround
        intro i
        rw [EscrowArtifact.isExpired_iff] at hdue
        by_cases hi : i = escrowId
        · simp [hi, getEscrow, h, swept, hdue]
        · simp [hi]

theorem getEscrow_checkExpirations (m : EscrowManager) (nowNs : Int) (currentTimeNs : Option Int) (id : String) :
    (m.checkExpirations nowNs currentTimeNs).2.getEscrow id =
      (m.getEscrow id).map (swept (currentTimeNs.getD nowNs)) := by
  unfold checkExpirations
  have hkeys : m.escrows.keys.Nodup := m.escrows.keysNodup
  rw [getEscrow_expireOverdue _ _ hkeys]
  split
  next => rfl
  next h =>
    have hnone : m.getEscrow id = none := Table.get?_eq_none_iff.mpr h
    simp [hnone]

theorem get?_foldl_erase (ids : List String) (t : Table String EscrowArtifact) (id : String) :
    (ids.foldl Table.erase t).get? id = if id ∈ ids then none else t.get? id := by
  induction ids generalizing t with
  | nil => simp
  | cons i rest ih =>
    rw [List.foldl_cons, ih, Table.get?_erase]
    by_cases hr : id ∈ rest
    · simp [hr]
    · by_cases hi : id = i <;> simp [hr, hi]

theorem getEscrow_cleanupCompleted (m : EscrowManager) (id : String) :
    m.cleanupCompleted.2.getEscrow id = (m.getEscrow id).filter fun escrow => !isCompleted escrow.state := by
  unfold cleanupCompleted
  simp only [getEscrow, get?_foldl_erase]
  cases h : m.escrows.get? id with
  | none => simp
  | some escrow =>
    have hmem : (id ∈ (m.escrows.entries.filter fun e => isCompleted e.2.state).map Prod.fst) ↔
        isCompleted escrow.state = true := by
      simp only [List.mem_map, List.mem_filter]
      constructor
      · rintro ⟨⟨i, other⟩, ⟨hm, hc⟩, rfl⟩
        have hother := Table.get?_eq_some_iff.mpr hm
        rw [h] at hother
        rwa [Option.some.inj hother]
      · exact fun hc => ⟨(id, escrow), ⟨Table.get?_eq_some_iff.mp h, hc⟩, rfl⟩
    by_cases hc : isCompleted escrow.state = true <;> simp [hmem, hc, Option.filter]

end EscrowManager

end AgentNetwork.Sharding
