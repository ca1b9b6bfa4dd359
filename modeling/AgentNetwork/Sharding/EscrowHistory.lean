import AgentNetwork.Sharding.Escrow
import AgentNetwork.Library.Traces
import Mathlib.Data.List.Chain

namespace AgentNetwork.Sharding

open Relational Transition

inductive EscrowCall
  | createEscrow (escrowId artifactHash : String) (dependencies : List Int) (ttlNs : Int)
      (metadata : Option (List (String × Json)))
  | addReadyShard (escrowId : String) (shardId : Int)
  | releaseEscrow (escrowId : String)
  | expireEscrow (escrowId : String)
  | cancelEscrow (escrowId : String)
  | checkExpirations (currentTimeNs : Option Int)
  | cleanupCompleted

namespace EscrowManager

def call (nowNs : Int) (m : EscrowManager) : EscrowCall → EscrowManager
  | .createEscrow escrowId artifactHash dependencies ttlNs metadata =>
    (m.createEscrow escrowId nowNs artifactHash dependencies ttlNs metadata).2
  | .addReadyShard escrowId shardId => (m.addReadyShard escrowId shardId).2
  | .releaseEscrow escrowId => (m.releaseEscrow escrowId).2
  | .expireEscrow escrowId => (m.expireEscrow escrowId).2
  | .cancelEscrow escrowId => (m.cancelEscrow escrowId).2
  | .checkExpirations currentTimeNs => (m.checkExpirations nowNs currentTimeNs).2
  | .cleanupCompleted => m.cleanupCompleted.2

/-- What a call does to the one escrow `id`. -/
def effect (nowNs : Int) (id : String) (old : Option EscrowArtifact) : EscrowCall → Option EscrowArtifact
  | .createEscrow escrowId artifactHash dependencies ttlNs metadata =>
    if id = escrowId then some (newEscrow escrowId nowNs artifactHash dependencies ttlNs metadata) else old
  | .addReadyShard escrowId shardId => if id = escrowId then old.map (signalled shardId) else old
  | .releaseEscrow escrowId => if id = escrowId then old.map (advanced canRelease .released) else old
  | .expireEscrow escrowId => if id = escrowId then old.map (advanced canExpire .expired) else old
  | .cancelEscrow escrowId => if id = escrowId then old.map (advanced canCancel .cancelled) else old
  | .checkExpirations currentTimeNs => old.map (swept (currentTimeNs.getD nowNs))
  | .cleanupCompleted => old.filter fun escrow => !isCompleted escrow.state

theorem getEscrow_call (m : EscrowManager) (nowNs : Int) (c : EscrowCall) (id : String) :
    (m.call nowNs c).getEscrow id = effect nowNs id (m.getEscrow id) c := by
  cases c with
  | createEscrow escrowId artifactHash dependencies ttlNs metadata => exact getEscrow_createEscrow ..
  | addReadyShard escrowId shardId =>
    refine (getEscrow_addReadyShard ..).trans ?_
    by_cases hid : id = escrowId <;> simp [effect, hid]
  | releaseEscrow escrowId =>
    refine (getEscrow_releaseEscrow ..).trans ?_
    by_cases hid : id = escrowId <;> simp [effect, hid]
  | expireEscrow escrowId =>
    refine (getEscrow_expireEscrow ..).trans ?_
    by_cases hid : id = escrowId <;> simp [effect, hid]
  | cancelEscrow escrowId =>
    refine (getEscrow_cancelEscrow ..).trans ?_
    by_cases hid : id = escrowId <;> simp [effect, hid]
  | checkExpirations currentTimeNs => exact getEscrow_checkExpirations ..
  | cleanupCompleted => exact getEscrow_cleanupCompleted ..

end EscrowManager

namespace EscrowState

/-- The edges of the life of an escrow. -/
inductive Edge : EscrowState → EscrowState → Prop
  | ready : Edge .pending .ready
  | released : Edge .ready .released
  | pendingExpired : Edge .pending .expired
  | readyExpired : Edge .ready .expired
  | pendingCancelled : Edge .pending .cancelled
  | readyCancelled : Edge .ready .cancelled

def Follows (s s' : EscrowState) : Prop := s' = s ∨ Edge s s'

theorem Follows.completed {s s' : EscrowState} (h : Follows s s') (hc : EscrowManager.isCompleted s = true) :
    s' = s := by
  rcases h with h | h
  · exact h
  · cases h <;> cases hc

end EscrowState

open EscrowState EscrowManager

/-- What a call that leaves an escrow in place may change of it. -/
structure Advances (id : String) (c : EscrowCall) (escrow escrow' : EscrowArtifact) : Prop where
  artifactHash : escrow'.artifactHash = escrow.artifactHash
  shardDependencies : escrow'.shardDependencies = escrow.shardDependencies
  expiresAtNs : escrow'.expiresAtNs = escrow.expiresAtNs
  follows : Follows escrow.state escrow'.state
  readyShards : ∀ d ∈ escrow'.readyShards, d ∈ escrow.readyShards ∨ c = .addReadyShard id d
  keepsReady : ∀ d ∈ escrow.readyShards, d ∈ escrow'.readyShards
  complete : escrow'.state = .ready → escrow.state = .ready ∨
    (escrow.state = .pending ∧ ∀ d ∈ escrow'.shardDependencies, d ∈ escrow'.readyShards)

theorem Advances.refl (id : String) (c : EscrowCall) (escrow : EscrowArtifact) : Advances id c escrow escrow :=
  ⟨rfl, rfl, rfl, Or.inl rfl, fun _ h => Or.inl h, fun _ h => h, fun h => Or.inl h⟩

theorem advances_state {id : String} {c : EscrowCall} {escrow : EscrowArtifact} {state : EscrowState}
    (hf : Follows escrow.state state) (hn : state ≠ .ready) :
    Advances id c escrow { escrow with state := state } :=
  ⟨rfl, rfl, rfl, hf, fun _ h => Or.inl h, fun _ h => h, fun h => absurd h hn⟩

theorem advances_advanced {id : String} {c : EscrowCall} {guard : EscrowState → Bool} {state : EscrowState}
    (hf : ∀ s, guard s = true → Follows s state) (hn : state ≠ .ready) (escrow : EscrowArtifact) :
    Advances id c escrow (advanced guard state escrow) := by
  unfold advanced
  split
  next h => exact advances_state (hf _ h) hn
  next => exact .refl ..

theorem advances_released {id : String} {c : EscrowCall} (escrow : EscrowArtifact) :
    Advances id c escrow (advanced canRelease .released escrow) := by
  apply advances_advanced _ (by decide)
  intro s hs
  have hready : s = .ready := by simpa [canRelease] using hs
  rw [hready]
  exact Or.inr .released

theorem advances_expired {id : String} {c : EscrowCall} (escrow : EscrowArtifact) :
    Advances id c escrow (advanced canExpire .expired escrow) := by
  apply advances_advanced _ (by decide)
  intro s hs
  have hopen : s = .pending ∨ s = .ready := by simpa [canExpire] using hs
  rcases hopen with rfl | rfl
  · exact Or.inr .pendingExpired
  · exact Or.inr .readyExpired

theorem advances_cancelled {id : String} {c : EscrowCall} (escrow : EscrowArtifact) :
    Advances id c escrow (advanced canCancel .cancelled escrow) := by
  apply advances_advanced _ (by decide)
  intro s hs
  cases s with
  | pending => exact Or.inr .pendingCancelled
  | ready => exact Or.inr .readyCancelled
  | cancelled => exact Or.inl rfl
  | released | expired => cases hs

theorem advances_swept {id : String} {c : EscrowCall} (t : Int) (escrow : EscrowArtifact) :
    Advances id c escrow (swept t escrow) := by
  unfold swept
  split
  next h =>
    refine advances_state ?_ (by decide)
    rw [h.1]
    exact Or.inr .pendingExpired
  next => exact .refl ..

theorem advances_signalled (id : String) (shardId : Int) (escrow : EscrowArtifact) :
    Advances id (.addReadyShard id shardId) escrow (signalled shardId escrow) := by
  unfold signalled
  split
  next => exact .refl ..
  next hstate =>
    have hpending : escrow.state = .pending := not_not.mp hstate
    have hadd : ∀ d ∈ escrow.readyShards.add shardId,
        d ∈ escrow.readyShards ∨ EscrowCall.addReadyShard id shardId = .addReadyShard id d := by
      intro d hd
      rcases ListSet.mem_add.mp hd with rfl | hd
      · exact Or.inr rfl
      · exact Or.inl hd
    have hkeep : ∀ d ∈ escrow.readyShards, d ∈ escrow.readyShards.add shardId :=
      fun d hd => ListSet.mem_add.mpr (Or.inr hd)
    split
    next hall =>
      refine ⟨rfl, rfl, rfl, ?_, hadd, hkeep, fun _ => Or.inr ⟨hpending, hall⟩⟩
      rw [hpending]
      exact Or.inr .ready
    next => exact ⟨rfl, rfl, rfl, Or.inl rfl, hadd, hkeep, fun h => Or.inl h⟩

/-- Every escrow a call leaves behind is the one it created or one it advanced. -/
theorem call_cases {m : EscrowManager} {nowNs : Int} {id : String} {c : EscrowCall} {escrow' : EscrowArtifact}
    (hget : (m.call nowNs c).getEscrow id = some escrow') :
    (∃ artifactHash dependencies ttlNs metadata,
      c = .createEscrow id artifactHash dependencies ttlNs metadata ∧
      escrow' = newEscrow id nowNs artifactHash dependencies ttlNs metadata) ∨
    ∃ escrow, m.getEscrow id = some escrow ∧ Advances id c escrow escrow' := by
  have h : effect nowNs id (m.getEscrow id) c = some escrow' := (getEscrow_call ..).symm.trans hget
  have hkept : ∀ {f : EscrowArtifact → EscrowArtifact} {escrowId : String},
      (∀ escrow, id = escrowId → Advances id c escrow (f escrow)) →
      (if id = escrowId then (m.getEscrow id).map f else m.getEscrow id) = some escrow' →
      ∃ escrow, m.getEscrow id = some escrow ∧ Advances id c escrow escrow' := by
    intro f escrowId hf hkeep
    split at hkeep
    next hid =>
      obtain ⟨escrow, hold, rfl⟩ := Option.map_eq_some_iff.mp hkeep
      exact ⟨escrow, hold, hf escrow hid⟩
    next => exact ⟨escrow', hkeep, .refl ..⟩
  cases c with
  | createEscrow escrowId artifactHash dependencies ttlNs metadata =>
    simp only [effect] at h
    split at h
    next hid =>
      subst hid
      exact Or.inl ⟨artifactHash, dependencies, ttlNs, metadata, rfl, (Option.some.inj h).symm⟩
    next => exact Or.inr ⟨escrow', h, .refl ..⟩
  | addReadyShard escrowId shardId =>
    refine Or.inr (hkept ?_ h)
    rintro escrow rfl
    exact advances_signalled id shardId escrow
  | releaseEscrow escrowId => exact Or.inr (hkept (fun escrow _ => advances_released escrow) h)
  | expireEscrow escrowId => exact Or.inr (hkept (fun escrow _ => advances_expired escrow) h)
  | cancelEscrow escrowId => exact Or.inr (hkept (fun escrow _ => advances_cancelled escrow) h)
  | checkExpirations currentTimeNs =>
    obtain ⟨escrow, hold, rfl⟩ := Option.map_eq_some_iff.mp h
    exact Or.inr ⟨escrow, hold, advances_swept ..⟩
  | cleanupCompleted =>
    obtain ⟨hold, _⟩ := Option.filter_eq_some_iff.mp h
    exact Or.inr ⟨escrow', hold, .refl ..⟩

structure Deposit where
  escrowId : String
  artifactHash : String
  shardDependencies : List Int
  deriving DecidableEq

structure ReadySignal where
  escrowId : String
  shardId : Int
  atNs : Int
  deriving DecidableEq

/-- A manager and what has been asked of it and got from it so far. `overdue` are
the escrows a sweep found past their expiry and not released. -/
structure EscrowHistory where
  manager : EscrowManager
  past : List EscrowManager
  created : List Deposit
  signals : List ReadySignal
  overdue : List String
  returned : List (String × String)
  clock : Int

namespace EscrowHistory

def start (clock : Int) : EscrowHistory := ⟨.init, [], [], [], [], [], clock⟩

def deposits : EscrowCall → List Deposit
  | .createEscrow escrowId artifactHash dependencies _ _ => [⟨escrowId, artifactHash, dependencies⟩]
  | _ => []

/-- A signal counts for an escrow the manager holds. -/
def signalsOf (m : EscrowManager) (nowNs : Int) : EscrowCall → List ReadySignal
  | .addReadyShard escrowId shardId => if (m.getEscrow escrowId).isSome then [⟨escrowId, shardId, nowNs⟩] else []
  | _ => []

def overdueAt (m : EscrowManager) (nowNs : Int) : EscrowCall → List String
  | .checkExpirations currentTimeNs =>
    (m.escrows.entries.filter fun e =>
      e.2.state ≠ .released ∧ e.2.isExpired (currentTimeNs.getD nowNs)).map Prod.fst
  | _ => []

def returnedBy (m : EscrowManager) : EscrowCall → List (String × String)
  | .releaseEscrow escrowId => ((m.releaseEscrow escrowId).1.map fun hash => (escrowId, hash)).toList
  | _ => []

/-- One call, made at a time. -/
def step (h : EscrowHistory) (nowNs : Int) (c : EscrowCall) : EscrowHistory :=
  { manager := h.manager.call nowNs c
    past := h.past ++ [h.manager]
    created := h.created ++ deposits c
    signals := h.signals ++ signalsOf h.manager nowNs c
    overdue := h.overdue ++ overdueAt h.manager nowNs c
    returned := h.returned ++ returnedBy h.manager c
    clock := nowNs }

/-- `uuid4` never draws an identifier again. -/
def Fresh (h : EscrowHistory) (call : Int × EscrowCall) : Prop :=
  ∀ deposit ∈ deposits call.2, ∀ old ∈ h.created, old.escrowId ≠ deposit.escrowId

def Reached (ok : EscrowHistory → Int × EscrowCall → Prop) (clock : Int) : EscrowHistory → Prop :=
  Visits (fun h call h' => h' = h.step call.1 call.2) ok (start clock)

/-- The states of an escrow, one for each manager that held it. -/
def states (h : EscrowHistory) (id : String) : List EscrowState :=
  (h.past ++ [h.manager]).filterMap fun m => (m.getEscrow id).map EscrowArtifact.state

theorem states_step (h : EscrowHistory) (nowNs : Int) (c : EscrowCall) (id : String) :
    (h.step nowNs c).states id =
      h.states id ++ (((h.manager.call nowNs c).getEscrow id).map EscrowArtifact.state).toList := by
  unfold states step
  rw [List.filterMap_append]
  cases h' : (h.manager.call nowNs c).getEscrow id <;> simp [h']

def Known (h : EscrowHistory) (id : String) : Prop := ∃ deposit ∈ h.created, deposit.escrowId = id

/-- What a run keeps of one escrow. -/
structure Sound (h : EscrowHistory) : Prop where
  registered : ∀ id escrow, h.manager.getEscrow id = some escrow →
    ⟨id, escrow.artifactHash, escrow.shardDependencies⟩ ∈ h.created
  complete : ∀ id escrow, h.manager.getEscrow id = some escrow → escrow.state = .ready →
    ∀ d ∈ escrow.shardDependencies, d ∈ escrow.readyShards
  signalled : ∀ id escrow, h.manager.getEscrow id = some escrow → ∀ d ∈ escrow.readyShards,
    ∃ t, ⟨id, d, t⟩ ∈ h.signals
  unseen : ∀ id, ¬h.Known id → h.states id = []
  last : ∀ id escrow, h.manager.getEscrow id = some escrow → (h.states id).getLast? = some escrow.state

theorem Known.step {h : EscrowHistory} {id : String} (hk : h.Known id) (nowNs : Int) (c : EscrowCall) :
    (h.step nowNs c).Known id := by
  obtain ⟨deposit, hm, hid⟩ := hk
  exact ⟨deposit, List.mem_append_left _ hm, hid⟩

theorem signal_recorded {h : EscrowHistory} {id : String} {escrow : EscrowArtifact}
    (hget : h.manager.getEscrow id = some escrow) (nowNs : Int) (d : Int) :
    ⟨id, d, nowNs⟩ ∈ (h.step nowNs (.addReadyShard id d)).signals := by
  apply List.mem_append_right
  simp [signalsOf, hget]

theorem start_sound (clock : Int) : (start clock).Sound := by
  constructor
  · intro id escrow h
    cases h
  · intro id escrow h
    cases h
  · intro id escrow h
    cases h
  · intro id _
    rfl
  · intro id escrow h
    cases h

theorem Sound.step {h : EscrowHistory} (hs : h.Sound) (nowNs : Int) (c : EscrowCall) : (h.step nowNs c).Sound := by
  constructor
  · intro id escrow' hget
    rcases call_cases hget with ⟨_, _, _, _, rfl, rfl⟩ | ⟨escrow, hold, ha⟩
    · exact List.mem_append_right _ (List.mem_singleton.mpr rfl)
    · rw [ha.artifactHash, ha.shardDependencies]
      exact List.mem_append_left _ (hs.registered id escrow hold)
  · intro id escrow' hget hready d hd
    rcases call_cases hget with
      ⟨_, dependencies, _, _, rfl, rfl⟩ | ⟨escrow, hold, ha⟩
    · have hnone : dependencies = [] := by
        by_contra hne
        simp [newEscrow, hne] at hready
      simp [newEscrow, hnone] at hd
    · rcases ha.complete hready with hwas | ⟨_, hall⟩
      · exact ha.keepsReady d (hs.complete id escrow hold hwas d (ha.shardDependencies ▸ hd))
      · exact hall d hd
  · intro id escrow' hget d hd
    rcases call_cases hget with ⟨_, _, _, _, rfl, rfl⟩ | ⟨escrow, hold, ha⟩
    · exact absurd hd (ListSet.not_mem_empty d)
    · rcases ha.readyShards d hd with hwas | rfl
      · obtain ⟨t, ht⟩ := hs.signalled id escrow hold d hwas
        exact ⟨t, List.mem_append_left _ ht⟩
      · exact ⟨nowNs, signal_recorded hold nowNs d⟩
  · intro id hunknown
    have hnone : (h.manager.call nowNs c).getEscrow id = none := by
      rw [Option.eq_none_iff_forall_ne_some]
      intro escrow' hget
      apply hunknown
      rcases call_cases hget with ⟨_, _, _, _, rfl, rfl⟩ | ⟨escrow, hold, _⟩
      · exact ⟨_, List.mem_append_right _ (List.mem_singleton.mpr rfl), rfl⟩
      · exact Known.step ⟨_, hs.registered id escrow hold, rfl⟩ nowNs c
    rw [states_step, hnone, hs.unseen id fun hk => hunknown (hk.step nowNs c)]
    rfl
  · intro id escrow' hget
    have hget' : (h.manager.call nowNs c).getEscrow id = some escrow' := hget
    rw [states_step, hget']
    simp

/-- The states of an escrow form a path that begins PENDING, or READY without dependencies. -/
structure OnPath (h : EscrowHistory) (id : String) : Prop where
  chain : (h.states id).IsChain Follows
  first : ∀ s ∈ (h.states id).head?, s = .pending ∨
    (s = .ready ∧ ∃ deposit ∈ h.created, deposit.escrowId = id ∧ deposit.shardDependencies = [])

theorem OnPath.step {h : EscrowHistory} {id : String} (hp : h.OnPath id) (hs : h.Sound) {nowNs : Int}
    {c : EscrowCall} (hfresh : h.Fresh (nowNs, c)) : (h.step nowNs c).OnPath id := by
  have hmono : ∀ s : EscrowState, (s = .pending ∨ (s = .ready ∧ ∃ deposit ∈ h.created,
      deposit.escrowId = id ∧ deposit.shardDependencies = [])) →
      s = .pending ∨ (s = .ready ∧ ∃ deposit ∈ (h.step nowNs c).created,
        deposit.escrowId = id ∧ deposit.shardDependencies = []) := by
    rintro s (hs | ⟨hs, deposit, hm, hd⟩)
    · exact Or.inl hs
    · exact Or.inr ⟨hs, deposit, List.mem_append_left _ hm, hd⟩
  cases hget : (h.manager.call nowNs c).getEscrow id with
  | none =>
    have hsame : (h.step nowNs c).states id = h.states id := by
      rw [states_step, hget]
      exact List.append_nil _
    constructor
    · rw [hsame]
      exact hp.chain
    · rw [hsame]
      exact fun s hs => hmono s (hp.first s hs)
  | some escrow' =>
    have hstates : (h.step nowNs c).states id = h.states id ++ [escrow'.state] := by
      rw [states_step, hget]
      rfl
    rcases call_cases hget with
      ⟨artifactHash, dependencies, ttlNs, metadata, rfl, rfl⟩ | ⟨escrow, hold, ha⟩
    · -- a fresh identifier: nothing has been seen under it
      have hunknown : ¬h.Known id := by
        rintro ⟨deposit, hm, hid⟩
        exact hfresh _ (List.mem_singleton.mpr rfl) deposit hm hid
      rw [hs.unseen id hunknown, List.nil_append] at hstates
      constructor
      · rw [hstates]
        exact List.isChain_singleton _
      · rw [hstates]
        intro s hs
        cases hs
        by_cases hnone : dependencies = []
        · refine Or.inr ⟨by simp [newEscrow, hnone], ⟨id, artifactHash, dependencies⟩, ?_, rfl, hnone⟩
          exact List.mem_append_right _ (List.mem_singleton.mpr rfl)
        · exact Or.inl (by simp [newEscrow, hnone])
    · have hlast := hs.last id escrow hold
      constructor
      · rw [hstates, List.isChain_append]
        refine ⟨hp.chain, List.isChain_singleton _, ?_⟩
        intro x hx y hy
        rw [hlast] at hx
        cases hx
        cases hy
        exact ha.follows
      · rw [hstates]
        intro s hs
        cases hl : h.states id with
        | nil => simp [hl] at hlast
        | cons head rest =>
          rw [hl] at hs
          cases hs
          exact hmono s (hp.first s (by simp [hl]))

/-- What has been returned stays accounted for. -/
structure Settled (h : EscrowHistory) : Prop where
  once : (h.returned.map Prod.fst).Nodup
  gone : ∀ id hash, (id, hash) ∈ h.returned → h.Known id ∧
    ∀ escrow, h.manager.getEscrow id = some escrow → escrow.state = .released
  earned : ∀ id hash, (id, hash) ∈ h.returned → ∃ deposit ∈ h.created, deposit.escrowId = id ∧
    deposit.artifactHash = hash ∧ ∀ d ∈ deposit.shardDependencies, ∃ t, ⟨id, d, t⟩ ∈ h.signals

theorem mem_returnedBy {m : EscrowManager} {c : EscrowCall} {id hash : String}
    (h : (id, hash) ∈ returnedBy m c) : c = .releaseEscrow id ∧
      ∃ escrow, m.getEscrow id = some escrow ∧ escrow.state = .ready ∧ escrow.artifactHash = hash := by
  cases c with
  | releaseEscrow escrowId =>
    simp only [returnedBy, Option.mem_toList, Option.map_eq_some_iff, Prod.mk.injEq] at h
    obtain ⟨hash', hrelease, rfl, rfl⟩ := h
    exact ⟨rfl, (releaseEscrow_fst m escrowId).mp hrelease⟩
  | createEscrow | addReadyShard | expireEscrow | cancelEscrow | checkExpirations | cleanupCompleted => cases h

theorem returnedBy_once (m : EscrowManager) (c : EscrowCall) : ((returnedBy m c).map Prod.fst).Nodup := by
  cases c with
  | releaseEscrow escrowId =>
    cases h : (m.releaseEscrow escrowId).1 <;> simp [returnedBy, h]
  | createEscrow | addReadyShard | expireEscrow | cancelEscrow | checkExpirations | cleanupCompleted =>
    exact List.nodup_nil

theorem start_settled (clock : Int) : (start clock).Settled := by
  constructor
  · exact List.nodup_nil
  · intro id hash h
    cases h
  · intro id hash h
    cases h

theorem Settled.step {h : EscrowHistory} (ht : h.Settled) (hs : h.Sound) {nowNs : Int} {c : EscrowCall}
    (hfresh : h.Fresh (nowNs, c)) : (h.step nowNs c).Settled := by
  constructor
  · have happ : (h.step nowNs c).returned.map Prod.fst =
        h.returned.map Prod.fst ++ (returnedBy h.manager c).map Prod.fst := List.map_append
    rw [happ, List.nodup_append]
    refine ⟨ht.once, returnedBy_once h.manager c, ?_⟩
    rintro id hid _ hnew rfl
    obtain ⟨⟨_, hash⟩, hm, rfl⟩ := List.mem_map.mp hid
    obtain ⟨⟨_, hash'⟩, hm', rfl⟩ := List.mem_map.mp hnew
    obtain ⟨_, escrow, hget, hready, _⟩ := mem_returnedBy hm'
    have hreleased := (ht.gone _ hash hm).2 escrow hget
    rw [hready] at hreleased
    cases hreleased
  · intro id hash hm
    rcases List.mem_append.mp hm with hm | hm
    · obtain ⟨hknown, hgone⟩ := ht.gone id hash hm
      refine ⟨hknown.step nowNs c, fun escrow' hget => ?_⟩
      rcases call_cases hget with ⟨_, _, _, _, rfl, _⟩ | ⟨escrow, hold, ha⟩
      · obtain ⟨deposit, hd, hid⟩ := hknown
        exact absurd hid (hfresh _ (List.mem_singleton.mpr rfl) deposit hd)
      · have hreleased := hgone escrow hold
        rw [ha.follows.completed (by rw [hreleased]; rfl), hreleased]
    · obtain ⟨rfl, escrow, hget, hready, _⟩ := mem_returnedBy hm
      refine ⟨Known.step ⟨_, hs.registered id escrow hget, rfl⟩ _ _, fun escrow' hget' => ?_⟩
      have heffect := (getEscrow_call ..).symm.trans hget'
      simp only [effect, hget, if_true, Option.map_some, Option.some.injEq] at heffect
      rw [← heffect]
      simp [advanced, canRelease, hready]
  · intro id hash hm
    rcases List.mem_append.mp hm with hm | hm
    · obtain ⟨deposit, hd, hid, hhash, hall⟩ := ht.earned id hash hm
      refine ⟨deposit, List.mem_append_left _ hd, hid, hhash, fun d hdep => ?_⟩
      obtain ⟨t, hsig⟩ := hall d hdep
      exact ⟨t, List.mem_append_left _ hsig⟩
    · obtain ⟨rfl, escrow, hget, hready, rfl⟩ := mem_returnedBy hm
      refine ⟨_, List.mem_append_left _ (hs.registered id escrow hget), rfl, rfl, fun d hdep => ?_⟩
      obtain ⟨t, hsig⟩ := hs.signalled id escrow hget d (hs.complete id escrow hget hready d hdep)
      exact ⟨t, List.mem_append_left _ hsig⟩

theorem Reached.sound {ok : EscrowHistory → Int × EscrowCall → Prop} {clock : Int} {h : EscrowHistory}
    (hrun : Reached ok clock h) : h.Sound := by
  apply Visits.invariant hrun (start_sound clock)
  rintro s call _ hs _ rfl
  exact hs.step call.1 call.2

theorem Reached.onPath {clock : Int} {h : EscrowHistory} (hrun : Reached Fresh clock h) (id : String) :
    h.Sound ∧ h.OnPath id := by
  apply Visits.invariant (I := fun h : EscrowHistory => h.Sound ∧ h.OnPath id) hrun
  · refine ⟨start_sound clock, ?_⟩
    constructor
    · exact .nil
    · intro s hs
      cases hs
  · rintro s call _ ⟨hs, hp⟩ hfresh rfl
    exact ⟨hs.step call.1 call.2, hp.step hs hfresh⟩

theorem Reached.settled {clock : Int} {h : EscrowHistory} (hrun : Reached Fresh clock h) : h.Settled := by
  have hboth : h.Sound ∧ h.Settled := by
    apply Visits.invariant (I := fun h : EscrowHistory => h.Sound ∧ h.Settled) hrun
    · exact ⟨start_sound clock, start_settled clock⟩
    · rintro s call _ ⟨hs, ht⟩ hfresh rfl
      exact ⟨hs.step call.1 call.2, ht.step hs hfresh⟩
  exact hboth.2

/-- The life of every escrow is a path, and its artifact is returned at most once
and complete. -/
theorem escrow_released_once {clock : Int} {h : EscrowHistory} (hrun : Reached Fresh clock h) :
    (∀ id, h.OnPath id) ∧ (h.returned.map Prod.fst).Nodup ∧
    ∀ id hash, (id, hash) ∈ h.returned → ∃ deposit ∈ h.created, deposit.escrowId = id ∧
      deposit.artifactHash = hash ∧ ∀ d ∈ deposit.shardDependencies, ∃ t, ⟨id, d, t⟩ ∈ h.signals :=
  ⟨fun id => (hrun.onPath id).2, hrun.settled.once, hrun.settled.earned⟩

/-- One artifact for shard 1, signalled and released. -/
def releasedInTime : EscrowHistory :=
  (((start 0).step 0 (.createEscrow "e" "artifact" [1] 10 none)).step 3 (.addReadyShard "e" 1)).step 5 (.releaseEscrow "e")

theorem escrow_released_once_in_time : Reached Fresh 0 releasedInTime ∧ (releasedInTime.returned.map Prod.fst).Nodup ∧
    releasedInTime.returned = [("e", "artifact")] ∧ releasedInTime.states "e" = [.pending, .ready, .released] := by
  have hcreate : (start 0).Fresh (0, .createEscrow "e" "artifact" [1] 10 none) := by
    intro deposit _ old hold
    cases hold
  have hsignal : ∀ h : EscrowHistory, h.Fresh (3, .addReadyShard "e" 1) := by
    intro h deposit hd
    cases hd
  have hrelease : ∀ h : EscrowHistory, h.Fresh (5, .releaseEscrow "e") := by
    intro h deposit hd
    cases hd
  have hrun : Reached Fresh 0 releasedInTime :=
    .next (.next (.next .start hcreate rfl) (hsignal _) rfl) (hrelease _) rfl
  exact ⟨hrun, (escrow_released_once hrun).2.1, by decide +kernel, by decide +kernel⟩

end EscrowHistory

end AgentNetwork.Sharding
