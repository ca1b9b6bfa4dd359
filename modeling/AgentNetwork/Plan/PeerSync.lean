import AgentNetwork.Library.PythonText
import AgentNetwork.Plan.Convergence
import AgentNetwork.Plan.StoreViews

/-! `SyncManager`: stores that exchange their documents with their peers. -/

namespace AgentNetwork.Plan.PeerSync

open Relational StableSort Transition PlanOp StoreViews

inductive SyncState
  | idle
  | syncing
  | error
  deriving DecidableEq

def SyncState.value : SyncState → String
  | .idle => "idle"
  | .syncing => "syncing"
  | .error => "error"

/-- Track synchronization state for a peer. -/
structure PeerState where
  peerId : String
  address : String
  lastSyncNs : Int
  syncState : SyncState
  opsSynced : Int
  lastError : Option String
  deriving DecidableEq

/-- What a callback gives: bytes that are read as a document, none, bytes that are no
document, or an exception. -/
inductive PeerData
  | document (doc : CRDTDocument)
  | empty
  | unreadable (error : String)
  | raised (error : String)

/-- `str(e)`; a missing key is shown as a literal. -/
def errorText (isPrintable : Char → Bool) : PlanError → String
  | .keyError key => String.ofList (Python.reprString isPrintable key)
  | .valueError message => message
  | .typeError message => message

structure SyncManager (χ : Type) where
  store : ViewedStore
  localPeerId : String
  peers : Table String PeerState
  syncCallbacks : Table String χ

namespace SyncManager

variable {χ : Type}

def init (localPeerId : String) : SyncManager χ := ⟨.init, localPeerId, .empty, .empty⟩

/-- `register_peer`: of a peer that is known only the address changes. -/
def registerPeer (peerId address : String) (syncCallback : Option χ) (m : SyncManager χ) : SyncManager χ :=
  if peerId = m.localPeerId then m
  else match m.peers.get? peerId with
    | none =>
      let peers := m.peers.upsert peerId ⟨peerId, address, 0, .idle, 0, none⟩
      match syncCallback with
      | some callback => { m with peers := peers, syncCallbacks := m.syncCallbacks.upsert peerId callback }
      | none => { m with peers := peers }
    | some peer => { m with peers := m.peers.upsert peerId { peer with address := address } }

/-- `unregister_peer`. -/
def unregisterPeer (peerId : String) (m : SyncManager χ) : SyncManager χ :=
  if m.peers.contains peerId then { m with peers := m.peers.erase peerId, syncCallbacks := m.syncCallbacks.erase peerId }
  else m

/-- The sync has failed: the state of the peer says why. -/
def failed (peerId error : String) (peer : PeerState) (m : SyncManager χ) : SyncManager χ :=
  { m with peers := m.peers.upsert peerId { peer with syncState := .error, lastError := some error } }

/-- `sync_with_peer`; `ask` is the call of a callback. -/
def syncWithPeer (isPrintable : Char → Bool) (ask : χ → String → PeerData) (timeNs : Int) (peerId : String)
    (m : SyncManager χ) : Bool × SyncManager χ :=
  match m.peers.get? peerId with
  | none => (false, m)
  | some peer =>
    match m.syncCallbacks.get? peerId with
    | none => (false, m.failed peerId "No sync callback configured" peer)
    | some callback =>
      match ask callback peerId with
      | .raised error => (false, m.failed peerId error peer)
      | .unreadable error => (false, m.failed peerId error peer)
      | .empty => (false, m.failed peerId "Empty peer data" peer)
      | .document doc =>
        let opsBefore := m.store.store.doc.ops.length
        match m.store.mergeWithPeer doc with
        | (.error e, store) => (false, { m with store := store }.failed peerId (errorText isPrintable e) peer)
        | (.ok _, store) =>
          let opsAfter := store.store.doc.ops.length
          let synced : PeerState := { peer with
            lastSyncNs := timeNs, opsSynced := peer.opsSynced + ((opsAfter : Int) - opsBefore), syncState := .idle, lastError := none }
          (true, { m with store := store, peers := m.peers.upsert peerId synced })

/-- `incremental_sync`: the document to send back, if nothing is raised. -/
def incrementalSync (peerChanges : PeerData) (timeNs : Int) (peerId : String) (m : SyncManager χ) :
    Option CRDTDocument × SyncManager χ :=
  match m.peers.get? peerId with
  | none => (none, m)
  | some peer =>
    let synced (store : ViewedStore) : Option CRDTDocument × SyncManager χ :=
      (some (savedData store.store), { m with store := store, peers := m.peers.upsert peerId { peer with lastSyncNs := timeNs } })
    match peerChanges with
    | .empty => synced m.store
    | .unreadable _ | .raised _ => (none, m)
    | .document doc =>
      match m.store.mergeWithPeer doc with
      | (.error _, store) => (none, { m with store := store })
      | (.ok _, store) => synced store

/-- The loop of `sync_all_peers`, with the time of each sync. -/
def syncEach (isPrintable : Char → Bool) (ask : χ → String → PeerData) (timeNs : String → Int) :
    List String → SyncManager χ → List (String × Bool) × SyncManager χ
  | [], m => ([], m)
  | peerId :: rest, m =>
    let (success, m) := m.syncWithPeer isPrintable ask (timeNs peerId) peerId
    let (results, m) := syncEach isPrintable ask timeNs rest m
    ((peerId, success) :: results, m)

/-- `sync_all_peers`. -/
def syncAllPeers (isPrintable : Char → Bool) (ask : χ → String → PeerData) (timeNs : String → Int) (m : SyncManager χ) :
    List (String × Bool) × SyncManager χ :=
  syncEach isPrintable ask timeNs m.peers.keys m

/-- The numbers of `get_sync_status`: operations, tasks, peers, and of these the syncing and the failed ones. -/
def getSyncStatus (m : SyncManager χ) : Nat × Nat × Nat × Nat × Nat :=
  let inState (s : SyncState) := (m.peers.entries.filter fun e => e.2.syncState = s).length
  (m.store.store.doc.ops.length, m.store.store.doc.tasks.entries.length, m.peers.entries.length, inState .syncing, inState .error)

end SyncManager

section Merging

variable {ops : PlanOp → Prop} {w : ViewedStore} {op : PlanOp}

/-- The operations that the nodes write: the id names the operation, the keys that are
read are there, and a state can be a key of a view. -/
structure Writable (ops : PlanOp → Prop) : Prop where
  named : ∀ x y, ops x → ops y → x.opId = y.opId → x = y
  wellFormed : ∀ op, ops op → op.WellFormed
  state : ∀ op, ops op → ∀ state, op.payload.get? "state" = some state → state.hashable = true

/-- A store whose log has only such operations, and shows them. -/
structure Sound (ops : PlanOp → Prop) (w : ViewedStore) : Prop where
  holds : Holds (logOf w.store) w.store
  shows : Shows (logOf w.store) w.store.doc
  written : ∀ op ∈ logOf w.store, ops op

theorem sound_init : Sound ops .init := ⟨holds_init, shows_nil AutomergePlanStore.init.doc, List.forall_mem_nil _⟩

theorem Sound.of_log {log : List PlanOp} (hholds : Holds log w.store) (hshows : Shows log w.store.doc)
    (hwritten : ∀ op ∈ log, ops op) : Sound ops w := by
  have hlog := hholds.logOf_eq
  exact ⟨hlog ▸ hholds, hlog ▸ hshows, hlog ▸ hwritten⟩

theorem state_of_foldl {t : String} {l : List PlanOp} {task : Task} (h : l.foldl (taskStep t) none = some task) :
    ∃ op ∈ l, task.state = op.stateValue := by
  induction l using List.reverseRecOn generalizing task with
  | nil => cases h
  | append_singleton l op ih =>
    rw [List.foldl_append] at h
    change taskStep t (l.foldl (taskStep t) none) op = some task at h
    cases hbefore : l.foldl (taskStep t) none with
    | none =>
      rw [hbefore, taskStep] at h
      split at h
      · cases h
        exact ⟨op, by simp, rfl⟩
      · cases h
    | some old =>
      rw [hbefore, taskStep] at h
      split at h
      · cases h
        exact ⟨op, by simp, rfl⟩
      · cases h
        obtain ⟨x, hx, hstate⟩ := ih hbefore
        exact ⟨x, List.mem_append_left _ hx, hstate⟩

theorem hashable_stateValue (hops : Writable ops) (hop : ops op) : op.stateValue.hashable = true := by
  unfold stateValue
  split
  · rfl
  · cases hstate : op.payload.get? "state" with
    | none => rfl
    | some state => exact hops.state op hop state hstate

/-- The views of such a document can be built. -/
theorem indexable_of_shows (hops : Writable ops) {log : List PlanOp} {doc : CRDTDocument} (h : Shows log doc)
    (hlog : ∀ op ∈ log, ops op) : Indexable doc := by
  refine ⟨fun entry hentry => ?_, fun entry hentry child hchild => ?_⟩
  · have hget : doc.tasks.get? entry.1 = some entry.2 := Table.get?_eq_some_iff.mpr hentry
    rw [h.tasks] at hget
    obtain ⟨op, hop, hstate⟩ := state_of_foldl hget
    rw [hstate]
    exact hashable_stateValue hops (hlog op hop)
  · have hedge : doc.HasEdge entry.1 child := by
      have hget : doc.edges.get? entry.1 = some entry.2 := Table.get?_eq_some_iff.mpr hentry
      rw [CRDTDocument.HasEdge, hget]
      exact hchild
    obtain ⟨op, hop, htype, -, hlink⟩ := (h.edges entry.1 child).mp hedge
    obtain ⟨p, c, -, hc⟩ := (hops.wellFormed op (hlog op hop)).link htype
    cases Option.some.inj (hc.symm.trans hlink)
    rfl

theorem updateViews_ok (h : Indexable w.store.doc) : ∃ w', w.updateViews = (.ok (), w') ∧ w'.store = w.store := by
  obtain ⟨fresh, hfresh⟩ := init_ok_iff.mpr h
  obtain ⟨task, htask, hrest⟩ := Transactional.except_bind_ok.mp hfresh
  obtain ⟨graph, hgraph, -⟩ := Transactional.except_bind_ok.mp hrest
  refine ⟨⟨w.store, .current, task.byState, task.byThread, .current, graph.reverseEdges⟩, ?_, rfl⟩
  rw [ViewedStore.updateViews, htask]
  dsimp only
  rw [hgraph]

/-- A merge that the store makes is made under its views. -/
theorem mergeWithPeer_ok {doc : CRDTDocument} {store : AutomergePlanStore}
    (h : AutomergePlanStore.mergeWithPeer doc w.store = (.ok (), store)) (hindex : Indexable store.doc) :
    ∃ w', w.mergeWithPeer doc = (.ok (), w') ∧ w'.store = store := by
  unfold AutomergePlanStore.mergeWithPeer at h
  dsimp only at h
  split at h
  next => cases h
  next hids =>
    split at h
    next => cases h
    next sorted hsort =>
      split at h
      next => cases h
      next rebuilt hrebuild =>
        obtain ⟨-, rfl⟩ := Prod.mk.inj h
        let opIds := w.store.opIds ++ (AutomergePlanStore.newOps w.store.opIds doc.ops).map fun d => d.opId.getD ""
        obtain ⟨w', hviews, hstore⟩ := updateViews_ok (w := w.replace ⟨rebuilt, opIds⟩) ⟨hindex.states, hindex.children⟩
        have hdoc : w'.store.doc = rebuilt := by
          rw [hstore]
          rfl
        refine ⟨{ w' with store := ⟨{ w'.store.doc with version := w'.store.doc.version + 1 }, opIds⟩ }, ?_, ?_⟩
        · unfold ViewedStore.mergeWithPeer
          dsimp only
          rw [hids, hsort]
          dsimp only
          rw [hrebuild]
          dsimp only
          rw [hviews]
        · dsimp only
          rw [hdoc]

theorem Sound.merge (hops : Writable ops) (h : Sound ops w) {doc : CRDTDocument} {peerLog : List PlanOp}
    (hdoc : doc.ops = peerLog.map toDict) (hpeer : ∀ op ∈ peerLog, ops op) :
    ∃ w', w.mergeWithPeer doc = (.ok (), w') ∧ Sound ops w' ∧
      (∀ op, op ∈ logOf w'.store ↔ op ∈ logOf w.store ∨ op ∈ peerLog) ∧
      (logOf w'.store).Pairwise (fun x y => x.lamport ≤ y.lamport) := by
  obtain ⟨store, hmerge, hholds, hshows⟩ := h.holds.merge hdoc fun op hop => hops.wellFormed op (hpeer op hop)
  have hmem : ∀ op, op ∈ sortOn PlanOp.lamport (union (logOf w.store) peerLog) ↔ op ∈ logOf w.store ∨ op ∈ peerLog := by
    intro op
    rw [mem_sortOn, mem_union]
    constructor
    · rintro (hown | ⟨htheirs, -⟩)
      · exact .inl hown
      · exact .inr htheirs
    · rintro (hown | htheirs)
      · exact .inl hown
      · by_cases hown : op ∈ logOf w.store
        · exact .inl hown
        · refine .inr ⟨htheirs, fun x hx heq => hown ?_⟩
          rwa [← hops.named x op (h.written x hx) (hpeer op htheirs) heq]
  have hwritten : ∀ op ∈ sortOn PlanOp.lamport (union (logOf w.store) peerLog), ops op := by
    intro op hop
    rcases (hmem op).mp hop with hown | htheirs
    · exact h.written op hown
    · exact hpeer op htheirs
  obtain ⟨w', hviewed, rfl⟩ := mergeWithPeer_ok hmerge (indexable_of_shows hops hshows hwritten)
  refine ⟨w', hviewed, .of_log hholds hshows hwritten, ?_, ?_⟩
  · rw [hholds.logOf_eq]
    exact hmem
  · rw [hholds.logOf_eq]
    exact pairwise_sortOn _ _

theorem Sound.append (hops : Writable ops) (h : Sound ops w) (hop : ops op) :
    ∃ w', w.appendOp op = (.ok (), w') ∧ Sound ops w' ∧ ∀ x, x ∈ logOf w'.store ↔ x ∈ logOf w.store ∨ x = op := by
  obtain ⟨store, happend, hholds, hshows⟩ := h.holds.append h.shows (hops.wellFormed op hop)
  have hmem : ∀ x, x ∈ union (logOf w.store) [op] ↔ x ∈ logOf w.store ∨ x = op := by
    intro x
    rw [mem_union, List.mem_singleton]
    constructor
    · rintro (hown | ⟨hnew, -⟩)
      · exact .inl hown
      · exact .inr hnew
    · rintro (hown | rfl)
      · exact .inl hown
      · by_cases hown : x ∈ logOf w.store
        · exact .inl hown
        · refine .inr ⟨rfl, fun y hy heq => hown ?_⟩
          rwa [← hops.named y x (h.written y hy) hop heq]
  have hwritten : ∀ x ∈ union (logOf w.store) [op], ops x := by
    intro x hx
    rcases (hmem x).mp hx with hown | rfl
    · exact h.written x hown
    · exact hop
  have hresult : ∃ w', w.appendOp op = (.ok (), w') ∧ w'.store = store := by
    unfold ViewedStore.appendOp
    by_cases hknown : op.opId ∈ w.store.opIds
    · rw [AutomergePlanStore.appendOp, if_pos hknown] at happend
      rw [if_pos hknown]
      exact ⟨w, rfl, (Prod.mk.inj happend).2⟩
    · rw [if_neg hknown, happend]
      exact updateViews_ok (w := { w with store := store }) (indexable_of_shows hops hshows hwritten)
  obtain ⟨w', happended, rfl⟩ := hresult
  refine ⟨w', happended, .of_log hholds hshows hwritten, ?_⟩
  rw [hholds.logOf_eq]
  exact hmem

end Merging

/-- The bytes are a document that holds such operations only. -/
def Valid (ops : PlanOp → Prop) (doc : CRDTDocument) : Prop := ∃ log : List PlanOp, doc.ops = log.map toDict ∧ ∀ op ∈ log, ops op

theorem mem_ops_iff {doc : CRDTDocument} {log : List PlanOp} (h : doc.ops = log.map toDict) {op : PlanOp} :
    op.toDict ∈ doc.ops ↔ op ∈ log := by
  rw [h, List.mem_map]
  constructor
  · rintro ⟨x, hx, heq⟩
    have hsame : (Except.ok x : Except PlanError PlanOp) = .ok op := by rw [← toOp_toDict, ← toOp_toDict, heq]
    rwa [← Except.ok.inj hsame]
  · exact fun hop => ⟨op, hop, rfl⟩

section Learning

variable {ops : PlanOp → Prop}

/-- What a call makes of the store, given the documents that it merges. -/
structure Learns (ops : PlanOp → Prop) (merged : CRDTDocument → Prop) (w w' : ViewedStore) : Prop where
  sound : Sound ops w'
  log : ∀ op, op ∈ logOf w'.store ↔ op ∈ logOf w.store ∨ ∃ doc, merged doc ∧ op.toDict ∈ doc.ops
  sorted : (logOf w.store).Pairwise (fun x y => x.lamport ≤ y.lamport) ∨ (∃ doc, merged doc) →
    (logOf w'.store).Pairwise fun x y => x.lamport ≤ y.lamport

theorem Learns.nothing {w : ViewedStore} (h : Sound ops w) {merged : CRDTDocument → Prop} (hnone : ∀ doc, ¬merged doc) :
    Learns ops merged w w where
  sound := h
  log op := by simp [hnone]
  sorted hsorted := hsorted.resolve_right fun ⟨doc, hdoc⟩ => hnone doc hdoc

theorem Learns.merge {w : ViewedStore} (hops : Writable ops) (h : Sound ops w) {doc : CRDTDocument} (hvalid : Valid ops doc) :
    ∃ w', w.mergeWithPeer doc = (.ok (), w') ∧ Learns ops (· = doc) w w' := by
  obtain ⟨log, hlog, hwritten⟩ := hvalid
  obtain ⟨w', hmerge, hsound, hmem, hsorted⟩ := h.merge hops hlog hwritten
  refine ⟨w', hmerge, hsound, fun op => ?_, fun _ => hsorted⟩
  rw [hmem, exists_eq_left, mem_ops_iff hlog]

theorem Learns.trans {w w' w'' : ViewedStore} {first second : CRDTDocument → Prop} (h : Learns ops first w w')
    (h' : Learns ops second w' w'') : Learns ops (fun doc => first doc ∨ second doc) w w'' where
  sound := h'.sound
  log op := by
    rw [h'.log, h.log]
    constructor
    · rintro ((hown | ⟨doc, hdoc, hop⟩) | ⟨doc, hdoc, hop⟩)
      · exact .inl hown
      · exact .inr ⟨doc, .inl hdoc, hop⟩
      · exact .inr ⟨doc, .inr hdoc, hop⟩
    · rintro (hown | ⟨doc, hdoc | hdoc, hop⟩)
      · exact .inl (.inl hown)
      · exact .inl (.inr ⟨doc, hdoc, hop⟩)
      · exact .inr ⟨doc, hdoc, hop⟩
  sorted := by
    rintro (hsorted | ⟨doc, hdoc | hdoc⟩)
    · exact h'.sorted (.inl (h.sorted (.inl hsorted)))
    · exact h'.sorted (.inl (h.sorted (.inr ⟨doc, hdoc⟩)))
    · exact h'.sorted (.inr ⟨doc, hdoc⟩)

theorem Learns.congr {w w' : ViewedStore} {merged merged' : CRDTDocument → Prop} (h : Learns ops merged w w')
    (hsame : ∀ doc, merged doc ↔ merged' doc) : Learns ops merged' w w' := by
  rwa [show merged' = merged from funext fun doc => propext (hsame doc).symm]

end Learning

namespace SyncManager

section Sync

variable {χ : Type} {isPrintable : Char → Bool} {ask : χ → String → PeerData} {ops : PlanOp → Prop} {m : SyncManager χ}

/-- A peer that is registered, and whose callback gives the document. -/
def Given (ask : χ → String → PeerData) (m : SyncManager χ) (peerId : String) (doc : CRDTDocument) : Prop :=
  m.peers.contains peerId = true ∧ ∃ callback, m.syncCallbacks.get? peerId = some callback ∧ ask callback peerId = .document doc

def totalSynced (m : SyncManager χ) : Int := m.peers.total fun _ peer => peer.opsSynced

/-- One sync: it succeeds when the peer gives a document, and counts what is new. -/
structure Syncs (ops : PlanOp → Prop) (ask : χ → String → PeerData) (peerId : String) (success : Bool) (m m' : SyncManager χ) :
    Prop where
  succeeds : success = true ↔ ∃ doc, Given ask m peerId doc
  learns : Learns ops (Given ask m peerId) m.store m'.store
  keys : m'.peers.keys = m.peers.keys
  syncCallbacks : m'.syncCallbacks = m.syncCallbacks
  others : ∀ other, other ≠ peerId → m'.peers.get? other = m.peers.get? other
  state : ∀ peer, m'.peers.get? peerId = some peer → (success = true → peer.syncState = .idle ∧ peer.lastError = none) ∧
    (success = false → peer.syncState = .error ∧ peer.lastError ≠ none)
  total : m'.totalSynced - m.totalSynced = (m'.store.store.doc.ops.length : Int) - m.store.store.doc.ops.length

theorem totalSynced_upsert {peerId : String} {peer : PeerState} (h : m.peers.get? peerId = some peer) (peer' : PeerState) :
    (m.peers.upsert peerId peer').total (fun _ peer => peer.opsSynced) - m.totalSynced = peer'.opsSynced - peer.opsSynced := by
  have htotal := Table.total_upsert m.peers peerId peer' fun _ peer => peer.opsSynced
  rw [h, Option.map_some, Option.getD_some] at htotal
  unfold totalSynced
  omega

theorem keys_upsert_known {peerId : String} {peer : PeerState} (h : m.peers.get? peerId = some peer) (peer' : PeerState) :
    (m.peers.upsert peerId peer').keys = m.peers.keys := by
  rw [Table.keys_upsert, if_pos (Table.mem_keys_iff.mpr ⟨peer, h⟩)]

theorem failed_syncs (h : Sound ops m.store) {peerId error : String} {peer : PeerState} (hpeer : m.peers.get? peerId = some peer)
    (hnone : ∀ doc, ¬Given ask m peerId doc) : Syncs ops ask peerId false m (m.failed peerId error peer) where
  succeeds := by simp [hnone]
  learns := .nothing h hnone
  keys := keys_upsert_known hpeer _
  syncCallbacks := rfl
  others other hne := by rw [failed, Table.get?_upsert, if_neg hne]
  state peer' hget := by
    rw [failed, Table.get?_upsert, if_pos rfl] at hget
    cases hget
    exact ⟨nofun, fun _ => ⟨rfl, nofun⟩⟩
  total := by
    have htotal := totalSynced_upsert hpeer { peer with syncState := .error, lastError := some error }
    dsimp only at htotal
    change (m.peers.upsert peerId _).total _ - m.totalSynced = (m.store.store.doc.ops.length : Int) - m.store.store.doc.ops.length
    rw [htotal, sub_self, sub_self]

theorem syncWithPeer_syncs (hops : Writable ops) (h : Sound ops m.store)
    (hvalid : ∀ callback peerId doc, ask callback peerId = .document doc → Valid ops doc) (timeNs : Int) (peerId : String) :
    Syncs ops ask peerId (m.syncWithPeer isPrintable ask timeNs peerId).1 m (m.syncWithPeer isPrintable ask timeNs peerId).2 := by
  unfold syncWithPeer
  cases hpeer : m.peers.get? peerId with
  | none =>
    have hnone : ∀ doc, ¬Given ask m peerId doc := by
      rintro doc ⟨hknown, -⟩
      rw [Table.contains_eq_false_iff.mpr hpeer] at hknown
      cases hknown
    exact ⟨by simp [hnone], .nothing h hnone, rfl, rfl, fun _ _ => rfl, fun peer hget => (by rw [hpeer] at hget; cases hget), by simp⟩
  | some peer =>
    have hknown : m.peers.contains peerId = true := Table.contains_eq_true_iff.mpr ⟨peer, hpeer⟩
    dsimp only
    cases hcallback : m.syncCallbacks.get? peerId with
    | none =>
      refine failed_syncs h hpeer ?_
      rintro doc ⟨-, callback, hfound, -⟩
      rw [hcallback] at hfound
      cases hfound
    | some callback =>
      have hgiven : ∀ doc, Given ask m peerId doc ↔ ask callback peerId = .document doc := by
        intro doc
        constructor
        · rintro ⟨-, callback', hfound, hask⟩
          cases Option.some.inj (hcallback.symm.trans hfound)
          exact hask
        · exact fun hask => ⟨hknown, callback, hcallback, hask⟩
      dsimp only
      cases hask : ask callback peerId with
      | raised error | unreadable error | empty => exact failed_syncs h hpeer fun doc => by rw [hgiven, hask]; nofun
      | document doc =>
        obtain ⟨w', hmerge, hlearns⟩ := Learns.merge hops h (hvalid callback peerId doc hask)
        have hdoc : ∀ doc', doc' = doc ↔ Given ask m peerId doc' := by
          intro doc'
          rw [hgiven, hask, PeerData.document.injEq, eq_comm]
        dsimp only
        rw [hmerge]
        dsimp only
        refine ⟨?_, hlearns.congr hdoc, keys_upsert_known hpeer _, rfl, fun other hne => ?_, fun peer' hget => ?_, ?_⟩
        · exact iff_of_true rfl ⟨doc, (hdoc doc).mp rfl⟩
        · rw [Table.get?_upsert, if_neg hne]
        · rw [Table.get?_upsert, if_pos rfl] at hget
          cases hget
          exact ⟨fun _ => ⟨rfl, rfl⟩, nofun⟩
        · refine (totalSynced_upsert hpeer _).trans ?_
          dsimp only
          omega

theorem given_congr {m' : SyncManager χ} (hkeys : m'.peers.keys = m.peers.keys) (hcallbacks : m'.syncCallbacks = m.syncCallbacks)
    (peerId : String) (doc : CRDTDocument) : Given ask m' peerId doc ↔ Given ask m peerId doc := by
  have hknown : m'.peers.contains peerId = true ↔ m.peers.contains peerId = true := by
    rw [Table.contains_eq_true_iff, Table.contains_eq_true_iff, ← Table.mem_keys_iff, ← Table.mem_keys_iff, hkeys]
  rw [Given, Given, hknown, hcallbacks]

/-- The syncs of a round, one after the other. -/
structure Round (ops : PlanOp → Prop) (ask : χ → String → PeerData) (peerIds : List String) (m : SyncManager χ)
    (results : List (String × Bool)) (m' : SyncManager χ) : Prop where
  names : results.map Prod.fst = peerIds
  succeeds : ∀ peerId success, (peerId, success) ∈ results → (success = true ↔ ∃ doc, Given ask m peerId doc)
  state : ∀ peerId success, (peerId, success) ∈ results → ∀ peer, m'.peers.get? peerId = some peer →
    (success = true → peer.syncState = .idle ∧ peer.lastError = none) ∧
      (success = false → peer.syncState = .error ∧ peer.lastError ≠ none)
  learns : Learns ops (fun doc => ∃ peerId ∈ peerIds, Given ask m peerId doc) m.store m'.store
  keys : m'.peers.keys = m.peers.keys
  syncCallbacks : m'.syncCallbacks = m.syncCallbacks
  others : ∀ other, other ∉ peerIds → m'.peers.get? other = m.peers.get? other
  total : m'.totalSynced - m.totalSynced = (m'.store.store.doc.ops.length : Int) - m.store.store.doc.ops.length

theorem syncEach_round (hops : Writable ops) (hvalid : ∀ callback peerId doc, ask callback peerId = .document doc → Valid ops doc)
    (timeNs : String → Int) {peerIds : List String} (hn : peerIds.Nodup) (h : Sound ops m.store) :
    Round ops ask peerIds m (m.syncEach isPrintable ask timeNs peerIds).1 (m.syncEach isPrintable ask timeNs peerIds).2 := by
  induction peerIds generalizing m with
  | nil => exact ⟨rfl, nofun, nofun, .nothing h (by simp), rfl, rfl, fun _ _ => rfl, by simp [syncEach]⟩
  | cons peerId rest ih =>
    obtain ⟨hfresh, hrest⟩ := List.nodup_cons.mp hn
    let success := (m.syncWithPeer isPrintable ask (timeNs peerId) peerId).1
    let middle := (m.syncWithPeer isPrintable ask (timeNs peerId) peerId).2
    have hfirst : Syncs ops ask peerId success m middle := syncWithPeer_syncs hops h hvalid (timeNs peerId) peerId
    let final := (middle.syncEach isPrintable ask timeNs rest).2
    have hround : Round ops ask rest middle (middle.syncEach isPrintable ask timeNs rest).1 final := ih hrest hfirst.learns.sound
    have hgiven : ∀ other doc, Given ask middle other doc ↔ Given ask m other doc := given_congr hfirst.keys hfirst.syncCallbacks
    change Round ops ask (peerId :: rest) m ((peerId, success) :: (middle.syncEach isPrintable ask timeNs rest).1) final
    refine ⟨?_, ?_, ?_, ?_, hround.keys.trans hfirst.keys, hround.syncCallbacks.trans hfirst.syncCallbacks, ?_, ?_⟩
    · rw [List.map_cons, hround.names]
    · intro other otherSuccess hmem
      rcases List.mem_cons.mp hmem with heq | hmem
      · cases heq
        exact hfirst.succeeds
      · rw [hround.succeeds other otherSuccess hmem]
        simp only [hgiven]
    · intro other otherSuccess hmem
      rcases List.mem_cons.mp hmem with heq | hmem
      · cases heq
        rw [hround.others peerId hfresh]
        exact hfirst.state
      · exact hround.state other otherSuccess hmem
    · refine (hfirst.learns.trans hround.learns).congr fun doc => ?_
      simp only [hgiven, List.mem_cons, exists_eq_or_imp]
    · intro other hother
      rw [List.mem_cons, not_or] at hother
      rw [hround.others other hother.2, hfirst.others other hother.1]
    · have hfirstTotal := hfirst.total
      have hroundTotal := hround.total
      omega

end Sync

end SyncManager

/-- The nodes, and the documents that they have handed out. A callback of a node is
the name of the node whose document it fetches. -/
structure Network (ι : Type) where
  managers : ι → SyncManager ι
  saved : List (ι × CRDTDocument)

inductive Action (ι : Type)
  | appendOp (op : PlanOp)
  | registerPeer (peerId address : String) (syncCallback : Option ι)
  | unregisterPeer (peerId : String)
  | getSaveData
  | syncWithPeer (peerId : String) (ask : ι → String → PeerData) (timeNs : Int)
  | syncAllPeers (ask : ι → String → PeerData) (timeNs : String → Int)
  | incrementalSync (peerId : String) (peerChanges : PeerData) (timeNs : Int)

section Network

variable {ι : Type}

/-- The manager after a call of its node. -/
def SyncManager.act (isPrintable : Char → Bool) (m : SyncManager ι) : Action ι → SyncManager ι
  | .appendOp op => { m with store := (m.store.appendOp op).2 }
  | .registerPeer peerId address syncCallback => m.registerPeer peerId address syncCallback
  | .unregisterPeer peerId => m.unregisterPeer peerId
  | .getSaveData => m
  | .syncWithPeer peerId ask timeNs => (m.syncWithPeer isPrintable ask timeNs peerId).2
  | .syncAllPeers ask timeNs => (m.syncAllPeers isPrintable ask timeNs).2
  | .incrementalSync peerId peerChanges timeNs => (m.incrementalSync peerChanges timeNs peerId).2

/-- The document that a call gives out. -/
def SyncManager.handedOut (m : SyncManager ι) : Action ι → Option CRDTDocument
  | .getSaveData => some (savedData m.store.store)
  | .incrementalSync peerId peerChanges timeNs => (m.incrementalSync peerChanges timeNs peerId).1
  | _ => none

/-- The documents that a call merges. -/
def SyncManager.Merges (m : SyncManager ι) : Action ι → CRDTDocument → Prop
  | .syncWithPeer peerId ask _, doc => m.Given ask peerId doc
  | .syncAllPeers ask _, doc => ∃ peerId, m.Given ask peerId doc
  | .incrementalSync peerId peerChanges _, doc => m.peers.contains peerId = true ∧ peerChanges = .document doc
  | _, _ => False

/-- What reaches a node was handed out before, by the node that is asked: it may be old,
and come again, but is not made up. -/
def Network.Delivers (net : Network ι) : Action ι → Prop
  | .syncWithPeer _ ask _ => ∀ j peerId doc, ask j peerId = .document doc → (j, doc) ∈ net.saved
  | .syncAllPeers ask _ => ∀ j peerId doc, ask j peerId = .document doc → (j, doc) ∈ net.saved
  | .incrementalSync _ peerChanges _ => ∀ doc, peerChanges = .document doc → ∃ j, (j, doc) ∈ net.saved
  | _ => True

def Network.start (names : ι → String) : Network ι := ⟨fun i => .init (names i), []⟩

def Network.log (net : Network ι) (i : ι) : List PlanOp := logOf (net.managers i).store.store

/-- How an operation gets to a node: it is written there, or it is in a document that a
node handed out which it had got to. -/
inductive Carried : List (Network ι × (ι × Action ι) × Network ι) → PlanOp → ι → Prop
  | written {steps net net' i op} : Carried (steps ++ [(net, (i, .appendOp op), net')]) op i
  | kept {steps e op i} : Carried steps op i → Carried (steps ++ [e]) op i
  | received {steps net net' i j action doc op} : (net.managers i).Merges action doc → (j, doc) ∈ net.saved →
      op.toDict ∈ doc.ops → Carried steps op j → Carried (steps ++ [(net, (i, action), net')]) op i

variable {isPrintable : Char → Bool} {ops : PlanOp → Prop} {net net' : Network ι} {m : SyncManager ι} {action : Action ι}
variable {steps : List (Network ι × (ι × Action ι) × Network ι)} {op : PlanOp} {i : ι}

theorem incrementalSync_learns (hops : Writable ops) (h : Sound ops m.store) {peerChanges : PeerData}
    (hvalid : ∀ doc, peerChanges = .document doc → Valid ops doc) (timeNs : Int) (peerId : String) :
    Learns ops (m.Merges (.incrementalSync peerId peerChanges timeNs)) m.store
        (m.incrementalSync peerChanges timeNs peerId).2.store ∧
      ∀ doc, (m.incrementalSync peerChanges timeNs peerId).1 = some doc →
        doc = savedData (m.incrementalSync peerChanges timeNs peerId).2.store.store := by
  unfold SyncManager.incrementalSync
  cases hpeer : m.peers.get? peerId with
  | none =>
    have hnone : ∀ doc, ¬m.Merges (.incrementalSync peerId peerChanges timeNs) doc := by
      rintro doc ⟨hknown, -⟩
      rw [Table.contains_eq_false_iff.mpr hpeer] at hknown
      cases hknown
    exact ⟨.nothing h hnone, nofun⟩
  | some peer =>
    have hknown : m.peers.contains peerId = true := Table.contains_eq_true_iff.mpr ⟨peer, hpeer⟩
    cases peerChanges with
    | empty => exact ⟨.nothing h fun doc hdoc => (nomatch hdoc.2), fun doc hdoc => (Option.some.inj hdoc).symm⟩
    | unreadable error | raised error => exact ⟨.nothing h fun doc hdoc => (nomatch hdoc.2), nofun⟩
    | document doc =>
      obtain ⟨w', hmerge, hlearns⟩ := Learns.merge hops h (hvalid doc rfl)
      dsimp only
      rw [hmerge]
      refine ⟨hlearns.congr fun doc' => ?_, fun sent hsent => (Option.some.inj hsent).symm⟩
      constructor
      · rintro rfl
        exact ⟨hknown, rfl⟩
      · rintro ⟨-, heq⟩
        exact (PeerData.document.inj heq).symm

/-- What is handed out comes from its node, and holds what this has. -/
structure Honest (ops : PlanOp → Prop) (net : Network ι) : Prop where
  sound : ∀ i, Sound ops (net.managers i).store
  saved : ∀ j doc, (j, doc) ∈ net.saved → Valid ops doc ∧ ∀ op, op.toDict ∈ doc.ops → op ∈ net.log j

theorem Honest.valid (h : Honest ops net) {ask : ι → String → PeerData}
    (hdelivers : ∀ j peerId doc, ask j peerId = .document doc → (j, doc) ∈ net.saved) :
    ∀ j peerId doc, ask j peerId = .document doc → Valid ops doc :=
  fun j peerId doc hask => (h.saved j doc (hdelivers j peerId doc hask)).1

theorem act_learns (hops : Writable ops) (h : Honest ops net) {i : ι} (hdelivers : net.Delivers action)
    (hother : ∀ op, action ≠ .appendOp op) :
    Learns ops ((net.managers i).Merges action) (net.managers i).store ((net.managers i).act isPrintable action).store := by
  have hsound := h.sound i
  cases action with
  | appendOp op => exact absurd rfl (hother op)
  | registerPeer peerId address syncCallback =>
    have hstore : ((net.managers i).registerPeer peerId address syncCallback).store = (net.managers i).store := by
      unfold SyncManager.registerPeer
      split
      · rfl
      · split
        · split <;> rfl
        · rfl
    change Learns ops _ _ (SyncManager.registerPeer peerId address syncCallback (net.managers i)).store
    rw [hstore]
    exact .nothing hsound fun _ => id
  | unregisterPeer peerId =>
    have hstore : ((net.managers i).unregisterPeer peerId).store = (net.managers i).store := by
      unfold SyncManager.unregisterPeer
      split <;> rfl
    change Learns ops _ _ (SyncManager.unregisterPeer peerId (net.managers i)).store
    rw [hstore]
    exact .nothing hsound fun _ => id
  | getSaveData => exact .nothing hsound fun _ => id
  | syncWithPeer peerId ask timeNs =>
    exact (SyncManager.syncWithPeer_syncs hops hsound (h.valid hdelivers) timeNs peerId).learns
  | syncAllPeers ask timeNs =>
    refine (SyncManager.syncEach_round hops (h.valid hdelivers) timeNs (net.managers i).peers.keysNodup hsound).learns.congr fun doc => ?_
    constructor
    · rintro ⟨peerId, -, hgiven⟩
      exact ⟨peerId, hgiven⟩
    · rintro ⟨peerId, hgiven⟩
      exact ⟨peerId, Table.mem_keys_iff.mpr (Table.contains_eq_true_iff.mp hgiven.1), hgiven⟩
  | incrementalSync peerId peerChanges timeNs =>
    refine (incrementalSync_learns hops hsound (fun doc hdoc => ?_) timeNs peerId).1
    obtain ⟨j, hsaved⟩ := hdelivers doc hdoc
    exact (h.saved j doc hsaved).1

theorem saved_of_merges (hdelivers : net.Delivers action) {doc : CRDTDocument} (hmerges : (net.managers i).Merges action doc) :
    ∃ j, (j, doc) ∈ net.saved := by
  cases action with
  | syncWithPeer peerId ask timeNs =>
    obtain ⟨-, j, -, hask⟩ := hmerges
    exact ⟨j, hdelivers j peerId doc hask⟩
  | syncAllPeers ask timeNs =>
    obtain ⟨peerId, -, j, -, hask⟩ := hmerges
    exact ⟨j, hdelivers j peerId doc hask⟩
  | incrementalSync peerId peerChanges timeNs => exact hdelivers doc hmerges.2
  | appendOp | registerPeer | unregisterPeer | getSaveData => exact absurd hmerges id

theorem not_carried_nil : ¬Carried [] op i := by
  generalize hnil : ([] : List (Network ι × (ι × Action ι) × Network ι)) = steps
  rintro (_ | _ | _) <;> simp at hnil

theorem carried_concat {k : ι} : Carried (steps ++ [(net, (k, action), net')]) op i ↔ Carried steps op i ∨
    (i = k ∧ (action = .appendOp op ∨ ∃ j doc, (net.managers k).Merges action doc ∧ (j, doc) ∈ net.saved ∧
      op.toDict ∈ doc.ops ∧ Carried steps op j)) := by
  constructor
  · generalize hall : steps ++ [(net, (k, action), net')] = all
    intro h
    cases h with
    | written =>
      obtain ⟨-, hlast⟩ := List.append_inj' hall rfl
      cases List.singleton_inj.mp hlast
      exact .inr ⟨rfl, .inl rfl⟩
    | kept h =>
      obtain ⟨rfl, -⟩ := List.append_inj' hall rfl
      exact .inl h
    | received hmerges hsaved hdoc h =>
      obtain ⟨rfl, hlast⟩ := List.append_inj' hall rfl
      cases List.singleton_inj.mp hlast
      exact .inr ⟨rfl, .inr ⟨_, _, hmerges, hsaved, hdoc, h⟩⟩
  · rintro (h | ⟨rfl, rfl | ⟨j, doc, hmerges, hsaved, hdoc, h⟩⟩)
    · exact .kept h
    · exact .written
    · exact .received hmerges hsaved hdoc h

theorem honest_start (names : ι → String) : Honest ops (Network.start names) := ⟨fun _ => sound_init, nofun⟩

variable [DecidableEq ι]

/-- One node makes a call. -/
def Network.call (isPrintable : Char → Bool) (net : Network ι) (call : ι × Action ι) : Network ι where
  managers := Function.update net.managers call.1 ((net.managers call.1).act isPrintable call.2)
  saved := net.saved ++ (((net.managers call.1).handedOut call.2).map fun doc => (call.1, doc)).toList

structure Network.Step (isPrintable : Char → Bool) (ops : PlanOp → Prop) (net : Network ι) (call : ι × Action ι)
    (net' : Network ι) : Prop where
  written : ∀ op, call.2 = .appendOp op → ops op
  delivers : net.Delivers call.2
  result : net' = net.call isPrintable call

theorem Network.Step.manager (h : Network.Step isPrintable ops net (i, action) net') :
    net'.managers i = (net.managers i).act isPrintable action := by
  rw [h.result]
  exact Function.update_self _ _ _

theorem Network.Step.others (h : Network.Step isPrintable ops net (i, action) net') {j : ι} (hne : j ≠ i) :
    net'.managers j = net.managers j := by
  rw [h.result]
  exact Function.update_of_ne hne _ _

/-- What a call makes of the log of its node, and that it leaves the others. -/
theorem log_step (hops : Writable ops) (h : Honest ops net) (hstep : Network.Step isPrintable ops net (i, action) net') :
    (∀ op, op ∈ net'.log i ↔ op ∈ net.log i ∨ action = .appendOp op ∨
      ∃ doc, (net.managers i).Merges action doc ∧ op.toDict ∈ doc.ops) ∧
    Sound ops (net'.managers i).store ∧ ∀ j, j ≠ i → net'.managers j = net.managers j := by
  refine and_assoc.mp ⟨?_, fun j => hstep.others⟩
  unfold Network.log
  rw [hstep.manager]
  by_cases happend : ∃ op, action = .appendOp op
  · obtain ⟨op, rfl⟩ := happend
    obtain ⟨w', happended, hsound, hmem⟩ := (h.sound i).append hops (hstep.written op rfl)
    have hact : ((net.managers i).act isPrintable (.appendOp op)).store = w' := by
      change ((net.managers i).store.appendOp op).2 = w'
      rw [happended]
    rw [hact]
    refine ⟨fun x => ?_, hsound⟩
    rw [hmem]
    constructor
    · rintro (hown | rfl)
      · exact .inl hown
      · exact .inr (.inl rfl)
    · rintro (hown | hwritten | ⟨doc, hmerges, -⟩)
      · exact .inl hown
      · exact .inr (Action.appendOp.inj hwritten).symm
      · exact absurd hmerges id
  · have hlearns : Learns ops ((net.managers i).Merges action) (net.managers i).store
        ((net.managers i).act isPrintable action).store := act_learns hops h hstep.delivers fun op heq => happend ⟨op, heq⟩
    refine ⟨fun x => ?_, hlearns.sound⟩
    rw [hlearns.log]
    constructor
    · rintro (hown | hmerged)
      · exact .inl hown
      · exact .inr (.inr hmerged)
    · rintro (hown | hwritten | hmerged)
      · exact .inl hown
      · exact absurd ⟨x, hwritten⟩ happend
      · exact .inr hmerged

theorem log_mono (hops : Writable ops) (h : Honest ops net) {call : ι × Action ι}
    (hstep : Network.Step isPrintable ops net call net') {i : ι} {op : PlanOp} (hop : op ∈ net.log i) : op ∈ net'.log i := by
  obtain ⟨hlog, -, hothers⟩ := log_step hops h hstep
  by_cases hi : i = call.1
  · rw [hi] at hop ⊢
    exact (hlog op).mpr (.inl hop)
  · rw [Network.log, hothers i hi]
    exact hop

theorem honest_step (hops : Writable ops) (h : Honest ops net) {call : ι × Action ι}
    (hstep : Network.Step isPrintable ops net call net') : Honest ops net' := by
  obtain ⟨i, action⟩ := call
  obtain ⟨-, hsound, hothers⟩ := log_step hops h hstep
  constructor
  · intro j
    by_cases hj : j = i
    · rw [hj]
      exact hsound
    · rw [hothers j hj]
      exact h.sound j
  · intro j doc hsaved
    rw [hstep.result] at hsaved
    rcases List.mem_append.mp hsaved with hold | hnew
    · obtain ⟨hvalid, hhas⟩ := h.saved j doc hold
      exact ⟨hvalid, fun op hop => log_mono hops h hstep (hhas op hop)⟩
    · -- the document is that of the store as the call leaves it
      have hgiven : ∃ doc, (net.managers i).handedOut action = some doc ∧ doc = savedData (net'.managers i).store.store := by
        rw [hstep.manager]
        cases action with
        | getSaveData => exact ⟨_, rfl, rfl⟩
        | incrementalSync peerId peerChanges timeNs =>
          cases hsent : (net.managers i).handedOut (.incrementalSync peerId peerChanges timeNs) with
          | none =>
            rw [hsent] at hnew
            cases hnew
          | some sent =>
            refine ⟨sent, rfl, (incrementalSync_learns hops (h.sound i) (fun doc hdoc => ?_) timeNs peerId).2 sent hsent⟩
            obtain ⟨k, hk⟩ := hstep.delivers doc hdoc
            exact (h.saved k doc hk).1
        | appendOp | registerPeer | unregisterPeer | syncWithPeer | syncAllPeers => cases hnew
      obtain ⟨sent, hsent, rfl⟩ := hgiven
      rw [hsent] at hnew
      obtain ⟨rfl, rfl⟩ := Prod.mk.inj (List.mem_singleton.mp hnew)
      have hlog : (savedData (net'.managers j).store.store).ops = (net'.log j).map toDict := hsound.holds.ops
      exact ⟨⟨_, hlog, hsound.written⟩, fun op hop => (mem_ops_iff hlog).mp hop⟩

theorem honest_run (hops : Writable ops) {names : ι → String}
    (hrun : Trace (Network.Step isPrintable ops) (Network.start names) steps net) : Honest ops net := by
  induction hrun with
  | start => exact honest_start names
  | next _ hstep ih => exact honest_step hops ih hstep

/-- The log of a node has exactly the operations that have got there, over any calls of any
nodes, in any order, with documents that arrive late, again, or never. -/
theorem log_iff_carried (hops : Writable ops) {names : ι → String}
    (hrun : Trace (Network.Step isPrintable ops) (Network.start names) steps net) (i : ι) (op : PlanOp) :
    op ∈ net.log i ↔ Carried steps op i := by
  induction hrun generalizing i op with
  | start => exact ⟨nofun, fun hcarried => absurd hcarried not_carried_nil⟩
  | @next steps before after call hrun hstep ih =>
    have hhonest := honest_run hops hrun
    obtain ⟨k, action⟩ := call
    obtain ⟨hown, -, hothers⟩ := log_step hops hhonest hstep
    rw [carried_concat]
    by_cases hi : i = k
    · subst hi
      rw [hown, ih]
      constructor
      · rintro (hkept | rfl | ⟨doc, hmerges, hdoc⟩)
        · exact .inl hkept
        · exact .inr ⟨rfl, .inl rfl⟩
        · obtain ⟨j, hsaved⟩ := saved_of_merges hstep.delivers hmerges
          have hthere := (hhonest.saved j doc hsaved).2 op hdoc
          exact .inr ⟨rfl, .inr ⟨j, doc, hmerges, hsaved, hdoc, (ih j op).mp hthere⟩⟩
      · rintro (hkept | ⟨-, hwritten | ⟨j, doc, hmerges, -, hdoc, -⟩⟩)
        · exact .inl hkept
        · exact .inr (.inl hwritten)
        · exact .inr (.inr ⟨doc, hmerges, hdoc⟩)
    · rw [Network.log, hothers i hi]
      refine (ih i op).trans ⟨.inl, fun h => h.resolve_right fun hnew => hi hnew.1⟩

def InLamportOrder (log : List PlanOp) : Prop := log.Pairwise fun x y => x.lamport ≤ y.lamport

/-- What a run keeps in which nothing is written. -/
structure QuietRun (ops : PlanOp → Prop) (net : Network ι) (steps : List (Network ι × (ι × Action ι) × Network ι))
    (net' : Network ι) : Prop where
  honest : Honest ops net'
  kept : ∀ i op, op ∈ net.log i → op ∈ net'.log i
  known : ∀ i op, op ∈ net'.log i → ∃ k, op ∈ net.log k
  before : ∀ e ∈ steps, Honest ops e.1 ∧ ∀ i op, op ∈ net.log i → op ∈ e.1.log i
  merged : ∀ e ∈ steps, ∀ doc, (e.1.managers e.2.1.1).Merges e.2.1.2 doc →
    (∀ op, op.toDict ∈ doc.ops → op ∈ net'.log e.2.1.1) ∧ InLamportOrder (net'.log e.2.1.1)

theorem quietRun (hops : Writable ops) (h : Honest ops net) (hrun : Trace (Network.Step isPrintable ops) net steps net')
    (hquiet : ∀ e ∈ steps, ∀ op, e.2.1.2 ≠ .appendOp op) : QuietRun ops net steps net' := by
  induction hrun with
  | start => exact ⟨h, fun _ _ => id, fun i op hop => ⟨i, hop⟩, List.forall_mem_nil _, List.forall_mem_nil _⟩
  | @next steps middle final call hrun hstep ih =>
    obtain ⟨hearlier, hlast⟩ := List.forall_mem_append.mp hquiet
    have hsofar := ih hearlier
    obtain ⟨k, action⟩ := call
    have hother : ∀ op, action ≠ .appendOp op := hlast _ (List.mem_singleton_self _)
    obtain ⟨hown, -, hothers⟩ := log_step hops hsofar.honest hstep
    have hmono : ∀ i op, op ∈ middle.log i → op ∈ final.log i := fun i op => log_mono hops hsofar.honest hstep
    have hlearns : Learns ops ((middle.managers k).Merges action) (middle.managers k).store (final.managers k).store := by
      rw [hstep.manager]
      exact act_learns hops hsofar.honest hstep.delivers hother
    refine ⟨honest_step hops hsofar.honest hstep, fun i op hop => hmono i op (hsofar.kept i op hop), ?_, ?_, ?_⟩
    · intro i op hop
      by_cases hi : i = k
      · subst hi
        rcases (hown op).mp hop with hkept | hwritten | ⟨doc, hmerges, hdoc⟩
        · exact hsofar.known i op hkept
        · exact absurd hwritten (hother op)
        · obtain ⟨j, hsaved⟩ := saved_of_merges hstep.delivers hmerges
          exact hsofar.known j op ((hsofar.honest.saved j doc hsaved).2 op hdoc)
      · rw [Network.log, hothers i hi] at hop
        exact hsofar.known i op hop
    · exact List.forall_mem_append.mpr ⟨hsofar.before, List.forall_mem_singleton.mpr ⟨hsofar.honest, hsofar.kept⟩⟩
    · refine List.forall_mem_append.mpr ⟨fun e he doc hmerges => ?_, List.forall_mem_singleton.mpr fun doc hmerges => ?_⟩
      · obtain ⟨hhas, hsorted⟩ := hsofar.merged e he doc hmerges
        refine ⟨fun op hop => hmono _ op (hhas op hop), ?_⟩
        by_cases hi : e.2.1.1 = k
        · rw [hi] at hsorted ⊢
          exact hlearns.sorted (.inl hsorted)
        · rw [Network.log, hothers _ hi]
          exact hsorted
      · exact ⟨fun op hop => (hown op).mpr (.inr (.inr ⟨doc, hmerges, hop⟩)), hlearns.sorted (.inr ⟨doc, hmerges⟩)⟩

/-- Once nothing is written any more, and each node has merged a document of each other
one that was saved since, all have what any of them had, and show the same plan. -/
theorem full_exchange_converges (hops : Writable ops) (hlamports : ∀ x y, ops x → ops y → x.lamport = y.lamport → x = y)
    {names : ι → String} {before steps : List (Network ι × (ι × Action ι) × Network ι)}
    (hbefore : Trace (Network.Step isPrintable ops) (Network.start names) before net)
    (hrun : Trace (Network.Step isPrintable ops) net steps net') (hquiet : ∀ e ∈ steps, ∀ op, e.2.1.2 ≠ .appendOp op)
    (hexchange : ∀ i j, i ≠ j → ∃ e ∈ steps, ∃ e' ∈ steps, e.2.1.1 = i ∧
      (e.1.managers i).Merges e.2.1.2 (savedData (e'.1.managers j).store.store)) (i j : ι) :
    (∀ op, op ∈ net'.log i ↔ ∃ k, op ∈ net.log k) ∧ Converged (net'.managers i).store.store (net'.managers j).store.store := by
  have hhonest : Honest ops net := honest_run hops hbefore
  have hq := quietRun hops hhonest hrun hquiet
  have hall : ∀ i op, op ∈ net'.log i ↔ ∃ k, op ∈ net.log k := by
    intro i op
    refine ⟨hq.known i op, fun ⟨k, hop⟩ => ?_⟩
    by_cases hik : i = k
    · rw [hik]
      exact hq.kept k op hop
    · obtain ⟨e, he, e', he', rfl, hmerges⟩ := hexchange i k hik
      obtain ⟨hthere, hgrown⟩ := hq.before e' he'
      refine (hq.merged e he _ hmerges).1 op ?_
      have hdoc : (savedData (e'.1.managers k).store.store).ops = (e'.1.log k).map toDict := (hthere.sound k).holds.ops
      exact (mem_ops_iff hdoc).mpr (hgrown k op hop)
  refine ⟨hall i, ?_⟩
  by_cases hij : i = j
  · rw [hij]
    exact ⟨fun _ => Iff.rfl, fun _ => rfl, fun _ _ => Iff.rfl, fun _ _ => rfl⟩
  · have hshows : ∀ i j, i ≠ j → Shows (sortOn PlanOp.lamport (net'.log i)) (net'.managers i).store.store.doc := by
      intro i j hne
      obtain ⟨e, he, e', he', rfl, hmerges⟩ := hexchange i j hne
      rw [sortOn_eq_self PlanOp.lamport (hq.merged e he _ hmerges).2]
      exact (hq.honest.sound e.2.1.1).shows
    have hmem : ∀ op, op ∈ net'.log i ↔ op ∈ net'.log j := fun op => (hall i op).trans (hall j op).symm
    have hdistinct : Distinct (net'.log i) := fun x hx y hy =>
      hlamports x y ((hq.honest.sound i).written x hx) ((hq.honest.sound i).written y hy)
    refine (converged_iff (hshows i j hij) (hshows j i (Ne.symm hij)) (fun id => ?_) hmem).mpr (tiesAgree_of_distinct hdistinct hmem)
    rw [(hq.honest.sound i).holds.opIds, (hq.honest.sound j).holds.opIds]
    simp only [Network.log] at hmem
    simp only [hmem]

end Network

section Books

variable {χ : Type} {w : ViewedStore} {m : SyncManager χ}

theorem length_appendOp_le (w : ViewedStore) (op : PlanOp) : w.store.doc.ops.length ≤ (w.appendOp op).2.store.doc.ops.length := by
  unfold ViewedStore.appendOp
  by_cases hknown : op.opId ∈ w.store.opIds
  · rw [if_pos hknown]
  · rw [if_neg hknown, AutomergePlanStore.appendOp, if_neg hknown]
    dsimp only
    cases happly : AutomergePlanStore.applyToState { w.store.doc with
      ops := w.store.doc.ops ++ [op.toDict], version := w.store.doc.version + 1 } op with
    | error e =>
      dsimp only
      rw [List.length_append]
      omega
    | ok doc =>
      dsimp only
      rw [store_updateViews, (applyToState_log happly).1, List.length_append]
      omega

/-- However a merge ends, no operation goes. -/
theorem length_mergeWithPeer_le (w : ViewedStore) (doc : CRDTDocument) :
    w.store.doc.ops.length ≤ (w.mergeWithPeer doc).2.store.doc.ops.length := by
  unfold ViewedStore.mergeWithPeer
  dsimp only
  split
  · exact Nat.le_refl _
  · split
    next =>
      dsimp only
      rw [List.length_append]
      omega
    next sorted hsort =>
      have hlength : w.store.doc.ops.length ≤ sorted.length := by
        obtain ⟨_, _, hsorted⟩ := Transactional.except_bind_ok.mp hsort
        cases hsorted
        rw [(perm_sortOn _ _).length_eq, List.length_append]
        omega
      have hrebuilt : ∀ {outcome rebuilt}, AutomergePlanStore.rebuildStateFromOps { w.store.doc with ops := sorted } =
          (outcome, rebuilt) → rebuilt.ops = sorted := by
        intro outcome rebuilt hrebuild
        have hdoc : (AutomergePlanStore.replayOps sorted { w.store.doc with ops := sorted }.cleared).2 = rebuilt :=
          congrArg Prod.snd hrebuild
        rw [← hdoc]
        exact (replayOps_log sorted _).1
      split
      next rebuilt hrebuild =>
        change _ ≤ rebuilt.ops.length
        rw [hrebuilt hrebuild]
        exact hlength
      next rebuilt hrebuild =>
        have hstore := store_updateViews (w.replace ⟨rebuilt, w.store.opIds ++
          (AutomergePlanStore.newOps w.store.opIds doc.ops).map fun d => d.opId.getD ""⟩)
        split
        next hviews =>
          rw [hviews] at hstore
          rw [hstore]
          change _ ≤ rebuilt.ops.length
          rw [hrebuilt hrebuild]
          exact hlength
        next hviews =>
          rw [hviews] at hstore
          dsimp only at hstore ⊢
          rw [hstore]
          change _ ≤ rebuilt.ops.length
          rw [hrebuilt hrebuild]
          exact hlength

/-- The peers as a status shows them. -/
structure Settled (peerId : String) (peer : PeerState) : Prop where
  named : peer.peerId = peerId
  notSyncing : peer.syncState ≠ .syncing
  error : peer.syncState = .error ↔ peer.lastError ≠ none
  counted : 0 ≤ peer.opsSynced

structure Books (m : SyncManager χ) : Prop where
  self : m.peers.get? m.localPeerId = none
  callbacks : ∀ peerId, m.syncCallbacks.contains peerId = true → m.peers.contains peerId = true
  settled : ∀ peerId peer, m.peers.get? peerId = some peer → Settled peerId peer
  total : m.totalSynced ≤ m.store.store.doc.ops.length

theorem books_init (localPeerId : String) : Books (SyncManager.init localPeerId : SyncManager χ) where
  self := rfl
  callbacks _ h := by cases h
  settled _ _ h := by cases h
  total := Int.le_refl _

/-- The store grows and a peer changes that is known. -/
theorem Books.update (h : Books m) {peerId : String} {peer peer' : PeerState} {store : ViewedStore}
    (hpeer : m.peers.get? peerId = some peer) (hsettled : Settled peerId peer')
    (hlength : m.store.store.doc.ops.length + (peer'.opsSynced - peer.opsSynced) ≤ store.store.doc.ops.length) :
    Books { m with store := store, peers := m.peers.upsert peerId peer' } where
  self := by
    have hne : m.localPeerId ≠ peerId := by
      rintro rfl
      rw [h.self] at hpeer
      cases hpeer
    rw [Table.get?_upsert, if_neg hne]
    exact h.self
  callbacks other hcallback := by
    obtain ⟨callback, hget⟩ := Table.contains_eq_true_iff.mp (h.callbacks other hcallback)
    rw [Table.contains_eq_true_iff, ← Table.mem_keys_iff, Table.mem_keys_upsert]
    exact .inr (Table.mem_keys_iff.mpr ⟨callback, hget⟩)
  settled other state hget := by
    rw [Table.get?_upsert] at hget
    split at hget
    next heq =>
      cases hget
      rw [heq]
      exact hsettled
    next => exact h.settled other state hget
  total := by
    have htotal := SyncManager.totalSynced_upsert hpeer peer'
    have hbefore := h.total
    change (m.peers.upsert peerId peer').total (fun _ peer => peer.opsSynced) ≤ (store.store.doc.ops.length : Int)
    omega

theorem Books.failed (h : Books m) {peerId error : String} {peer : PeerState} {store : ViewedStore}
    (hpeer : m.peers.get? peerId = some peer) (hlength : m.store.store.doc.ops.length ≤ store.store.doc.ops.length) :
    Books ({ m with store := store }.failed peerId error peer) := by
  have hsettled := h.settled peerId peer hpeer
  refine h.update hpeer ⟨hsettled.named, nofun, iff_of_true rfl nofun, hsettled.counted⟩ ?_
  dsimp only
  omega

theorem books_syncWithPeer (h : Books m) (isPrintable : Char → Bool) (ask : χ → String → PeerData) (timeNs : Int) (peerId : String) :
    Books (m.syncWithPeer isPrintable ask timeNs peerId).2 := by
  unfold SyncManager.syncWithPeer
  split
  next => exact h
  next peer hpeer =>
    split
    next => exact h.failed hpeer (Nat.le_refl _)
    next callback _ =>
      split
      next => exact h.failed hpeer (Nat.le_refl _)
      next => exact h.failed hpeer (Nat.le_refl _)
      next => exact h.failed hpeer (Nat.le_refl _)
      next doc _ =>
        have hgrown := length_mergeWithPeer_le m.store doc
        dsimp only
        split
        next e store hmerge =>
          rw [hmerge] at hgrown
          exact h.failed hpeer hgrown
        next store hmerge =>
          rw [hmerge] at hgrown
          have hsettled := h.settled peerId peer hpeer
          have hcounted := hsettled.counted
          dsimp only at hgrown
          refine h.update hpeer ⟨hsettled.named, nofun, iff_of_false nofun fun hne => hne rfl, ?_⟩ ?_
          · dsimp only
            omega
          · dsimp only
            omega

theorem books_syncEach (h : Books m) (isPrintable : Char → Bool) (ask : χ → String → PeerData) (timeNs : String → Int)
    (peerIds : List String) : Books (m.syncEach isPrintable ask timeNs peerIds).2 := by
  induction peerIds generalizing m with
  | nil => exact h
  | cons peerId rest ih => exact ih (books_syncWithPeer h isPrintable ask (timeNs peerId) peerId)

theorem books_registerPeer (h : Books m) (peerId address : String) (syncCallback : Option χ) :
    Books (m.registerPeer peerId address syncCallback) := by
  unfold SyncManager.registerPeer
  split
  next => exact h
  next hself =>
    split
    next hnone =>
      have hfresh : (m.peers.upsert peerId ⟨peerId, address, 0, .idle, 0, none⟩).total (fun _ peer => peer.opsSynced) = m.totalSynced := by
        rw [Table.upsert_of_fresh hnone, Table.total_insert, add_zero]
        rfl
      have hbooks : Books { m with peers := m.peers.upsert peerId ⟨peerId, address, 0, .idle, 0, none⟩ } := by
        refine ⟨?_, fun other hcallback => ?_, fun other state hget => ?_, hfresh.trans_le h.total⟩
        · rw [Table.get?_upsert, if_neg (Ne.symm hself)]
          exact h.self
        · obtain ⟨peer, hget⟩ := Table.contains_eq_true_iff.mp (h.callbacks other hcallback)
          rw [Table.contains_eq_true_iff, ← Table.mem_keys_iff, Table.mem_keys_upsert]
          exact .inr (Table.mem_keys_iff.mpr ⟨peer, hget⟩)
        · rw [Table.get?_upsert] at hget
          split at hget
          next heq =>
            cases hget
            exact ⟨heq.symm, nofun, iff_of_false nofun fun hne => hne rfl, Int.le_refl _⟩
          next => exact h.settled other state hget
      dsimp only
      split
      next callback =>
        refine ⟨hbooks.self, fun other hcallback => ?_, hbooks.settled, hbooks.total⟩
        rw [Table.contains_eq_true_iff, ← Table.mem_keys_iff, Table.mem_keys_upsert, Table.mem_keys_iff,
          ← Table.contains_eq_true_iff] at hcallback
        rcases hcallback with rfl | hcallback
        · rw [Table.contains_eq_true_iff, ← Table.mem_keys_iff, Table.mem_keys_upsert]
          exact .inl rfl
        · exact hbooks.callbacks other hcallback
      next => exact hbooks
    next peer hpeer =>
      have hsettled := h.settled peerId peer hpeer
      refine h.update hpeer ⟨hsettled.named, hsettled.notSyncing, hsettled.error, hsettled.counted⟩ ?_
      dsimp only
      omega

theorem books_unregisterPeer (h : Books m) (peerId : String) : Books (m.unregisterPeer peerId) := by
  unfold SyncManager.unregisterPeer
  split
  next hknown =>
    obtain ⟨peer, hpeer⟩ := Table.contains_eq_true_iff.mp hknown
    refine ⟨?_, fun other hcallback => ?_, fun other state hget => ?_, ?_⟩
    · rw [Table.get?_erase]
      split
      · rfl
      · exact h.self
    · rw [Table.contains_eq_true_iff, ← Table.mem_keys_iff, Table.mem_keys_erase] at hcallback ⊢
      obtain ⟨hmem, hne⟩ := hcallback
      have hkept := h.callbacks other (Table.contains_eq_true_iff.mpr (Table.mem_keys_iff.mp hmem))
      exact ⟨Table.mem_keys_iff.mpr (Table.contains_eq_true_iff.mp hkept), hne⟩
    · rw [Table.get?_erase] at hget
      split at hget
      · cases hget
      · exact h.settled other state hget
    · have htotal := Table.total_erase hpeer fun _ (peer : PeerState) => peer.opsSynced
      have hcounted := (h.settled peerId peer hpeer).counted
      have hbefore := h.total
      change (m.peers.erase peerId).total (fun _ peer => peer.opsSynced) ≤ (m.store.store.doc.ops.length : Int)
      unfold SyncManager.totalSynced at hbefore
      omega
  next => exact h

theorem books_incrementalSync (h : Books m) (peerChanges : PeerData) (timeNs : Int) (peerId : String) :
    Books (m.incrementalSync peerChanges timeNs peerId).2 := by
  unfold SyncManager.incrementalSync
  split
  next => exact h
  next peer hpeer =>
    have hsettled := h.settled peerId peer hpeer
    have hsynced : ∀ store : ViewedStore, m.store.store.doc.ops.length ≤ store.store.doc.ops.length →
        Books { m with store := store, peers := m.peers.upsert peerId { peer with lastSyncNs := timeNs } } := by
      intro store hgrown
      refine h.update hpeer ⟨hsettled.named, hsettled.notSyncing, hsettled.error, hsettled.counted⟩ ?_
      dsimp only
      omega
    split
    next => exact hsynced m.store (Nat.le_refl _)
    next => exact h
    next => exact h
    next doc =>
      have hgrown := length_mergeWithPeer_le m.store doc
      split
      next e store hmerge =>
        rw [hmerge] at hgrown
        exact ⟨h.self, h.callbacks, h.settled, h.total.trans (Int.ofNat_le.mpr hgrown)⟩
      next store hmerge =>
        rw [hmerge] at hgrown
        exact hsynced store hgrown

theorem books_act (h : Books m) (isPrintable : Char → Bool) (action : Action χ) : Books (m.act isPrintable action) := by
  cases action with
  | appendOp op =>
    exact ⟨h.self, h.callbacks, h.settled, h.total.trans (Int.ofNat_le.mpr (length_appendOp_le m.store op))⟩
  | registerPeer peerId address syncCallback => exact books_registerPeer h peerId address syncCallback
  | unregisterPeer peerId => exact books_unregisterPeer h peerId
  | getSaveData => exact h
  | syncWithPeer peerId ask timeNs => exact books_syncWithPeer h isPrintable ask timeNs peerId
  | syncAllPeers ask timeNs => exact books_syncEach h isPrintable ask timeNs m.peers.keys
  | incrementalSync peerId peerChanges timeNs => exact books_incrementalSync h peerChanges timeNs peerId

theorem books_run (isPrintable : Char → Bool) (localPeerId : String) (actions : List (Action χ)) :
    Books (actions.foldl (SyncManager.act isPrintable) (.init localPeerId)) := by
  induction actions using List.reverseRecOn with
  | nil => exact books_init localPeerId
  | append_singleton actions action ih =>
    rw [List.foldl_append]
    exact books_act ih isPrintable action

/-- Whatever the peers send, and however their callbacks fail: a node is no peer of itself,
no callback stays behind, no peer is left syncing, a peer is in error exactly if it shows
one, and no more operations are counted than there are. -/
theorem sync_books_kept (isPrintable : Char → Bool) (localPeerId : String) (actions : List (Action χ)) :
    let m := actions.foldl (SyncManager.act isPrintable) (.init localPeerId)
    Books m ∧ m.getSyncStatus = (m.store.store.doc.ops.length, m.store.store.doc.tasks.entries.length, m.peers.entries.length,
      0, (m.peers.entries.filter fun e => e.2.lastError ≠ none).length) := by
  intro m
  have hbooks : Books m := books_run isPrintable localPeerId actions
  refine ⟨hbooks, ?_⟩
  have hsyncing : (m.peers.entries.filter fun e => e.2.syncState = .syncing) = [] := by
    refine List.filter_eq_nil_iff.mpr fun e he => ?_
    rw [decide_eq_true_eq]
    exact (hbooks.settled e.1 e.2 (Table.get?_eq_some_iff.mpr he)).notSyncing
  have herror : (m.peers.entries.filter fun e => e.2.syncState = .error) = m.peers.entries.filter fun e => e.2.lastError ≠ none := by
    refine List.filter_congr fun e he => ?_
    exact decide_eq_decide.mpr (hbooks.settled e.1 e.2 (Table.get?_eq_some_iff.mpr he)).error
  unfold SyncManager.getSyncStatus
  dsimp only
  rw [hsyncing, herror]
  rfl

end Books

section Sample

def nodeName (i : Bool) : String := if i then "north" else "south"

def printsNone (_ : Char) : Bool := false

/-- The documents of the two nodes after the first one has written. -/
def sampleDoc (i : Bool) : CRDTDocument := if i then savedData (ViewedStore.init.appendOp draftOp).2.store else savedData ViewedStore.init.store

def written : Network Bool := (Network.start nodeName).call printsNone (true, .appendOp draftOp)

def exchange : List (Bool × Action Bool) :=
  [(true, .getSaveData), (false, .getSaveData), (true, .registerPeer "south" "nats://south" (some false)),
    (false, .registerPeer "north" "nats://north" (some true)), (true, .syncAllPeers (fun j _ => .document (sampleDoc j)) fun _ => 1),
    (false, .syncAllPeers (fun j _ => .document (sampleDoc j)) fun _ => 2)]

def exchanged : Network Bool := exchange.foldl (Network.call printsNone) written

theorem draft_writable : Writable (· = draftOp) where
  named x y hx hy _ := hx.trans hy.symm
  wellFormed op hop := by
    subst hop
    exact ⟨nofun, nofun⟩
  state op hop state hstate := by
    subst hop
    cases hstate

theorem writes_trace : Trace (Network.Step printsNone (· = draftOp)) (Network.start nodeName)
    (stepsOf (Network.call printsNone) (Network.start nodeName) [(true, .appendOp draftOp)]) written := by
  refine Trace.ofCalls (List.forall_mem_singleton.mpr ⟨fun op hop => ?_, trivial, rfl⟩)
  exact (Action.appendOp.inj hop).symm

theorem exchange_trace : Trace (Network.Step printsNone (· = draftOp)) written
    (stepsOf (Network.call printsNone) written exchange) exchanged := by
  have hsaved : ∀ net : Network Bool, net.saved = [(true, sampleDoc true), (false, sampleDoc false)] →
      ∀ (j : Bool) (peerId : String) (doc : CRDTDocument), PeerData.document (sampleDoc j) = .document doc → (j, doc) ∈ net.saved := by
    intro net hnet j peerId doc hdoc
    rw [hnet, ← PeerData.document.inj hdoc]
    cases j with
    | true => exact List.mem_cons_self
    | false => exact List.mem_cons_of_mem _ List.mem_cons_self
  refine Trace.ofCalls (List.forall_mem_cons.mpr ⟨⟨nofun, trivial, rfl⟩, List.forall_mem_cons.mpr ⟨⟨nofun, trivial, rfl⟩,
    List.forall_mem_cons.mpr ⟨⟨nofun, trivial, rfl⟩, List.forall_mem_cons.mpr ⟨⟨nofun, trivial, rfl⟩,
      List.forall_mem_cons.mpr ⟨⟨nofun, hsaved _ rfl, rfl⟩, List.forall_mem_singleton.mpr ⟨nofun, hsaved _ rfl, rfl⟩⟩⟩⟩⟩⟩)

/-- The draft that the first node writes gets to the second one. -/
theorem log_iff_carried_exchanged : draftOp ∈ exchanged.log false ∧
    Carried (stepsOf (Network.call printsNone) (Network.start nodeName) [(true, .appendOp draftOp)] ++
      stepsOf (Network.call printsNone) written exchange) draftOp false :=
  have hlog : draftOp ∈ exchanged.log false := by decide
  ⟨hlog, (log_iff_carried draft_writable (writes_trace.trans exchange_trace) false draftOp).mp hlog⟩

/-- The south node, which knows the north one and a peer without a callback. -/
def southNode : SyncManager Bool :=
  ((SyncManager.init "south").registerPeer "north" "nats://north" (some true)).registerPeer "west" "nats://west" none

theorem full_exchange_converges_exchanged : (draftOp ∈ exchanged.log false ↔ ∃ k, draftOp ∈ written.log k) ∧
    Converged (exchanged.managers true).store.store (exchanged.managers false).store.store := by
  let steps := stepsOf (Network.call printsNone) written exchange
  have hlength : steps.length = 6 := rfl
  have hmem : ∀ k, (hk : k < 6) → steps.get ⟨k, hlength ▸ hk⟩ ∈ steps := fun k hk => List.get_mem _ _
  have hquiet : ∀ e ∈ steps, ∀ op, e.2.1.2 ≠ .appendOp op := by
    intro e he op heq
    have hcall : e.2.1 ∈ exchange := mem_of_mem_stepsOf he
    simp only [exchange, List.mem_cons, List.not_mem_nil, or_false] at hcall
    rcases hcall with h | h | h | h | h | h <;> simp [h] at heq
  have hexchange : ∀ i j, i ≠ j → ∃ e ∈ steps, ∃ e' ∈ steps, e.2.1.1 = i ∧
      (e.1.managers i).Merges e.2.1.2 (savedData (e'.1.managers j).store.store) := by
    intro i j hne
    cases i with
    | true =>
      cases j with
      | true => exact absurd rfl hne
      | false => exact ⟨_, hmem 4 (by decide), _, hmem 0 (by decide), rfl, "south", rfl, false, rfl, rfl⟩
    | false =>
      cases j with
      | false => exact absurd rfl hne
      | true => exact ⟨_, hmem 5 (by decide), _, hmem 0 (by decide), rfl, "north", rfl, true, rfl, rfl⟩
  have hlamports : ∀ x y, x = draftOp → y = draftOp → x.lamport = y.lamport → x = y := fun x y hx hy _ => hx.trans hy.symm
  have hconverges := full_exchange_converges draft_writable hlamports writes_trace exchange_trace hquiet hexchange
  exact ⟨(hconverges false false).1 draftOp, (hconverges true false).2⟩

end Sample

end AgentNetwork.Plan.PeerSync
