import AgentNetwork.Library.PythonBytes
import AgentNetwork.Library.PythonEquality
import AgentNetwork.Library.Traces

/-! `PeerDiscovery`: peers are known by their announcements, which may hold any values, until
they have not been heard of for too long. -/

namespace AgentNetwork.Plan.PeerDiscovery

open Python Transition

structure PeerInfo where
  peerId : Json
  address : Json
  capabilities : Json
  announcedAt : Json
  lastSeen : Int

/-- `self.peer_timeout`, in nanoseconds. -/
def timeoutNs : Int := 90 * 1000000000

/-- `discovered_peers`: the peers under their keys. -/
abbrev Peers := List (Json × PeerInfo)

namespace Peers

/-- `self.discovered_peers[peer_info.peer_id] = peer_info`: an equal key stays. -/
def set (peer : PeerInfo) : Peers → Peers
  | [] => [(peer.peerId, peer)]
  | (key, old) :: rest => if isKey key peer.peerId then (key, peer) :: rest else (key, old) :: set peer rest

def erase (peerId : Json) : Peers → Peers
  | [] => []
  | (key, peer) :: rest => if isKey key peerId then rest else (key, peer) :: erase peerId rest

def isStale (now : Int) (peer : PeerInfo) : Bool := timeoutNs < now - peer.lastSeen

def stalePeers (now : Int) (peers : Peers) : List Json := (peers.filter fun entry => isStale now entry.2).map Prod.fst

/-- `remove_stale_peers`: what is left, and the keys that it returns. -/
def removeStalePeers (now : Int) (peers : Peers) : Peers × List Json :=
  ((stalePeers now peers).foldl (fun left peerId => left.erase peerId) peers, stalePeers now peers)

def getAllPeers (peers : Peers) : List PeerInfo := peers.map Prod.snd

/-- `discover_peers`. -/
def discoverPeers (localPeerId : String) (peers : Peers) : List PeerInfo :=
  peers.getAllPeers.filter fun peer => !equal peer.peerId (.str localPeerId)

end Peers

/-- The JSON of `announce_self`. -/
def announcement (localPeerId localAddress : String) (capabilities : List String) (nowNs : Int) : List UInt8 :=
  encodeUtf8 ((Json.obj [("peer_id", .str localPeerId), ("address", .str localAddress), ("capabilities", .arr (capabilities.map .str)),
    ("announced_at", .int nowNs)]).write Json.defaultStyle)

/-- The peer that an announcement names; `none` where reading it raises. -/
def readAnnouncement (messageData : List UInt8) (announcedNs lastSeen : Int) : Option PeerInfo := do
  let text ← decodeUtf8 messageData
  match ← Json.loads text with
  | .obj data =>
    let peerId ← data.lookup "peer_id"
    let address ← data.lookup "address"
    some ⟨peerId, address, (data.lookup "capabilities").getD (.arr []), (data.lookup "announced_at").getD (.int announcedNs), lastSeen⟩
  | _ => none

/-- `add_discovered_peer`, of a peer with the time it is seen; `none` where it raises. -/
def addDiscoveredPeer (localPeerId : String) (peer : PeerInfo) (peers : Peers) : Option Peers :=
  if equal peer.peerId (.str localPeerId) then some peers
  else if ¬peer.peerId.hashable then none
  else some (peers.set peer)

/-- What is raised is caught. -/
def handleAnnouncement (localPeerId : String) (messageData : List UInt8) (announcedNs lastSeen : Int) (peers : Peers) : Peers :=
  match readAnnouncement messageData announcedNs lastSeen with
  | none => peers
  | some peer => (addDiscoveredPeer localPeerId peer peers).getD peers

/-- `capability in peer.capabilities`. -/
def hasCapability (capability : String) : Json → Except Exn Bool
  | .str text => .ok (decide (capability.toList <:+: text.toList))
  | .arr items => .ok (items.any fun item => equal item (.str capability))
  | .obj fields => .ok (fields.any fun field => field.1 = capability)
  | value => .error (.typeError ("argument of type '" ++ typeName value ++ "' is not iterable"))

def getPeersWithCapability (capability : String) (peers : Peers) : Except Exn (List PeerInfo) :=
  keepWhere (fun peer => hasCapability capability peer.capabilities) peers.getAllPeers

/-- A message of any bytes with the readings of the clock, or a removal. -/
inductive PeerEvent
  | announce (messageData : List UInt8) (announcedNs lastSeen : Int)
  | removeStale (now : Int)

def apply (localPeerId : String) (peers : Peers) : PeerEvent → Peers
  | .announce messageData announcedNs lastSeen => handleAnnouncement localPeerId messageData announcedNs lastSeen peers
  | .removeStale now => (peers.removeStalePeers now).1

def run (localPeerId : String) (events : List PeerEvent) : Peers := events.foldl (apply localPeerId) []

/-- The event announces the peer: its id is a key, and not that of this one. -/
def Announces (localPeerId : String) (peer : PeerInfo) : PeerEvent → Prop
  | .announce messageData announcedNs lastSeen => readAnnouncement messageData announcedNs lastSeen = some peer ∧
      equal peer.peerId (.str localPeerId) = false ∧ peer.peerId.hashable = true
  | .removeStale _ => False

/-- The event announces a peer under the same key, or comes too late for this one. -/
def Drops (localPeerId : String) (peer : PeerInfo) (event : PeerEvent) : Prop :=
  (∃ other, Announces localPeerId other event ∧ isKey other.peerId peer.peerId = true) ∨
    ∃ now, event = .removeStale now ∧ timeoutNs < now - peer.lastSeen

/-- The peer was announced, and no event has dropped it since. -/
def Heard (localPeerId : String) (events : List PeerEvent) (peer : PeerInfo) : Prop :=
  ∃ after, Since (fun _ => Announces localPeerId peer) (Drops localPeerId peer) events after

/-- Each peer stands under a key equal to its id, and no two under equal keys. -/
structure Keyed (peers : Peers) : Prop where
  keys : ∀ entry ∈ peers, entry.1.hashable = true ∧ entry.2.peerId.hashable = true ∧ isKey entry.1 entry.2.peerId = true
  distinct : peers.Pairwise fun a b => isKey a.1 b.1 = false

section Keys

variable {peers : Peers} {peer other : PeerInfo}

theorem isKey_trans {a b c : Json} (ha : a.hashable = true) (hb : b.hashable = true) (hab : isKey a b = true) (hbc : isKey b c = true) :
    isKey a c = true := (isKey_left ha hb hab c).trans hbc

theorem Keyed.tail {entry : Json × PeerInfo} (h : Keyed (entry :: peers)) : Keyed peers :=
  ⟨fun e he => h.keys e (List.mem_cons_of_mem _ he), (List.pairwise_cons.mp h.distinct).2⟩

/-- The keys of a table with the peer set are those it had, and that of the peer. -/
theorem mem_set_keys {entry : Json × PeerInfo} (h : entry ∈ peers.set peer) :
    entry.1 ∈ peers.map Prod.fst ∨ entry.1 = peer.peerId := by
  induction peers with
  | nil =>
    rw [List.mem_singleton.mp h]
    exact Or.inr rfl
  | cons head rest ih =>
    obtain ⟨key, old⟩ := head
    rw [Peers.set] at h
    split at h
    · obtain rfl | hrest := List.mem_cons.mp h
      · exact Or.inl List.mem_cons_self
      · exact Or.inl (List.mem_cons_of_mem _ (List.mem_map_of_mem hrest))
    · obtain rfl | hrest := List.mem_cons.mp h
      · exact Or.inl List.mem_cons_self
      · exact (ih hrest).imp_left (List.mem_cons_of_mem _)

theorem Keyed.set (h : Keyed peers) (hpeer : peer.peerId.hashable = true) : Keyed (peers.set peer) := by
  induction peers with
  | nil => exact ⟨List.forall_mem_singleton.mpr ⟨hpeer, hpeer, isKey_self _⟩, List.pairwise_singleton ..⟩
  | cons head rest ih =>
    obtain ⟨key, old⟩ := head
    obtain ⟨hkey, hold, hsame⟩ := h.keys _ List.mem_cons_self
    obtain ⟨hhead, hrest⟩ := List.pairwise_cons.mp h.distinct
    rw [Peers.set]
    split
    next hset => exact ⟨List.forall_mem_cons.mpr ⟨⟨hkey, hpeer, hset⟩, h.tail.keys⟩, List.pairwise_cons.mpr ⟨hhead, hrest⟩⟩
    next hset =>
      obtain ⟨hkeys, hdistinct⟩ := ih h.tail
      refine ⟨List.forall_mem_cons.mpr ⟨⟨hkey, hold, hsame⟩, hkeys⟩, List.pairwise_cons.mpr ⟨fun entry hentry => ?_, hdistinct⟩⟩
      obtain hmem | hnew := mem_set_keys hentry
      · obtain ⟨before, hbefore, heq⟩ := List.mem_map.mp hmem
        rw [← heq]
        exact hhead before hbefore
      · rw [hnew]
        exact Bool.eq_false_iff.mpr hset

theorem Keyed.mem_set (h : Keyed peers) (hpeer : peer.peerId.hashable = true) :
    other ∈ (peers.set peer).getAllPeers ↔ other = peer ∨ (other ∈ peers.getAllPeers ∧ isKey peer.peerId other.peerId = false) := by
  induction peers with
  | nil => simp [Peers.set, Peers.getAllPeers]
  | cons head rest ih =>
    obtain ⟨key, old⟩ := head
    obtain ⟨hkey, hold, hsame⟩ := h.keys _ List.mem_cons_self
    obtain ⟨hhead, _⟩ := List.pairwise_cons.mp h.distinct
    rw [Peers.set]
    split
    next hset =>
      have hdropped : isKey peer.peerId old.peerId = true := (isKey_left hkey hpeer hset old.peerId).symm.trans hsame
      -- those that follow stand under other keys
      have hkept : ∀ p ∈ Peers.getAllPeers rest, isKey peer.peerId p.peerId = false := by
        intro p hp
        obtain ⟨entry, hentry, rfl⟩ := List.mem_map.mp hp
        obtain ⟨hk, hid, hkid⟩ := h.tail.keys entry hentry
        refine Bool.eq_false_iff.mpr fun hboth => ?_
        have hback : isKey entry.2.peerId entry.1 = true := (isKey_comm hid hk).trans hkid
        have hclash := isKey_trans hkey hpeer hset (isKey_trans hpeer hid hboth hback)
        rw [hhead entry hentry] at hclash
        cases hclash
      show other ∈ peer :: Peers.getAllPeers rest ↔ other = peer ∨ (other ∈ old :: Peers.getAllPeers rest ∧ _)
      rw [List.mem_cons, List.mem_cons]
      refine or_congr_right ⟨fun hmem => ⟨Or.inr hmem, hkept other hmem⟩, fun ⟨hmem, hfalse⟩ => hmem.resolve_left fun he => ?_⟩
      rw [he, hdropped] at hfalse
      cases hfalse
    next hset =>
      have hkept : isKey peer.peerId old.peerId = false := by
        refine Bool.eq_false_iff.mpr fun hboth => hset ?_
        have hback : isKey old.peerId peer.peerId = true := (isKey_comm hold hpeer).trans hboth
        exact isKey_trans hkey hold hsame hback
      show other ∈ old :: (Peers.set peer rest).getAllPeers ↔ other = peer ∨ (other ∈ old :: Peers.getAllPeers rest ∧ _)
      rw [List.mem_cons, List.mem_cons, ih h.tail]
      constructor
      · rintro (rfl | rfl | ⟨hmem, hfalse⟩)
        · exact Or.inr ⟨Or.inl rfl, hkept⟩
        · exact Or.inl rfl
        · exact Or.inr ⟨Or.inr hmem, hfalse⟩
      · rintro (rfl | ⟨rfl | hmem, hfalse⟩)
        · exact Or.inr (Or.inl rfl)
        · exact Or.inl rfl
        · exact Or.inr (Or.inr ⟨hmem, hfalse⟩)

theorem foldl_erase_cons {head : Json × PeerInfo} {keys : List Json} (h : ∀ key ∈ keys, isKey head.1 key = false) (left : Peers) :
    keys.foldl (fun left peerId => Peers.erase peerId left) (head :: left) =
      head :: keys.foldl (fun left peerId => Peers.erase peerId left) left := by
  induction keys generalizing left with
  | nil => rfl
  | cons key keys ih =>
    obtain ⟨hkey, hkeys⟩ := List.forall_mem_cons.mp h
    rw [List.foldl_cons, List.foldl_cons, Peers.erase, hkey, if_neg Bool.false_ne_true, ih hkeys]

/-- Taking the stale keys out one by one leaves the others. -/
theorem Keyed.removeStalePeers (h : Keyed peers) (now : Int) :
    (peers.removeStalePeers now).1 = peers.filter fun entry => !Peers.isStale now entry.2 := by
  induction peers with
  | nil => rfl
  | cons head rest ih =>
    obtain ⟨hhead, _⟩ := List.pairwise_cons.mp h.distinct
    have hrest := ih h.tail
    unfold Peers.removeStalePeers Peers.stalePeers at hrest ⊢
    cases hstale : Peers.isStale now head.2 with
    | true =>
      have herase : Peers.erase head.1 (head :: rest) = rest := by rw [Peers.erase, if_pos (isKey_self _)]
      simp only [List.filter_cons, hstale, if_true, List.map_cons, List.foldl_cons, herase, Bool.not_true, Bool.false_eq_true, if_false]
      exact hrest
    | false =>
      have hkeys : ∀ key ∈ (rest.filter fun entry => Peers.isStale now entry.2).map Prod.fst, isKey head.1 key = false := by
        intro key hmem
        obtain ⟨entry, hentry, rfl⟩ := List.mem_map.mp hmem
        exact hhead entry (List.mem_filter.mp hentry).1
      simp only [List.filter_cons, hstale, Bool.not_false, if_true, Bool.false_eq_true, if_false]
      rw [foldl_erase_cons hkeys]
      exact congrArg _ hrest

end Keys

section Runs

variable {localPeerId : String} {events : List PeerEvent}

theorem apply_announced {peers : Peers} {event : PeerEvent} {peer : PeerInfo} (h : Announces localPeerId peer event) :
    apply localPeerId peers event = peers.set peer := by
  cases event with
  | removeStale now => exact h.elim
  | announce messageData announcedNs lastSeen =>
    obtain ⟨hread, hlocal, hhashable⟩ := h
    rw [apply, handleAnnouncement, hread]
    simp only [addDiscoveredPeer, hlocal, hhashable, not_true_eq_false, Bool.false_eq_true, if_false, Option.getD_some]

theorem apply_unannounced {peers : Peers} {messageData : List UInt8} {announcedNs lastSeen : Int}
    (h : ∀ peer, ¬Announces localPeerId peer (.announce messageData announcedNs lastSeen)) :
    apply localPeerId peers (.announce messageData announcedNs lastSeen) = peers := by
  rw [apply, handleAnnouncement]
  cases hread : readAnnouncement messageData announcedNs lastSeen with
  | none => rfl
  | some peer =>
    simp only [addDiscoveredPeer]
    split
    next => rfl
    next hlocal =>
      split
      next => rfl
      next hhashable => exact absurd ⟨hread, Bool.eq_false_iff.mpr hlocal, not_not.mp hhashable⟩ (h peer)

/-- What another peer announces of itself is read as it is. -/
theorem announces_announcement {peerId address : String} (hother : peerId ≠ localPeerId) (capabilities : List String)
    (nowNs announcedNs lastSeen : Int) :
    Announces localPeerId ⟨.str peerId, .str address, .arr (capabilities.map .str), .int nowNs, lastSeen⟩
      (.announce (announcement peerId address capabilities nowNs) announcedNs lastSeen) := by
  refine ⟨?_, decide_eq_false hother, rfl⟩
  have hwell : (Json.obj [("peer_id", .str peerId), ("address", .str address), ("capabilities", .arr (capabilities.map .str)),
      ("announced_at", .int nowNs)]).wellFormed = true := by
    refine Json.wellFormedFields_iff.mpr ⟨by simp only [List.map_cons, List.map_nil]; decide, ?_⟩
    simp only [List.forall_mem_cons]
    refine ⟨rfl, rfl, Json.wellFormedItems_iff.mpr ?_, rfl, List.forall_mem_nil _⟩
    exact List.forall_mem_map.mpr fun _ _ => rfl
  rw [readAnnouncement, announcement, decodeUtf8_encodeUtf8]
  simp only [bind, Option.bind, Json.loads_write rfl Json.defaultStyle_readable _ hwell]
  rfl

theorem announces_unique {event : PeerEvent} {peer other : PeerInfo} (h : Announces localPeerId peer event)
    (h' : Announces localPeerId other event) : peer = other := by
  cases event with
  | removeStale now => exact h.elim
  | announce messageData announcedNs lastSeen => exact Option.some.inj (h.1.symm.trans h'.1)

theorem keyed_run (events : List PeerEvent) : Keyed (run localPeerId events) := by
  induction events using List.reverseRecOn with
  | nil => exact ⟨nofun, List.Pairwise.nil⟩
  | append_singleton events event ih =>
    rw [run, List.foldl_append]
    show Keyed (apply localPeerId (run localPeerId events) event)
    cases event with
    | removeStale now =>
      rw [apply, ih.removeStalePeers now]
      exact ⟨fun entry hentry => ih.keys entry (List.mem_filter.mp hentry).1, ih.distinct.filter _⟩
    | announce messageData announcedNs lastSeen =>
      by_cases h : ∃ peer, Announces localPeerId peer (.announce messageData announcedNs lastSeen)
      · obtain ⟨peer, hpeer⟩ := h
        rw [apply_announced hpeer]
        exact ih.set hpeer.2.2
      · rw [apply_unannounced fun peer hpeer => h ⟨peer, hpeer⟩]
        exact ih

theorem heard_concat {event : PeerEvent} {peer : PeerInfo} : Heard localPeerId (events ++ [event]) peer ↔
    Announces localPeerId peer event ∨ (¬Drops localPeerId peer event ∧ Heard localPeerId events peer) := by
  constructor
  · intro ⟨after, h⟩
    obtain ⟨_, hannounces⟩ | ⟨rest, _, hdrops, hrest⟩ := since_concat.mp h
    · exact Or.inl hannounces
    · exact Or.inr ⟨hdrops, rest, hrest⟩
  · rintro (hannounces | ⟨hdrops, rest, hrest⟩)
    · exact ⟨[], since_concat.mpr (Or.inl ⟨rfl, hannounces⟩)⟩
    · exact ⟨rest ++ [event], since_concat.mpr (Or.inr ⟨rest, rfl, hdrops, hrest⟩)⟩

theorem peers_mem_iff {peer : PeerInfo} :
    peer ∈ (run localPeerId events).getAllPeers ↔ Heard localPeerId events peer := by
  induction events using List.reverseRecOn with
  | nil => exact iff_of_false nofun fun ⟨after, h⟩ => not_since_nil h
  | append_singleton events event ih =>
    have hkeyed : Keyed (run localPeerId events) := keyed_run events
    rw [heard_concat, ← ih, run, List.foldl_append]
    show peer ∈ (apply localPeerId (run localPeerId events) event).getAllPeers ↔ _
    cases event with
    | removeStale now =>
      have hdrops : Drops localPeerId peer (.removeStale now) ↔ Peers.isStale now peer = true := by
        constructor
        · rintro (⟨other, hother, _⟩ | ⟨now', he, hlate⟩)
          · exact hother.elim
          · cases he
            exact decide_eq_true hlate
        · exact fun h => Or.inr ⟨now, rfl, of_decide_eq_true h⟩
      rw [hdrops, apply, hkeyed.removeStalePeers now, or_iff_right (show ¬Announces localPeerId peer (.removeStale now) from id)]
      simp only [Peers.getAllPeers, List.mem_map, List.mem_filter, Bool.not_eq_true']
      constructor
      · rintro ⟨entry, ⟨hentry, hfresh⟩, rfl⟩
        exact ⟨Bool.eq_false_iff.mp hfresh, entry, hentry, rfl⟩
      · rintro ⟨hfresh, entry, hentry, rfl⟩
        exact ⟨entry, ⟨hentry, Bool.eq_false_iff.mpr hfresh⟩, rfl⟩
    | announce messageData announcedNs lastSeen =>
      by_cases h : ∃ named, Announces localPeerId named (.announce messageData announcedNs lastSeen)
      · obtain ⟨named, hnamed⟩ := h
        have hsame : Announces localPeerId peer (.announce messageData announcedNs lastSeen) ↔ peer = named :=
          ⟨fun hpeer => announces_unique hpeer hnamed, fun he => he ▸ hnamed⟩
        have hdrops : Drops localPeerId peer (.announce messageData announcedNs lastSeen) ↔ isKey named.peerId peer.peerId = true := by
          constructor
          · rintro (⟨other, hother, hkey⟩ | ⟨now, he, _⟩)
            · rw [announces_unique hnamed hother]
              exact hkey
            · cases he
          · exact fun hkey => Or.inl ⟨named, hnamed, hkey⟩
        rw [apply_announced hnamed, hkeyed.mem_set hnamed.2.2, hsame, hdrops, Bool.not_eq_true, and_comm]
      · have hnone : ∀ named, ¬Announces localPeerId named (.announce messageData announcedNs lastSeen) := fun named hnamed => h ⟨named, hnamed⟩
        have hdrops : ¬Drops localPeerId peer (.announce messageData announcedNs lastSeen) := by
          rintro (⟨other, hother, _⟩ | ⟨now, he, _⟩)
          · exact hnone other hother
          · cases he
        rw [apply_unannounced hnone, or_iff_right (hnone peer), and_iff_right hdrops]

theorem nodup_getAllPeers (events : List PeerEvent) : (run localPeerId events).getAllPeers.Pairwise fun a b => isKey a.peerId b.peerId = false := by
  obtain ⟨hkeys, hdistinct⟩ : Keyed (run localPeerId events) := keyed_run events
  refine List.pairwise_map.mpr (hdistinct.imp_of_mem fun ha hb hapart => Bool.eq_false_iff.mpr fun hboth => ?_)
  obtain ⟨hka, hida, hsamea⟩ := hkeys _ ha
  obtain ⟨hkb, hidb, hsameb⟩ := hkeys _ hb
  have hback := (isKey_comm hidb hkb).trans hsameb
  rw [isKey_trans hka hida hsamea (isKey_trans hida hidb hboth hback)] at hapart
  cases hapart

/-- The peers known after any messages and removals are those heard of, each as announced
last under its key, and not for too long ago at a removal since; no key is known twice. -/
theorem peers_exact (localPeerId : String) (events : List PeerEvent) :
    (∀ peer, peer ∈ (run localPeerId events).getAllPeers ↔ Heard localPeerId events peer) ∧
      (run localPeerId events).getAllPeers.Pairwise fun a b => isKey a.peerId b.peerId = false :=
  ⟨fun _ => peers_mem_iff, nodup_getAllPeers events⟩

/-- A peer that announces itself is found as it announced itself, until its announcement is dropped. -/
theorem announced_peer_found {peerId address : String} (hother : peerId ≠ localPeerId) (capabilities : List String)
    (nowNs announcedNs lastSeen : Int) (before after : List PeerEvent)
    (hafter : ∀ event ∈ after, ¬Drops localPeerId ⟨.str peerId, .str address, .arr (capabilities.map .str), .int nowNs, lastSeen⟩ event) :
    ⟨.str peerId, .str address, .arr (capabilities.map .str), .int nowNs, lastSeen⟩ ∈
      (run localPeerId (before ++ .announce (announcement peerId address capabilities nowNs) announcedNs lastSeen :: after)).discoverPeers
        localPeerId := by
  have hannounces := @announces_announcement _ _ address hother capabilities nowNs announcedNs lastSeen
  refine List.mem_filter.mpr ⟨peers_mem_iff.mpr ⟨after, before, _, rfl, hannounces, hafter⟩, ?_⟩
  rw [hannounces.2.1]
  rfl

/-- Values in which nothing can be looked for. -/
def Scalar : Json → Prop
  | .null | .bool _ | .int _ | .float _ => True
  | .str _ | .arr _ | .obj _ => False

theorem hasCapability_error_iff {capability : String} {capabilities : Json} :
    (∃ e, hasCapability capability capabilities = .error e) ↔ Scalar capabilities := by
  cases capabilities with
  | str | arr | obj => exact iff_of_false (fun ⟨_, h⟩ => nomatch h) id
  | null | bool | int | float => exact iff_of_true ⟨_, rfl⟩ trivial

/-- A query for a capability finds the peers heard of that have it, unless one of them was
announced with capabilities that are none; then every query raises. -/
theorem capability_query_exact (localPeerId : String) (events : List PeerEvent) (capability : String) :
    ((∃ e, getPeersWithCapability capability (run localPeerId events) = .error e) ↔
      ∃ peer, Heard localPeerId events peer ∧ Scalar peer.capabilities) ∧
    ∀ found, getPeersWithCapability capability (run localPeerId events) = .ok found → ∀ peer,
      peer ∈ found ↔ Heard localPeerId events peer ∧ hasCapability capability peer.capabilities = .ok true := by
  constructor
  · rw [getPeersWithCapability, keepWhere_error_iff]
    simp only [hasCapability_error_iff, peers_mem_iff]
  · intro found h peer
    rw [← peers_mem_iff]
    constructor
    · exact (keepWhere_ok h).1 peer
    · intro ⟨hknown, hhas⟩
      exact mem_keepWhere h hknown hhas

end Runs

end AgentNetwork.Plan.PeerDiscovery
