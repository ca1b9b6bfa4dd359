import AgentNetwork.Library.ListSet
import AgentNetwork.Library.PythonBytes
import AgentNetwork.Library.StableSort
import AgentNetwork.Library.Table
import AgentNetwork.Policy.Envelope
import Mathlib.Algebra.Order.Ring.Rat

/-! The gossip router with its mesh, its cache of seen messages and its heartbeat. -/

namespace AgentNetwork.P2P

open Relational Policy StableSort

/-- What a message is known by. -/
structure MessageKey where
  topic : String
  data : List UInt8
  fromPeer : String
  sequence : Int
  deriving DecidableEq

/-- The text that the identifier of a message is computed from. -/
def MessageKey.text (key : MessageKey) : String :=
  key.topic ++ Python.hex key.data ++ key.fromPeer ++ toString key.sequence

/-- `hashlib.sha256(...).hexdigest()[:16]`. -/
def shortDigest (p : Primitives) (text : String) : String := String.ofList ((p.sha256Hex text).toList.take 16)

structure GossipsubMessage where
  msgId : String
  topic : String
  data : List UInt8
  fromPeer : String
  sequence : Int
  timestamp : ℚ
  deriving DecidableEq

namespace GossipsubMessage

def key (msg : GossipsubMessage) : MessageKey := ⟨msg.topic, msg.data, msg.fromPeer, msg.sequence⟩

def text (msg : GossipsubMessage) : String := msg.key.text

/-- `create`, at the time `now`. -/
def create (p : Primitives) (topic : String) (data : List UInt8) (fromPeer : String) (sequence : Int) (now : ℚ) :
    GossipsubMessage :=
  { msgId := shortDigest p (MessageKey.text ⟨topic, data, fromPeer, sequence⟩)
    topic := topic
    data := data
    fromPeer := fromPeer
    sequence := sequence
    timestamp := now }

/-- A message that carries the identifier that `create` gives it. -/
def Made (p : Primitives) (msg : GossipsubMessage) : Prop := msg.msgId = shortDigest p msg.text

end GossipsubMessage

structure PeerScore where
  peerId : String
  score : ℚ
  messagesDelivered : Int
  messagesInvalid : Int
  lastSeen : ℚ
  deriving DecidableEq

def PeerScore.new (peerId : String) (now : ℚ) : PeerScore := ⟨peerId, 0, 0, 0, now⟩

/-- `update_score`: a peer that was not seen for a minute loses a tenth. -/
def PeerScore.updateScore (s : PeerScore) (now : ℚ) : PeerScore :=
  let score : ℚ := s.messagesDelivered - s.messagesInvalid * 2
  { s with score := if 60 < now - s.lastSeen then score * (9 / 10) else score }

def desired : Nat := 6
def desiredLow : Nat := 4
def desiredHigh : Nat := 12
def heartbeatInterval : ℚ := 1
def seenMsgTtl : ℚ := 120

/-- The router over the handlers it is given; a handler takes a message's data. -/
structure GossipsubRouter (κ : Type) where
  p2pNode : Option String
  subscriptions : Table String (List κ)
  mesh : Table String (ListSet String)
  fanout : Table String (ListSet String)
  seenMessages : Table String GossipsubMessage
  peerScores : Table String PeerScore
  peers : ListSet String
  sequence : Int
  lastHeartbeat : ℚ

namespace GossipsubRouter

variable {κ : Type}

/-- A router made at the time `now` for a node with the given peer id, or for none. -/
def new (p2pNode : Option String) (now : ℚ) : GossipsubRouter κ :=
  { p2pNode := p2pNode
    subscriptions := .empty
    mesh := .empty
    fanout := .empty
    seenMessages := .empty
    peerScores := .empty
    peers := .empty
    sequence := 0
    lastHeartbeat := now }

def handlers (router : GossipsubRouter κ) (topic : String) : List κ := (router.subscriptions.get? topic).getD []

def addPeer (router : GossipsubRouter κ) (peerId : String) (now : ℚ) : GossipsubRouter κ :=
  if peerId ∈ router.peers then router
  else
    { router with
      peers := router.peers.add peerId
      peerScores := router.peerScores.upsert peerId (.new peerId now) }

def removePeer (router : GossipsubRouter κ) (peerId : String) : GossipsubRouter κ :=
  if peerId ∈ router.peers then
    { router with
      peers := router.peers.filter (· ≠ peerId)
      mesh := router.mesh.mapRows fun _ peers => peers.filter (· ≠ peerId)
      fanout := router.fanout.mapRows fun _ peers => peers.filter (· ≠ peerId) }
  else router

def scoreOf (router : GossipsubRouter κ) (peerId : String) : ℚ := ((router.peerScores.get? peerId).map (·.score)).getD 0

/-- `_select_peers_for_mesh`: the peers of the best scores. -/
def selectPeersForMesh (router : GossipsubRouter κ) : ListSet String :=
  ListSet.empty.addAll ((sortOn (fun peerId => -router.scoreOf peerId) router.peers.elems).take desired)

def joinMesh (router : GossipsubRouter κ) (topic : String) : GossipsubRouter κ :=
  { router with mesh := router.mesh.upsert topic router.selectPeersForMesh }

def leaveMesh (router : GossipsubRouter κ) (topic : String) : GossipsubRouter κ :=
  { router with mesh := router.mesh.erase topic }

/-- The handlers of a topic once one more has subscribed to it. -/
def withHandler [DecidableEq κ] (router : GossipsubRouter κ) (topic : String) (handler : κ) : List κ :=
  if handler ∈ router.handlers topic then router.handlers topic else router.handlers topic ++ [handler]

def subscribe [DecidableEq κ] (router : GossipsubRouter κ) (topic : String) (handler : κ) : GossipsubRouter κ :=
  let router := { router with subscriptions := router.subscriptions.upsert topic (router.withHandler topic handler) }
  if router.mesh.contains topic then router else router.joinMesh topic

/-- The handlers of a topic once one of them, or all of them, are taken away. -/
def withoutHandler [DecidableEq κ] (router : GossipsubRouter κ) (topic : String) : Option κ → List κ
  | some handler => (router.handlers topic).erase handler
  | none => []

def unsubscribe [DecidableEq κ] (router : GossipsubRouter κ) (topic : String) (handler : Option κ) : GossipsubRouter κ :=
  let router := { router with subscriptions := router.subscriptions.upsert topic (router.withoutHandler topic handler) }
  if router.handlers topic = [] ∧ router.mesh.contains topic then router.leaveMesh topic else router

/-- The message that `publish` makes. -/
def nextMessage (p : Primitives) (router : GossipsubRouter κ) (topic : String) (message : List UInt8) (now : ℚ) :
    GossipsubMessage :=
  .create p topic message (router.p2pNode.getD "local") (router.sequence + 1) now

/-- `publish`, with the handlers that are called with the data. A topic outside
the mesh gets a fanout. -/
def publish (p : Primitives) (router : GossipsubRouter κ) (topic : String) (message : List UInt8) (now : ℚ) :
    GossipsubRouter κ × List κ :=
  let msg := router.nextMessage p topic message now
  let fanout :=
    if router.mesh.contains topic ∨ router.fanout.contains topic then router.fanout
    else router.fanout.upsert topic router.selectPeersForMesh
  ({ router with
      sequence := router.sequence + 1
      seenMessages := router.seenMessages.upsert msg.msgId msg
      fanout := fanout }, router.handlers topic)

/-- One more message delivered by a peer. -/
def creditPeer (router : GossipsubRouter κ) (peerId : String) (now : ℚ) : Table String PeerScore :=
  router.peerScores.modify peerId fun s =>
    { s with messagesDelivered := s.messagesDelivered + 1, lastSeen := now }.updateScore now

/-- `handle_message`, with the handlers that are called with the data. A message
whose identifier is in the cache is dropped. -/
def handleMessage (router : GossipsubRouter κ) (msg : GossipsubMessage) (now : ℚ) : GossipsubRouter κ × List κ :=
  if router.seenMessages.contains msg.msgId then (router, [])
  else
    ({ router with
        seenMessages := router.seenMessages.upsert msg.msgId msg
        peerScores := router.creditPeer msg.fromPeer now }, router.handlers msg.topic)

/-- The peers of one topic after a heartbeat. -/
def maintainMesh (router : GossipsubRouter κ) (peers : ListSet String) : ListSet String :=
  if peers.elems.length < desiredLow then
    let additional := router.selectPeersForMesh.diff peers
    peers.addAll (additional.elems.take (desired - peers.elems.length))
  else if desiredHigh < peers.elems.length then
    let sortedPeers := sortOn router.scoreOf peers.elems
    peers.filter fun peerId => peerId ∉ sortedPeers.take (peers.elems.length - desired)
  else peers

/-- Whether a heartbeat at the time `now` does anything. -/
def heartbeatDue (router : GossipsubRouter κ) (now : ℚ) : Bool := ¬now - router.lastHeartbeat < heartbeatInterval

/-- `heartbeat`: the cache goes by the time stamps that the messages carry. -/
def heartbeat (router : GossipsubRouter κ) (now : ℚ) : GossipsubRouter κ :=
  if router.heartbeatDue now then
    let cutoffTime := now - seenMsgTtl
    { router with
      lastHeartbeat := now
      mesh := router.mesh.mapRows fun _ peers => router.maintainMesh peers
      seenMessages := router.seenMessages.keep fun _ msg => ¬msg.timestamp < cutoffTime }
  else router

variable {p : Primitives} {router : GossipsubRouter κ}

section Frames

variable [DecidableEq κ]

theorem subscribe_frame (topic : String) (handler : κ) :
    (router.subscribe topic handler).subscriptions = router.subscriptions.upsert topic (router.withHandler topic handler) ∧
    (router.subscribe topic handler).seenMessages = router.seenMessages := by
  simp [subscribe, joinMesh, apply_ite GossipsubRouter.subscriptions, apply_ite GossipsubRouter.seenMessages]

theorem unsubscribe_frame (topic : String) (handler : Option κ) :
    (router.unsubscribe topic handler).subscriptions =
      router.subscriptions.upsert topic (router.withoutHandler topic handler) ∧
    (router.unsubscribe topic handler).seenMessages = router.seenMessages := by
  simp [unsubscribe, leaveMesh, apply_ite GossipsubRouter.subscriptions, apply_ite GossipsubRouter.seenMessages]

end Frames

/-- Peers come and go without a trace in the subscriptions and the cache. -/
theorem addPeer_frame (peerId : String) (now : ℚ) : (router.addPeer peerId now).subscriptions = router.subscriptions ∧
    (router.addPeer peerId now).seenMessages = router.seenMessages := by
  unfold addPeer
  split <;> exact ⟨rfl, rfl⟩

theorem removePeer_frame (peerId : String) : (router.removePeer peerId).subscriptions = router.subscriptions ∧
    (router.removePeer peerId).seenMessages = router.seenMessages := by
  unfold removePeer
  split <;> exact ⟨rfl, rfl⟩

/-- The two things that a received message can meet with. -/
theorem handleMessage_cases (router : GossipsubRouter κ) (msg : GossipsubMessage) (now : ℚ) :
    (router.seenMessages.contains msg.msgId = true ∧ router.handleMessage msg now = (router, [])) ∨
    (router.seenMessages.contains msg.msgId = false ∧ (router.handleMessage msg now).2 = router.handlers msg.topic ∧
      (router.handleMessage msg now).1.subscriptions = router.subscriptions ∧
      (router.handleMessage msg now).1.seenMessages = router.seenMessages.upsert msg.msgId msg) := by
  cases hseen : router.seenMessages.contains msg.msgId with
  | true => exact .inl ⟨rfl, by simp [handleMessage, hseen]⟩
  | false => exact .inr ⟨rfl, by simp [handleMessage, hseen]⟩

theorem heartbeat_subscriptions (now : ℚ) : (router.heartbeat now).subscriptions = router.subscriptions := by
  unfold heartbeat
  split <;> rfl

/-- A heartbeat drops just the messages whose time stamp is too old. -/
theorem get?_heartbeat (now : ℚ) (msgId : String) : (router.heartbeat now).seenMessages.get? msgId =
    if router.heartbeatDue now then (router.seenMessages.get? msgId).filter fun msg => ¬msg.timestamp < now - seenMsgTtl
    else router.seenMessages.get? msgId := by
  unfold heartbeat
  split
  · exact Table.get?_keep _ _ _
  · rfl

end GossipsubRouter

end AgentNetwork.P2P
