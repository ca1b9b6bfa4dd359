import AgentNetwork.Library.JsonSorted
import AgentNetwork.Bus.HybridBus

/-! The bus over gossip topics: how subjects become topics, the router, and the
bus on top of it. Which peers of the mesh a message would go to is only logged. -/

namespace AgentNetwork.Bus

open Relational Policy

/-- A topic `/swarm/thread/<thread id>/<verb>`. -/
structure SwarmTopic where
  threadId : String
  verb : String

def SwarmTopic.text (topic : SwarmTopic) : String := "/swarm/thread/" ++ topic.threadId ++ "/" ++ topic.verb

def createThreadTopic (threadId verb : String) : String := (SwarmTopic.mk threadId verb).text

structure GossipsubMessage where
  msgId : String
  topic : String
  data : String
  fromPeer : String
  sequence : Nat

/-- `data.hex()` of ASCII text. -/
def hexData (data : String) : String := String.ofList (data.toList.flatMap fun c => Python.hexText 2 c.toNat)

/-- `GossipsubMessage.create`. -/
def GossipsubMessage.create (p : Primitives) (topic data fromPeer : String) (sequence : Nat) : GossipsubMessage :=
  let msgStr := topic ++ hexData data ++ fromPeer ++ toString sequence
  { msgId := String.ofList ((p.sha256Hex msgStr).toList.take 16)
    topic := topic
    data := data
    fromPeer := fromPeer
    sequence := sequence }

/-- The router, over the handlers it is given. -/
structure GossipsubRouter (κ : Type) where
  fromPeer : String
  subscriptions : Table String (List κ)
  seenMessages : Table String GossipsubMessage
  sequence : Nat

namespace GossipsubRouter

variable {κ : Type} (p : Primitives)

def new (fromPeer : String) : GossipsubRouter κ :=
  { fromPeer := fromPeer
    subscriptions := .empty
    seenMessages := .empty
    sequence := 0 }

/-- The handlers of a topic; none for a topic that nobody subscribed to. -/
def handlers (router : GossipsubRouter κ) (topic : String) : List κ := (router.subscriptions.get? topic).getD []

/-- `subscribe`. -/
def subscribe [BEq κ] (router : GossipsubRouter κ) (topic : String) (handler : κ) : GossipsubRouter κ :=
  if (router.handlers topic).contains handler then router
  else { router with subscriptions := router.subscriptions.upsert topic (router.handlers topic ++ [handler]) }

/-- `publish`: the message, and the handlers that are called with its data. -/
def publish (router : GossipsubRouter κ) (topic data : String) : GossipsubRouter κ × GossipsubMessage × List κ :=
  let sequence := router.sequence + 1
  let msg := GossipsubMessage.create p topic data router.fromPeer sequence
  ({ router with sequence := sequence, seenMessages := router.seenMessages.upsert msg.msgId msg }, msg,
    router.handlers topic)

/-- `handle_message`: a message that was seen before is dropped. -/
def handleMessage (router : GossipsubRouter κ) (msg : GossipsubMessage) : GossipsubRouter κ × List κ :=
  if router.seenMessages.contains msg.msgId then (router, [])
  else ({ router with seenMessages := router.seenMessages.upsert msg.msgId msg }, router.handlers msg.topic)

end GossipsubRouter

/-- The function that `subscribe_envelopes` hands to the router. Each call makes
a new one, which is equal to itself only. -/
structure GossipsubHandler (η : Type) where
  number : Nat
  handler : η

instance {η : Type} : BEq (GossipsubHandler η) := ⟨fun a b => a.number == b.number⟩

/-- A call of a subscription's handler with what it decoded. -/
structure Delivery (η : Type) where
  number : Nat
  handler : η
  envelope : Json

/-- `gossipsub_handler`; what is no JSON text is logged. -/
def GossipsubHandler.run {η : Type} (h : GossipsubHandler η) (data : String) : List (Delivery η) :=
  match Json.loads data with
  | some envelope => [⟨h.number, h.handler, envelope⟩]
  | none => []

structure P2PBus (η : Type) where
  gossipsub : GossipsubRouter (GossipsubHandler η)
  nextNumber : Nat

namespace P2PBus

variable {η : Type} (p : Primitives) (lower : String → String)

def new (fromPeer : String) : P2PBus η := ⟨.new fromPeer, 0⟩

/-- The topic that an envelope on a subject goes to; `none` where the kind of an
envelope is asked for its lower case and is no text. -/
def publishTopic (envelope : Dict) (subject : String) : Option String :=
  match Subject.parts subject with
  | threadId :: verb :: _ => some (createThreadTopic threadId verb)
  | _ =>
    match getOr envelope "kind" (.str "unknown") with
    | .str kind => some (createThreadTopic subject (lower kind))
    | _ => none

/-- The topic of a subscription. -/
def subscribeTopic (subject : String) : String :=
  match Subject.parts subject with
  | threadId :: verb :: _ => createThreadTopic threadId verb
  | _ => createThreadTopic subject "*"

def deliver (handlers : List (GossipsubHandler η)) (data : String) : List (Delivery η) :=
  handlers.flatMap fun h => h.run data

/-- `publish_envelope`: the message that leaves, and the calls on this node. -/
def publishEnvelope (bus : P2PBus η) (envelope : Dict) (subject : String) :
    Option (P2PBus η × GossipsubMessage × List (Delivery η)) := do
  let topic ← publishTopic lower envelope subject
  let envelopeBytes := sortedDumps envelope
  let (gossipsub, msg, handlers) := bus.gossipsub.publish p topic envelopeBytes
  some ({ bus with gossipsub := gossipsub }, msg, deliver handlers msg.data)

/-- `subscribe_envelopes`. -/
def subscribeEnvelopes (bus : P2PBus η) (subscription : Subscription η) : P2PBus η :=
  let gossipsubHandler : GossipsubHandler η := ⟨bus.nextNumber, subscription.handler⟩
  { gossipsub := bus.gossipsub.subscribe (subscribeTopic subscription.subject) gossipsubHandler
    nextNumber := bus.nextNumber + 1 }

/-- A message from a peer, and the calls it leads to. -/
def receive (bus : P2PBus η) (msg : GossipsubMessage) : P2PBus η × List (Delivery η) :=
  let (gossipsub, handlers) := bus.gossipsub.handleMessage msg
  ({ bus with gossipsub := gossipsub }, deliver handlers msg.data)

end P2PBus

end AgentNetwork.Bus
