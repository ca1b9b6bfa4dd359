import AgentNetwork.Library.Subject
import AgentNetwork.Library.Table
import AgentNetwork.Library.PythonText
import AgentNetwork.Policy.Envelope
import Mathlib.Data.Rat.Defs

/-! The bus over two transports, and the cache that drops what the other transport
has brought already. -/

namespace AgentNetwork.Bus

open Relational Policy

/-- The messages that were seen, the longest unused first, and when each was
added. Times are in seconds; a time less the time to live is exact. -/
structure MessageCache where
  maxSize : Nat
  ttlSeconds : ℚ
  cache : Table String ℚ

namespace MessageCache

def new (maxSize : Nat) (ttlSeconds : ℚ) : MessageCache := ⟨maxSize, ttlSeconds, .empty⟩

/-- `MessageCache()`. -/
def default : MessageCache := .new 10000 300

/-- Pops the oldest entries while there are more than `maxSize`. -/
def evict (maxSize : Nat) (cache : Table String ℚ) : Table String ℚ :=
  ⟨cache.entries.drop (cache.entries.length - maxSize), cache.keysNodup.sublist ((List.drop_sublist ..).map Prod.fst)⟩

/-- `add`: whether the message is new. A known one moves to the end. -/
def add (c : MessageCache) (now : ℚ) (msgId : String) : Bool × MessageCache :=
  match c.cache.get? msgId with
  | some timestamp => (false, { c with cache := (c.cache.erase msgId).upsert msgId timestamp })
  | none => (true, { c with cache := evict c.maxSize (c.cache.upsert msgId now) })

def cleanup (c : MessageCache) (now : ℚ) : MessageCache :=
  { c with
    cache := ⟨c.cache.entries.filter fun entry => ¬entry.2 < now - c.ttlSeconds,
      c.cache.keysNodup.sublist (List.filter_sublist.map Prod.fst)⟩ }

def contains (c : MessageCache) (msgId : String) : Bool := c.cache.contains msgId

end MessageCache

inductive Transport
  | p2p
  | nats
  deriving DecidableEq

/-- What the migration monitor keeps of receptions. -/
structure MigrationMonitor where
  natsReceived : Nat
  p2pReceived : Nat
  duplicateCount : Nat
  messageDelivery : Table String (Transport → Bool)

/-- `record_receive`. -/
def MigrationMonitor.recordReceive (m : MigrationMonitor) (msgId : String) (transport : Transport) : MigrationMonitor :=
  let m := match transport with
    | .nats => { m with natsReceived := m.natsReceived + 1 }
    | .p2p => { m with p2pReceived := m.p2pReceived + 1 }
  let delivery := (m.messageDelivery.get? msgId).getD fun _ => false
  if delivery transport then { m with duplicateCount := m.duplicateCount + 1 }
  else
    { m with
      messageDelivery := m.messageDelivery.upsert msgId fun other => decide (other = transport) || delivery other }

/-- A subject and the handler subscribed to it. -/
structure Subscription (η : Type) where
  subject : String
  handler : η
  deriving DecidableEq

/-- The wrappers that each transport holds, one for every subscription; there
may be no NATS bus. -/
structure HybridBus (η : Type) where
  p2pSubscriptions : List (Subscription η)
  natsSubscriptions : Option (List (Subscription η))
  monitor : MigrationMonitor
  messageCache : MessageCache
  messageCount : Nat

/-- A call of a handler with an envelope. -/
structure Call (η : Type) where
  handler : η
  envelope : Dict
  deriving DecidableEq

/-- A subscription made through the bus, or an envelope that a transport hands to
the wrapper of a subscription, and when. -/
inductive Event (η : Type)
  | subscribe (subscription : Subscription η) (now : ℚ)
  | deliver (transport : Transport) (subscription : Subscription η) (envelope : Dict) (now : ℚ)

namespace Event

def now {η : Type} : Event η → ℚ
  | .subscribe _ now => now
  | .deliver _ _ _ now => now

end Event

def cleanupInterval : Nat := 100

/-- `json.dumps(envelope, sort_keys=True)`. -/
def sortedDumps (envelope : Dict) : String := (Json.obj envelope).write ⟨true, ", ", ": "⟩

namespace HybridBus

variable {η : Type} (p : Primitives) (isPrintable : Char → Bool)

def new (natsBus : Bool) (messageCache : MessageCache) : HybridBus η :=
  { p2pSubscriptions := []
    natsSubscriptions := if natsBus then some [] else none
    monitor := ⟨0, 0, 0, .empty⟩
    messageCache := messageCache
    messageCount := 0 }

/-- The subscriptions whose wrappers a transport holds. -/
def registered (bus : HybridBus η) : Transport → List (Subscription η)
  | .p2p => bus.p2pSubscriptions
  | .nats => bus.natsSubscriptions.getD []

/-- `_compute_msg_id`. -/
def computeMsgId (envelope : Dict) : String :=
  match envelope.lookup "id" with
  | some id => Python.str isPrintable id
  | none => String.ofList ((p.sha256Hex (sortedDumps envelope)).toList.take 16)

/-- `subscribe_envelopes`. -/
def subscribeEnvelopes (bus : HybridBus η) (subscription : Subscription η) (now : ℚ) : HybridBus η :=
  let messageCount := bus.messageCount + 1
  { bus with
    messageCount := messageCount
    messageCache := if messageCount % cleanupInterval = 0 then bus.messageCache.cleanup now else bus.messageCache
    p2pSubscriptions := bus.p2pSubscriptions ++ [subscription]
    natsSubscriptions := bus.natsSubscriptions.map (· ++ [subscription]) }

/-- `deduplicated_handler`, and the call it makes. What the handler raises is logged. -/
def deduplicatedHandler (bus : HybridBus η) (handler : η) (envelope : Dict) (transport : Transport) (now : ℚ) :
    HybridBus η × List (Call η) :=
  let msgId := computeMsgId p isPrintable envelope
  match bus.messageCache.add now msgId with
  | (false, cache) => ({ bus with messageCache := cache }, [])
  | (true, cache) =>
    ({ bus with messageCache := cache, monitor := bus.monitor.recordReceive msgId transport }, [⟨handler, envelope⟩])

def step (bus : HybridBus η) : Event η → HybridBus η × List (Call η)
  | .subscribe subscription now => (bus.subscribeEnvelopes subscription now, [])
  | .deliver transport subscription envelope now =>
    bus.deduplicatedHandler p isPrintable subscription.handler envelope transport now

/-- The bus after the events, and the calls they led to. -/
def run (bus : HybridBus η) : List (Event η) → HybridBus η × List (Call η)
  | [] => (bus, [])
  | event :: rest =>
    let (bus, calls) := bus.step p isPrintable event
    let (bus, later) := bus.run rest
    (bus, calls ++ later)

end HybridBus

end AgentNetwork.Bus
