import AgentNetwork.Bus.P2PBus
import Mathlib.Data.List.Induction

namespace AgentNetwork.Bus

open Relational Policy

section P2PDelivery

variable {η : Type} (p : Primitives) (lower : String → String)

/-- A bus that has come about by subscribing, publishing and receiving, and the
subscriptions made on it. -/
inductive P2PBus.Reached : P2PBus η → List (Subscription η) → Prop
  | new (fromPeer : String) : Reached (.new fromPeer) []
  | subscribe {bus : P2PBus η} {subscriptions : List (Subscription η)} (h : Reached bus subscriptions)
      (subscription : Subscription η) : Reached (bus.subscribeEnvelopes subscription) (subscriptions ++ [subscription])
  | publish {bus bus' : P2PBus η} {subscriptions : List (Subscription η)} {envelope : Dict} {subject : String}
      {msg : GossipsubMessage} {deliveries : List (Delivery η)} (h : Reached bus subscriptions)
      (hp : bus.publishEnvelope p lower envelope subject = some (bus', msg, deliveries)) : Reached bus' subscriptions
  | receive {bus : P2PBus η} {subscriptions : List (Subscription η)} (h : Reached bus subscriptions)
      (msg : GossipsubMessage) : Reached (bus.receive msg).1 subscriptions

def handlerOf (entry : Subscription η × Nat) : GossipsubHandler η := ⟨entry.2, entry.1.handler⟩

/-- The router holds the subscriptions under their topics, numbered in order. -/
structure P2PBus.Routes (bus : P2PBus η) (subscriptions : List (Subscription η)) : Prop where
  nextNumber : bus.nextNumber = subscriptions.length
  handlers : ∀ topic, bus.gossipsub.handlers topic =
    (subscriptions.zipIdx.filter fun entry => P2PBus.subscribeTopic entry.1.subject = topic).map handlerOf

theorem P2PBus.Routes.subscribe {bus : P2PBus η} {subscriptions : List (Subscription η)}
    (h : bus.Routes subscriptions) (subscription : Subscription η) :
    (bus.subscribeEnvelopes subscription).Routes (subscriptions ++ [subscription]) := by
  have hfresh : (bus.gossipsub.handlers (P2PBus.subscribeTopic subscription.subject)).contains
      (⟨bus.nextNumber, subscription.handler⟩ : GossipsubHandler η) = false := by
    rw [h.handlers, List.contains_eq_any_beq, List.any_eq_false]
    intro handler hmem
    obtain ⟨entry, hentry, rfl⟩ := List.mem_map.mp hmem
    have hlt := (List.mem_zipIdx (List.mem_filter.mp hentry).1).2.1
    have hne : bus.nextNumber ≠ entry.2 := by
      have := h.nextNumber
      omega
    show ¬(bus.nextNumber == entry.2) = true
    rw [beq_iff_eq]
    exact hne
  constructor
  · simp [P2PBus.subscribeEnvelopes, h.nextNumber]
  · intro topic
    have hlast : (subscriptions ++ [subscription]).zipIdx =
        subscriptions.zipIdx ++ [(subscription, bus.nextNumber)] := by
      rw [List.zipIdx_append, h.nextNumber]
      simp
    rw [hlast, List.filter_append, List.map_append, ← h.handlers topic]
    simp only [P2PBus.subscribeEnvelopes, GossipsubRouter.subscribe, hfresh, Bool.false_eq_true, if_false]
    by_cases ht : P2PBus.subscribeTopic subscription.subject = topic
    · subst ht
      simp [GossipsubRouter.handlers, handlerOf]
    · have ht' : topic ≠ P2PBus.subscribeTopic subscription.subject := Ne.symm ht
      simp [GossipsubRouter.handlers, ht, ht']

theorem publishEnvelope_eq_some (bus : P2PBus η) {envelope : Dict} {subject topic : String}
    (h : P2PBus.publishTopic lower envelope subject = some topic) : ∃ bus' msg,
    bus.publishEnvelope p lower envelope subject =
      some (bus', msg, P2PBus.deliver (bus.gossipsub.handlers topic) (sortedDumps envelope)) ∧
    msg.topic = topic ∧ msg.data = sortedDumps envelope ∧ bus'.nextNumber = bus.nextNumber ∧
    bus'.gossipsub.subscriptions = bus.gossipsub.subscriptions := by
  simp only [P2PBus.publishEnvelope, h]
  exact ⟨_, _, rfl, rfl, rfl, rfl, rfl⟩

theorem P2PBus.Routes.of_same {bus bus' : P2PBus η} {subscriptions : List (Subscription η)}
    (h : bus.Routes subscriptions) (hnumber : bus'.nextNumber = bus.nextNumber)
    (hsame : bus'.gossipsub.subscriptions = bus.gossipsub.subscriptions) : bus'.Routes subscriptions := by
  refine ⟨hnumber.trans h.nextNumber, fun topic => ?_⟩
  rw [← h.handlers topic, GossipsubRouter.handlers, GossipsubRouter.handlers, hsame]

theorem receive_routes {bus : P2PBus η} (msg : GossipsubMessage) :
    (bus.receive msg).1.nextNumber = bus.nextNumber ∧
    (bus.receive msg).1.gossipsub.subscriptions = bus.gossipsub.subscriptions := by
  cases hseen : bus.gossipsub.seenMessages.contains msg.msgId with
  | true => simp [P2PBus.receive, GossipsubRouter.handleMessage, hseen]
  | false => simp [P2PBus.receive, GossipsubRouter.handleMessage, hseen]

theorem P2PBus.Reached.routes {bus : P2PBus η} {subscriptions : List (Subscription η)}
    (h : P2PBus.Reached p lower bus subscriptions) : bus.Routes subscriptions := by
  induction h with
  | new fromPeer =>
    refine ⟨rfl, fun topic => ?_⟩
    rfl
  | subscribe _ subscription ih => exact ih.subscribe subscription
  | @publish bus _ _ envelope subject _ _ _ hp ih =>
    cases htopic : P2PBus.publishTopic lower envelope subject with
    | none =>
      simp [P2PBus.publishEnvelope, htopic] at hp
    | some topic =>
      obtain ⟨bus', msg, hpublish, _, _, hnumber, hsame⟩ := publishEnvelope_eq_some p lower bus htopic
      rw [hpublish] at hp
      cases hp
      exact ih.of_same hnumber hsame
  | receive _ msg ih => exact ih.of_same (receive_routes msg).1 (receive_routes msg).2

def deliveryOf (envelope : Dict) (entry : Subscription η × Nat) : Delivery η :=
  ⟨entry.2, entry.1.handler, Json.sorted (.obj envelope)⟩

/-- The calls of a bus that goes by the subjects: one for each subscription whose
subject or pattern matches. -/
def subjectDeliveries (subscriptions : List (Subscription η)) (envelope : Dict) (subject : String) : List (Delivery η) :=
  (subscriptions.zipIdx.filter fun entry => Subject.covers entry.1.subject subject).map (deliveryOf envelope)

def topicDeliveries (subscriptions : List (Subscription η)) (envelope : Dict) (topic : String) : List (Delivery η) :=
  (subscriptions.zipIdx.filter fun entry => P2PBus.subscribeTopic entry.1.subject = topic).map (deliveryOf envelope)

theorem P2PBus.Routes.deliver {bus : P2PBus η} {subscriptions : List (Subscription η)} (h : bus.Routes subscriptions)
    {envelope : Dict} (hw : Json.wellFormedFields envelope = true) (topic : String) :
    P2PBus.deliver (bus.gossipsub.handlers topic) (sortedDumps envelope) =
      topicDeliveries subscriptions envelope topic := by
  have hread : Json.loads (sortedDumps envelope) = some (Json.sorted (.obj envelope)) :=
    Json.loads_write_sorted Json.defaultStyle_readable (.obj envelope) hw
  rw [h.handlers topic, P2PBus.deliver, List.flatMap_map, topicDeliveries]
  simp only [GossipsubHandler.run, hread, handlerOf]
  exact List.map_eq_flatMap.symm

/-- Entries of a numbered list that lead to one call are the same. -/
theorem deliveryOf_inj {subscriptions : List (Subscription η)} {envelope : Dict} {entry other : Subscription η × Nat}
    (hentry : entry ∈ subscriptions.zipIdx) (hother : other ∈ subscriptions.zipIdx)
    (h : deliveryOf envelope entry = deliveryOf envelope other) : entry = other := by
  have hnumber : entry.2 = other.2 := congrArg Delivery.number h
  have hget := List.mem_zipIdx_iff_getElem?.mp hentry
  have hget' := List.mem_zipIdx_iff_getElem?.mp hother
  rw [hnumber, hget'] at hget
  exact Prod.ext (Option.some.inj hget).symm hnumber

theorem mem_map_deliveryOf_filter {subscriptions : List (Subscription η)} (envelope : Dict)
    (chosen : Subscription η × Nat → Bool) {entry : Subscription η × Nat} (hentry : entry ∈ subscriptions.zipIdx) :
    deliveryOf envelope entry ∈ (subscriptions.zipIdx.filter chosen).map (deliveryOf envelope) ↔ chosen entry = true := by
  constructor
  · intro hmem
    obtain ⟨other, hother, heq⟩ := List.mem_map.mp hmem
    obtain ⟨hother, hchosen⟩ := List.mem_filter.mp hother
    rw [deliveryOf_inj hentry hother heq.symm]
    exact hchosen
  · intro hchosen
    exact List.mem_map_of_mem (List.mem_filter.mpr ⟨hentry, hchosen⟩)

theorem topicDeliveries_eq_iff {subscriptions : List (Subscription η)} {envelope : Dict} {topic subject : String} :
    topicDeliveries subscriptions envelope topic = subjectDeliveries subscriptions envelope subject ↔
      ∀ subscription ∈ subscriptions,
        (P2PBus.subscribeTopic subscription.subject = topic ↔ Subject.covers subscription.subject subject = true) := by
  constructor
  · intro h subscription hmem
    obtain ⟨number, hlt, hget⟩ := List.mem_iff_getElem.mp hmem
    have hentry : (subscription, number) ∈ subscriptions.zipIdx :=
      List.mem_zipIdx_iff_getElem?.mpr (List.getElem?_eq_some_iff.mpr ⟨hlt, hget⟩)
    have hleft := mem_map_deliveryOf_filter envelope (fun entry => P2PBus.subscribeTopic entry.1.subject = topic) hentry
    have hright := mem_map_deliveryOf_filter envelope (fun entry => Subject.covers entry.1.subject subject) hentry
    rw [topicDeliveries, subjectDeliveries] at h
    rw [h] at hleft
    simpa using hleft.symm.trans hright
  · intro h
    refine congrArg (List.map (deliveryOf envelope)) (List.filter_congr fun entry hentry => ?_)
    have hsub : entry.1 ∈ subscriptions := List.mem_of_getElem? (List.mem_zipIdx_iff_getElem?.mp hentry)
    rw [Bool.eq_iff_iff, decide_eq_true_eq]
    exact h entry.1 hsub

/-- `thread.<id>.<verb>`. -/
def threadSubject (id verb : String) : String := "thread" ++ "." ++ id ++ "." ++ verb

/-- An id without dots is its first part. -/
def firstPart (id : String) : String := (Subject.parts id).headD ""

/-- The first two parts of a subscription's subject are those of the thread. -/
def NamesThread (id pattern : String) : Prop := (Subject.parts pattern).take 2 = ["thread", firstPart id]

instance (id pattern : String) : Decidable (NamesThread id pattern) :=
  inferInstanceAs (Decidable ((Subject.parts pattern).take 2 = ["thread", firstPart id]))

/-- They read the same once they are put together with a slash; a subject of one
part has `*` for its second. -/
def SpellsThread (id pattern : String) : Prop :=
  match Subject.parts pattern with
  | first :: second :: _ => first ++ "/" ++ second = "thread" ++ "/" ++ firstPart id
  | _ => pattern ++ "/" ++ "*" = "thread" ++ "/" ++ firstPart id

/-- The subscription names the thread word for word and matches the subject, or
it neither matches it nor reads like its thread. -/
def Served (id verb pattern : String) : Prop :=
  (NamesThread id pattern ∧ Subject.covers pattern (threadSubject id verb) = true) ∨
    (¬SpellsThread id pattern ∧ Subject.covers pattern (threadSubject id verb) = false)

theorem parts_threadSubject (id verb : String) : ∃ rest, rest ≠ [] ∧
    Subject.parts (threadSubject id verb) = "thread" :: firstPart id :: rest := by
  have hthread : Subject.parts "thread" = ["thread"] := Subject.parts_of_no_dot (by decide)
  have hverb := Subject.parts_ne_nil verb
  rw [threadSubject, Subject.parts_dot, Subject.parts_dot, hthread]
  cases hid : Subject.parts id with
  | nil => exact absurd hid (Subject.parts_ne_nil id)
  | cons first more =>
    refine ⟨more ++ Subject.parts verb, by simp [hverb], ?_⟩
    simp [firstPart, hid]

theorem createThreadTopic_inj {first second threadId verb : String} :
    createThreadTopic first second = createThreadTopic threadId verb ↔
      first ++ "/" ++ second = threadId ++ "/" ++ verb := by
  change "/swarm/thread/" ++ first ++ "/" ++ second = "/swarm/thread/" ++ threadId ++ "/" ++ verb ↔ _
  rw [String.append_assoc, String.append_assoc, String.append_assoc, String.append_assoc, String.append_right_inj,
    String.append_assoc, String.append_assoc]

theorem publishTopic_threadSubject (envelope : Dict) (id verb : String) :
    P2PBus.publishTopic lower envelope (threadSubject id verb) = some (createThreadTopic "thread" (firstPart id)) := by
  obtain ⟨rest, _, hparts⟩ := parts_threadSubject id verb
  rw [P2PBus.publishTopic, hparts]

theorem subscribeTopic_eq_iff {id pattern : String} :
    P2PBus.subscribeTopic pattern = createThreadTopic "thread" (firstPart id) ↔ SpellsThread id pattern := by
  obtain hone | ⟨first, second, rest, hparts⟩ := Subject.parts_cases pattern
  · simp only [P2PBus.subscribeTopic, SpellsThread, hone]
    exact createThreadTopic_inj
  · simp only [P2PBus.subscribeTopic, SpellsThread, hparts]
    exact createThreadTopic_inj

theorem NamesThread.spells {id pattern : String} (h : NamesThread id pattern) : SpellsThread id pattern := by
  unfold NamesThread at h
  obtain hone | ⟨first, second, rest, hparts⟩ := Subject.parts_cases pattern
  · simp [hone] at h
  · rw [hparts] at h
    simp only [List.take_succ_cons, List.take_zero, List.cons.injEq, and_true] at h
    simp only [SpellsThread, hparts, h.1, h.2]

/-- A pattern that matches a subject of the thread and reads like its thread names it:
`*` and `>` do not read like a name. -/
theorem namesThread_of_covers {id verb pattern : String} (hspells : SpellsThread id pattern)
    (hcovers : Subject.covers pattern (threadSubject id verb) = true) : NamesThread id pattern := by
  obtain ⟨rest, _, hsubject⟩ := parts_threadSubject id verb
  rw [Subject.covers, hsubject] at hcovers
  have hstar : ∀ text : String, "*" ++ "/" ++ text ≠ "thread" ++ "/" ++ firstPart id := by
    intro text heq
    have hchars := congrArg (fun s => s.toList.head?) heq
    simp [String.toList_append] at hchars
  have hall : ">" ++ "/" ++ "*" ≠ "thread" ++ "/" ++ firstPart id := by
    intro heq
    have hchars := congrArg (fun s => s.toList.head?) heq
    simp [String.toList_append] at hchars
  obtain hone | ⟨first, second, more, hparts⟩ := Subject.parts_cases pattern
  · rw [hone] at hcovers
    have hpattern : pattern = ">" := by simpa [Subject.matchParts] using hcovers
    simp only [SpellsThread, hone] at hspells
    rw [hpattern] at hspells
    exact absurd hspells hall
  · simp only [SpellsThread, hparts] at hspells
    rw [hparts] at hcovers
    simp only [Subject.matchParts, List.isEmpty_cons, Bool.and_false, Bool.false_or, Bool.and_eq_true, Bool.or_eq_true,
      decide_eq_true_eq] at hcovers
    rcases hcovers.1 with rfl | rfl
    · exact absurd hspells (hstar second)
    · have hsecond : second = firstPart id := (String.append_right_inj _).mp hspells
      rw [NamesThread, hparts, hsecond]
      rfl

theorem served_iff {id verb pattern : String} : Served id verb pattern ↔
    (P2PBus.subscribeTopic pattern = createThreadTopic "thread" (firstPart id) ↔
      Subject.covers pattern (threadSubject id verb) = true) := by
  rw [subscribeTopic_eq_iff]
  constructor
  · rintro (⟨hnames, hcovers⟩ | ⟨hspells, hcovers⟩)
    · exact ⟨fun _ => hcovers, fun _ => hnames.spells⟩
    · rw [hcovers]
      exact ⟨fun h => absurd h hspells, fun h => by cases h⟩
  · intro hiff
    cases hcovers : Subject.covers pattern (threadSubject id verb) with
    | true => exact Or.inl ⟨namesThread_of_covers (hiff.mpr hcovers) hcovers, hcovers⟩
    | false =>
      refine Or.inr ⟨fun hspells => ?_, hcovers⟩
      have hmatch := hiff.mp hspells
      rw [hcovers] at hmatch
      cases hmatch

theorem receive_unseen {bus : P2PBus η} {msg : GossipsubMessage}
    (h : bus.gossipsub.seenMessages.contains msg.msgId = false) :
    (bus.receive msg).2 = P2PBus.deliver (bus.gossipsub.handlers msg.topic) msg.data := by
  simp [P2PBus.receive, GossipsubRouter.handleMessage, h]

/-- What is published calls, on the node that publishes it and on the peers it
comes to, the handlers whose subject or pattern matches, and no others. -/
def RespectsSubjects (publisher : P2PBus η) (subscriptions : List (Subscription η))
    (peers : List (P2PBus η × List (Subscription η))) (envelope : Dict) (subject : String) : Prop :=
  ∃ publisher' msg, publisher.publishEnvelope p lower envelope subject =
      some (publisher', msg, subjectDeliveries subscriptions envelope subject) ∧
    ∀ peer ∈ peers, (peer.1.receive msg).2 = subjectDeliveries peer.2 envelope subject

/-- The message of a publication has come to none of the peers before. -/
def NewToPeers (publisher : P2PBus η) (peers : List (P2PBus η × List (Subscription η))) (envelope : Dict)
    (subject : String) : Prop :=
  ∀ publisher' msg deliveries,
    publisher.publishEnvelope p lower envelope subject = some (publisher', msg, deliveries) →
    ∀ peer ∈ peers, peer.1.gossipsub.seenMessages.contains msg.msgId = false

/-- Gossip delivery goes by subjects exactly where every subscription is served by
the topic of its first two parts. -/
theorem respectsSubjects_iff {publisher : P2PBus η} {subscriptions : List (Subscription η)}
    {peers : List (P2PBus η × List (Subscription η))} {envelope : Dict} {id verb : String}
    (hpublisher : P2PBus.Reached p lower publisher subscriptions)
    (hpeers : ∀ peer ∈ peers, P2PBus.Reached p lower peer.1 peer.2)
    (hw : Json.wellFormedFields envelope = true)
    (hnew : NewToPeers p lower publisher peers envelope (threadSubject id verb)) :
    RespectsSubjects p lower publisher subscriptions peers envelope (threadSubject id verb) ↔
      (∀ subscription ∈ subscriptions, Served id verb subscription.subject) ∧
        ∀ peer ∈ peers, ∀ subscription ∈ peer.2, Served id verb subscription.subject := by
  obtain ⟨publisher', msg, hpublish, htopic, hdata, _⟩ :=
    publishEnvelope_eq_some p lower publisher (publishTopic_threadSubject lower envelope id verb)
  have hlocal := (hpublisher.routes p lower).deliver hw (createThreadTopic "thread" (firstPart id))
  rw [hlocal] at hpublish
  have hremote : ∀ peer ∈ peers,
      (peer.1.receive msg).2 = topicDeliveries peer.2 envelope (createThreadTopic "thread" (firstPart id)) := by
    intro peer hpeer
    rw [receive_unseen (hnew publisher' msg _ hpublish peer hpeer), htopic, hdata]
    exact ((hpeers peer hpeer).routes p lower).deliver hw _
  have hserved : ∀ subs : List (Subscription η),
      topicDeliveries subs envelope (createThreadTopic "thread" (firstPart id)) =
        subjectDeliveries subs envelope (threadSubject id verb) ↔
      ∀ subscription ∈ subs, Served id verb subscription.subject := by
    intro subs
    rw [topicDeliveries_eq_iff]
    exact forall₂_congr fun _ _ => served_iff.symm
  constructor
  · rintro ⟨_, msg', hexact, hall⟩
    rw [hpublish] at hexact
    obtain ⟨rfl, rfl, hcalls⟩ : publisher' = _ ∧ msg = msg' ∧ _ := by simpa using hexact
    refine ⟨(hserved subscriptions).mp hcalls, fun peer hpeer => (hserved peer.2).mp ?_⟩
    rw [← hremote peer hpeer]
    exact hall peer hpeer
  · rintro ⟨hown, hothers⟩
    refine ⟨publisher', msg, ?_, fun peer hpeer => ?_⟩
    · rw [hpublish, (hserved subscriptions).mpr hown]
    · rw [hremote peer hpeer]
      exact (hserved peer.2).mpr (hothers peer hpeer)

end P2PDelivery

def needEnvelope : Dict := [("id", .str "env-1"), ("kind", .str "NEED")]

/-- A bus with one subscription after another. -/
def subscribed (fromPeer : String) (subscriptions : List (Subscription Nat)) : P2PBus Nat :=
  subscriptions.foldl P2PBus.subscribeEnvelopes (.new fromPeer)

theorem subscribed_reached (p : Primitives) (lower : String → String) (fromPeer : String)
    (subscriptions : List (Subscription Nat)) :
    P2PBus.Reached p lower (subscribed fromPeer subscriptions) subscriptions := by
  induction subscriptions using List.reverseRecOn with
  | nil => exact .new fromPeer
  | append_singleton subscriptions subscription ih =>
    rw [subscribed, List.foldl_append]
    exact .subscribe ih subscription

def servedSubscriptions : List (Subscription Nat) := [⟨"thread.t.*", 0⟩, ⟨"thread.u.need", 1⟩]

theorem respectsSubjects_iff_served :
    RespectsSubjects sampleValues String.toLower (subscribed "a" servedSubscriptions) servedSubscriptions
      [(subscribed "b" servedSubscriptions, servedSubscriptions)] needEnvelope (threadSubject "t" "need") := by
  have hall : ∀ subscription ∈ servedSubscriptions, Served "t" "need" subscription.subject := by
    intro subscription hmem
    simp only [servedSubscriptions, List.mem_cons, List.not_mem_nil, or_false] at hmem
    rcases hmem with rfl | rfl
    · exact Or.inl ⟨by decide +kernel, by decide +kernel⟩
    · refine Or.inr ⟨?_, by decide +kernel⟩
      have hparts : Subject.parts "thread.u.need" = ["thread", "u", "need"] := by decide +kernel
      rw [SpellsThread, hparts]
      decide +kernel
  have hunseen : (subscribed "b" servedSubscriptions).gossipsub.seenMessages = .empty := rfl
  refine (respectsSubjects_iff sampleValues String.toLower (subscribed_reached _ _ "a" _) ?_ (by decide +kernel) ?_).mpr
    ⟨hall, ?_⟩
  · intro peer hpeer
    rw [List.mem_singleton.mp hpeer]
    exact subscribed_reached _ _ "b" _
  · intro _ msg _ _ peer hpeer
    rw [List.mem_singleton.mp hpeer, hunseen]
    rfl
  · intro peer hpeer
    rw [List.mem_singleton.mp hpeer]
    exact hall

/-- A subscription to the needs of all threads, and one to the decisions of one. -/
def missedSubscriptions : List (Subscription Nat) := [⟨"thread.*.need", 0⟩, ⟨"thread.t.decide", 1⟩]

/-- A need published in the thread goes to the handler for decisions, and not to the one for needs. -/
theorem need_reaches_decide_handler :
    Subject.covers "thread.*.need" (threadSubject "t" "need") = true ∧
    Subject.covers "thread.t.decide" (threadSubject "t" "need") = false ∧
    ∃ bus' msg, (subscribed "a" missedSubscriptions).publishEnvelope sampleValues String.toLower
      needEnvelope (threadSubject "t" "need") =
        some (bus', msg, [⟨1, 1, Json.sorted (.obj needEnvelope)⟩]) := by
  refine ⟨by decide +kernel, by decide +kernel, ?_⟩
  obtain ⟨bus', msg, hpublish, _⟩ := publishEnvelope_eq_some sampleValues String.toLower (subscribed "a" missedSubscriptions)
    (publishTopic_threadSubject String.toLower needEnvelope "t" "need")
  have hroutes := (subscribed_reached sampleValues String.toLower "a" missedSubscriptions).routes
  rw [hroutes.deliver (by decide +kernel)] at hpublish
  exact ⟨bus', msg, hpublish⟩

end AgentNetwork.Bus
