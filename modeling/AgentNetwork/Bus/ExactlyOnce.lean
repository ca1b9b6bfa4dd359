import AgentNetwork.Bus.HybridBus
import Mathlib.Algebra.Order.Ring.Rat
import Mathlib.Tactic.Linarith
import Mathlib.Data.List.Perm.Subperm

namespace AgentNetwork.Bus

open Relational Policy

namespace MessageCache

theorem evict_eq_self {maxSize : Nat} {cache : Table String ℚ} (h : cache.entries.length ≤ maxSize) :
    evict maxSize cache = cache := by
  have hzero : cache.entries.length - maxSize = 0 := by omega
  simp [evict, hzero]

theorem cleanup_eq_self {c : MessageCache} {now : ℚ} (h : ∀ entry ∈ c.cache.entries, now - c.ttlSeconds ≤ entry.2) :
    c.cleanup now = c := by
  have hall : c.cache.entries.filter (fun entry => ¬entry.2 < now - c.ttlSeconds) = c.cache.entries := by
    rw [List.filter_eq_self]
    intro entry hentry
    have := h entry hentry
    simpa using this
  simp only [cleanup, hall]

/-- The cache holds the messages of a list, all of them added at one of some times. -/
structure Holds (c : MessageCache) (times : List ℚ) (seen : List String) : Prop where
  seen : ∀ msgId, (∃ timestamp, c.cache.get? msgId = some timestamp) ↔ msgId ∈ seen
  addedAt : ∀ msgId timestamp, c.cache.get? msgId = some timestamp → timestamp ∈ times

theorem Holds.length_le {c : MessageCache} {times : List ℚ} {seen ids : List String} (h : c.Holds times seen)
    (hids : ∀ msgId ∈ seen, msgId ∈ ids) : c.cache.entries.length ≤ ids.length := by
  have hsub : c.cache.keys ⊆ ids := by
    intro msgId hmem
    obtain ⟨⟨_, timestamp⟩, hentry, rfl⟩ := List.mem_map.mp hmem
    exact hids _ ((h.seen _).mp ⟨timestamp, Table.get?_eq_some_iff.mpr hentry⟩)
  have hlength := (List.subperm_of_subset c.cache.keysNodup hsub).length_le
  simpa [Table.keys] using hlength

theorem Holds.add_seen {c : MessageCache} {times : List ℚ} {seen : List String} (h : c.Holds times seen)
    {msgId : String} (hseen : msgId ∈ seen) (now : ℚ) :
    ∃ c', c.add now msgId = (false, c') ∧ c'.Holds times seen ∧ c'.maxSize = c.maxSize ∧
      c'.ttlSeconds = c.ttlSeconds := by
  obtain ⟨timestamp, hget⟩ := (h.seen msgId).mpr hseen
  have hsame : ∀ other, ((c.cache.erase msgId).upsert msgId timestamp).get? other = c.cache.get? other := by
    intro other
    by_cases ho : other = msgId
    · simp [ho, hget]
    · simp [ho]
  refine ⟨{ c with cache := (c.cache.erase msgId).upsert msgId timestamp }, by simp [add, hget], ⟨?_, ?_⟩, rfl, rfl⟩
  · intro other
    simp only [hsame]
    exact h.seen other
  · intro other added hother
    exact h.addedAt other added (hsame other ▸ hother)

theorem Holds.add_new {c : MessageCache} {times : List ℚ} {seen ids : List String} (h : c.Holds times seen)
    {msgId : String} (hnew : msgId ∉ seen) (hids : ∀ id ∈ msgId :: seen, id ∈ ids) (hroom : ids.length ≤ c.maxSize)
    {now : ℚ} (hnow : now ∈ times) :
    ∃ c', c.add now msgId = (true, c') ∧ c'.Holds times (msgId :: seen) ∧ c'.maxSize = c.maxSize ∧
      c'.ttlSeconds = c.ttlSeconds := by
  have hget : c.cache.get? msgId = none := by
    rw [Option.eq_none_iff_forall_ne_some]
    exact fun timestamp hsome => hnew ((h.seen msgId).mp ⟨timestamp, hsome⟩)
  have hadded : ({ c with cache := c.cache.upsert msgId now } : MessageCache).Holds times (msgId :: seen) := by
    constructor
    · intro other
      by_cases ho : other = msgId
      · simp [ho]
      · simp [ho, h.seen other]
    · intro other added hother
      rw [Table.get?_upsert] at hother
      split at hother
      next => exact Option.some.inj hother ▸ hnow
      next => exact h.addedAt other added hother
  have hlength := hadded.length_le hids
  refine ⟨{ c with cache := c.cache.upsert msgId now }, ?_, hadded, rfl, rfl⟩
  simp [add, hget, evict_eq_self (Nat.le_trans hlength hroom)]

theorem Holds.cleanup {c : MessageCache} {times : List ℚ} {seen : List String} (h : c.Holds times seen) {now : ℚ}
    (hnow : ∀ added ∈ times, now - c.ttlSeconds ≤ added) : c.cleanup now = c := by
  apply cleanup_eq_self
  intro entry hentry
  exact hnow _ (h.addedAt entry.1 entry.2 (Table.get?_eq_some_iff.mpr hentry))

end MessageCache

section ExactlyOnce

variable {η : Type} (p : Primitives) (isPrintable : Char → Bool)

/-- An envelope and the subject it is published on. -/
structure Publication where
  subject : String
  envelope : Dict

def Publication.msgId (publication : Publication) : String := HybridBus.computeMsgId p isPrintable publication.envelope

/-- The deliveries of some publications, in any order and any number of times: a
transport hands an envelope to wrappers it holds whose subscription covers the
subject, and each such subscription gets it from one of the transports. -/
structure Delivers (bus : HybridBus η) (events : List (Event η)) (publications : List Publication) : Prop where
  distinctIds : (publications.map (Publication.msgId p isPrintable)).Nodup
  room : publications.length ≤ bus.messageCache.maxSize
  withinTtl : ∀ event ∈ events, ∀ later ∈ events, later.now - bus.messageCache.ttlSeconds ≤ event.now
  genuine : ∀ transport subscription envelope now, .deliver transport subscription envelope now ∈ events →
    subscription ∈ (bus.run p isPrintable events).1.registered transport ∧
    ∃ publication ∈ publications, publication.envelope = envelope ∧
      Subject.covers subscription.subject publication.subject = true
  complete : ∀ publication ∈ publications, ∀ subscription ∈ (bus.run p isPrintable events).1.p2pSubscriptions,
    Subject.covers subscription.subject publication.subject = true →
    ∃ transport now, .deliver transport subscription publication.envelope now ∈ events

def Call.msgId (call : Call η) : String := HybridBus.computeMsgId p isPrintable call.envelope

/-- What the calls of a run are, after some messages have been seen. -/
structure CallsOf (seen : List String) (events : List (Event η)) (calls : List (Call η)) : Prop where
  unseen : ∀ call ∈ calls, call.msgId p isPrintable ∉ seen
  once : (calls.map (Call.msgId p isPrintable)).Nodup
  delivered : ∀ transport subscription envelope now, .deliver transport subscription envelope now ∈ events →
    HybridBus.computeMsgId p isPrintable envelope ∈ seen ∨
      HybridBus.computeMsgId p isPrintable envelope ∈ calls.map (Call.msgId p isPrintable)
  genuine : ∀ call ∈ calls, ∃ transport subscription now,
    .deliver transport subscription call.envelope now ∈ events ∧ subscription.handler = call.handler

theorem callsOf_nil (seen : List String) : CallsOf (η := η) p isPrintable seen [] [] := by
  constructor <;> simp

/-- An event that calls no handler: a subscription, or a message seen before. -/
theorem CallsOf.silent {seen : List String} {events : List (Event η)} {calls : List (Call η)} {event : Event η}
    (h : CallsOf p isPrintable seen events calls)
    (hknown : ∀ transport subscription envelope now, event = .deliver transport subscription envelope now →
      HybridBus.computeMsgId p isPrintable envelope ∈ seen) :
    CallsOf p isPrintable seen (event :: events) calls := by
  refine ⟨h.unseen, h.once, ?_, ?_⟩
  · intro transport subscription envelope now hmem
    rcases List.mem_cons.mp hmem with heq | hmem
    · exact Or.inl (hknown transport subscription envelope now heq.symm)
    · exact h.delivered transport subscription envelope now hmem
  · intro call hcall
    obtain ⟨transport, subscription, now, hmem, hhandler⟩ := h.genuine call hcall
    exact ⟨transport, subscription, now, List.mem_cons_of_mem _ hmem, hhandler⟩

/-- A message not seen before leads to one call, and to no other afterwards. -/
theorem CallsOf.call {seen : List String} {events : List (Event η)} {calls : List (Call η)} (transport : Transport)
    (subscription : Subscription η) {envelope : Dict} (now : ℚ)
    (hnew : HybridBus.computeMsgId p isPrintable envelope ∉ seen)
    (h : CallsOf p isPrintable (HybridBus.computeMsgId p isPrintable envelope :: seen) events calls) :
    CallsOf p isPrintable seen (.deliver transport subscription envelope now :: events)
      (⟨subscription.handler, envelope⟩ :: calls) := by
  constructor
  · intro call hcall
    rcases List.mem_cons.mp hcall with rfl | hcall
    · exact hnew
    · exact fun hseen => h.unseen call hcall (List.mem_cons_of_mem _ hseen)
  · rw [List.map_cons, List.nodup_cons]
    refine ⟨?_, h.once⟩
    intro hmem
    obtain ⟨call, hcall, hid⟩ := List.mem_map.mp hmem
    exact h.unseen call hcall (hid ▸ List.mem_cons_self ..)
  · intro transport' subscription' envelope' now' hmem
    rcases List.mem_cons.mp hmem with heq | hmem
    · cases heq
      exact Or.inr (List.mem_cons_self ..)
    · rcases h.delivered _ _ _ _ hmem with hseen | hcalls
      · rcases List.mem_cons.mp hseen with hid | hseen
        · exact Or.inr (hid ▸ List.mem_cons_self ..)
        · exact Or.inl hseen
      · exact Or.inr (List.mem_cons_of_mem _ hcalls)
  · intro call hcall
    rcases List.mem_cons.mp hcall with rfl | hcall
    · exact ⟨transport, subscription, now, List.mem_cons_self .., rfl⟩
    · obtain ⟨transport', subscription', now', hmem, hhandler⟩ := h.genuine call hcall
      exact ⟨transport', subscription', now', List.mem_cons_of_mem _ hmem, hhandler⟩

theorem run_duplicate {bus : HybridBus η} {envelope : Dict} {now : ℚ} {cache : MessageCache}
    (h : bus.messageCache.add now (HybridBus.computeMsgId p isPrintable envelope) = (false, cache))
    (transport : Transport) (subscription : Subscription η) (rest : List (Event η)) :
    (bus.run p isPrintable (.deliver transport subscription envelope now :: rest)).2 =
      (({ bus with messageCache := cache } : HybridBus η).run p isPrintable rest).2 := by
  simp [HybridBus.run, HybridBus.step, HybridBus.deduplicatedHandler, h]

theorem run_new {bus : HybridBus η} {envelope : Dict} {now : ℚ} {cache : MessageCache}
    (h : bus.messageCache.add now (HybridBus.computeMsgId p isPrintable envelope) = (true, cache))
    (transport : Transport) (subscription : Subscription η) (rest : List (Event η)) : ∃ monitor,
    (bus.run p isPrintable (.deliver transport subscription envelope now :: rest)).2 =
      ⟨subscription.handler, envelope⟩ ::
        (({ bus with messageCache := cache, monitor := monitor } : HybridBus η).run p isPrintable rest).2 := by
  refine ⟨bus.monitor.recordReceive (HybridBus.computeMsgId p isPrintable envelope) transport, ?_⟩
  simp [HybridBus.run, HybridBus.step, HybridBus.deduplicatedHandler, h]

/-- With room for every message and none of them expiring, a run calls a handler
once for every message that it has not seen before. -/
theorem run_callsOf {times : List ℚ} (ids : List String) {ttl : ℚ}
    (hwithin : ∀ now ∈ times, ∀ added ∈ times, now - ttl ≤ added) (events : List (Event η)) :
    ∀ (bus : HybridBus η) (seen : List String), bus.messageCache.Holds times seen →
      ids.length ≤ bus.messageCache.maxSize → bus.messageCache.ttlSeconds = ttl → (∀ id ∈ seen, id ∈ ids) →
      (∀ event ∈ events, event.now ∈ times) →
      (∀ transport subscription envelope now, .deliver transport subscription envelope now ∈ events →
        HybridBus.computeMsgId p isPrintable envelope ∈ ids) →
      CallsOf p isPrintable seen events (bus.run p isPrintable events).2 := by
  induction events with
  | nil =>
    intro bus seen _ _ _ _ _ _
    exact callsOf_nil p isPrintable seen
  | cons event rest ih =>
    intro bus seen hholds hroom httl hseen htimes hids
    have htimes' : ∀ event ∈ rest, event.now ∈ times := fun e he => htimes e (List.mem_cons_of_mem _ he)
    have hids' : ∀ transport subscription envelope now, .deliver transport subscription envelope now ∈ rest →
        HybridBus.computeMsgId p isPrintable envelope ∈ ids :=
      fun t s e n hmem => hids t s e n (List.mem_cons_of_mem _ hmem)
    cases event with
    | subscribe subscription now =>
      have hnow : now ∈ times := htimes _ (List.mem_cons_self ..)
      have hclean : bus.messageCache.cleanup now = bus.messageCache := hholds.cleanup (httl ▸ hwithin now hnow)
      have hcache : (bus.subscribeEnvelopes subscription now).messageCache = bus.messageCache := by
        simp only [HybridBus.subscribeEnvelopes, hclean, ite_self]
      have hrest := ih (bus.subscribeEnvelopes subscription now) seen (hcache ▸ hholds) (hcache ▸ hroom)
        (hcache ▸ httl) hseen htimes' hids'
      exact hrest.silent p isPrintable fun _ _ _ _ heq => by cases heq
    | deliver transport subscription envelope now =>
      have hnow : now ∈ times := htimes _ (List.mem_cons_self ..)
      have hid := hids transport subscription envelope now (List.mem_cons_self ..)
      by_cases hknown : HybridBus.computeMsgId p isPrintable envelope ∈ seen
      · obtain ⟨cache, hadd, hholds', hmax, httl'⟩ := hholds.add_seen hknown now
        have hrest := ih { bus with messageCache := cache } seen hholds' (hmax ▸ hroom) (httl'.trans httl) hseen
          htimes' hids'
        rw [run_duplicate p isPrintable hadd]
        refine hrest.silent p isPrintable ?_
        intro _ _ _ _ heq
        cases heq
        exact hknown
      · have hall : ∀ id ∈ HybridBus.computeMsgId p isPrintable envelope :: seen, id ∈ ids := by
          intro id hmem
          rcases List.mem_cons.mp hmem with rfl | hmem
          · exact hid
          · exact hseen id hmem
        obtain ⟨cache, hadd, hholds', hmax, httl'⟩ := hholds.add_new hknown hall hroom hnow
        obtain ⟨monitor, hrun⟩ := run_new p isPrintable hadd transport subscription rest
        have hrest := ih { bus with messageCache := cache, monitor := monitor }
          (HybridBus.computeMsgId p isPrintable envelope :: seen) hholds' (hmax ▸ hroom) (httl'.trans httl) hall
          htimes' hids'
        rw [hrun]
        exact hrest.call p isPrintable transport subscription now hknown

/-- The NATS bus, if there is one, holds what the P2P bus holds. -/
theorem run_registered (events : List (Event η)) : ∀ {bus : HybridBus η},
    (∀ subscriptions ∈ bus.natsSubscriptions, subscriptions = bus.p2pSubscriptions) →
    ∀ transport, (bus.run p isPrintable events).1.registered transport ⊆
      (bus.run p isPrintable events).1.p2pSubscriptions := by
  induction events with
  | nil =>
    intro bus hsame transport
    cases transport with
    | p2p => exact List.Subset.refl _
    | nats =>
      cases hnats : bus.natsSubscriptions with
      | none => simp [HybridBus.run, HybridBus.registered, hnats]
      | some subscriptions => simp [HybridBus.run, HybridBus.registered, hnats, hsame subscriptions hnats]
  | cons event rest ih =>
    intro bus hsame transport
    refine ih ?_ transport
    cases event with
    | subscribe subscription now =>
      intro subscriptions hmem
      obtain ⟨old, hold, rfl⟩ := Option.mem_map.mp hmem
      exact congrArg (· ++ [subscription]) (hsame old hold)
    | deliver transport subscription envelope now =>
      simp only [HybridBus.deduplicatedHandler]
      split
      · exact hsame
      · exact hsame

section Handlers

variable [DecidableEq η]

/-- Every handler with a subscription that covers a publication is called with it
exactly once. -/
def ExactlyOnce (bus : HybridBus η) (events : List (Event η)) (publications : List Publication) : Prop :=
  ∀ publication ∈ publications, ∀ subscription ∈ (bus.run p isPrintable events).1.p2pSubscriptions,
    Subject.covers subscription.subject publication.subject = true →
    (bus.run p isPrintable events).2.count ⟨subscription.handler, publication.envelope⟩ = 1

/-- No publication is covered by the subscriptions of two handlers. -/
def OneHandlerEach (subscriptions : List (Subscription η)) (publications : List Publication) : Prop :=
  ∀ publication ∈ publications, ∀ subscription ∈ subscriptions, ∀ other ∈ subscriptions,
    Subject.covers subscription.subject publication.subject = true →
    Subject.covers other.subject publication.subject = true → subscription.handler = other.handler

/-- A bus calls every subscribed handler exactly once exactly if no two handlers
are subscribed to one message: the cache that all wrappers share lets the first
wrapper through and drops the message in the others. -/
theorem exactlyOnce_iff {natsBus : Bool} {maxSize : Nat} {ttlSeconds : ℚ} {events : List (Event η)}
    {publications : List Publication}
    (hd : Delivers p isPrintable (HybridBus.new natsBus (.new maxSize ttlSeconds)) events publications) :
    ExactlyOnce p isPrintable (HybridBus.new natsBus (.new maxSize ttlSeconds)) events publications ↔
      OneHandlerEach ((HybridBus.new natsBus (.new maxSize ttlSeconds)).run p isPrintable events).1.p2pSubscriptions
        publications := by
  obtain ⟨bus, hbus⟩ : ∃ bus : HybridBus η, HybridBus.new natsBus (.new maxSize ttlSeconds) = bus := ⟨_, rfl⟩
  rw [hbus] at hd ⊢
  have hempty : bus.messageCache.Holds (events.map Event.now) [] := by
    rw [← hbus]
    constructor
    · intro msgId
      simp [HybridBus.new, MessageCache.new]
    · intro msgId timestamp hget
      cases hget
  have hsame : ∀ subscriptions ∈ bus.natsSubscriptions, subscriptions = bus.p2pSubscriptions := by
    rw [← hbus]
    cases natsBus <;> simp [HybridBus.new]
  have hwithin : ∀ now ∈ events.map Event.now, ∀ added ∈ events.map Event.now,
      now - bus.messageCache.ttlSeconds ≤ added := by
    intro now hnow added hadded
    obtain ⟨later, hlater, rfl⟩ := List.mem_map.mp hnow
    obtain ⟨event, hevent, rfl⟩ := List.mem_map.mp hadded
    exact hd.withinTtl event hevent later hlater
  have hcalls : CallsOf p isPrintable [] events (bus.run p isPrintable events).2 := by
    refine run_callsOf p isPrintable (publications.map (Publication.msgId p isPrintable)) hwithin events bus [] hempty
      ?_ rfl ?_ ?_ ?_
    · rw [List.length_map]
      exact hd.room
    · intro id hid
      cases hid
    · intro event hevent
      exact List.mem_map_of_mem hevent
    · intro transport subscription envelope now hmem
      obtain ⟨_, publication, hpublication, rfl, _⟩ := hd.genuine transport subscription envelope now hmem
      exact List.mem_map_of_mem hpublication
  constructor
  · intro honce publication hpublication subscription hsub other hother hcovers hcovers'
    have hcall := List.count_pos_iff.mp (honce publication hpublication subscription hsub hcovers ▸ Nat.one_pos)
    have hcall' := List.count_pos_iff.mp (honce publication hpublication other hother hcovers' ▸ Nat.one_pos)
    exact congrArg Call.handler (List.inj_on_of_nodup_map hcalls.once hcall hcall' rfl)
  · intro hone publication hpublication subscription hsub hcovers
    obtain ⟨transport, now, hmem⟩ := hd.complete publication hpublication subscription hsub hcovers
    have hdelivered := (hcalls.delivered _ _ _ _ hmem).resolve_left List.not_mem_nil
    obtain ⟨call, hcall, hid⟩ := List.mem_map.mp hdelivered
    obtain ⟨transport', first, now', hmem', hhandler⟩ := hcalls.genuine call hcall
    obtain ⟨hfirst, publication', hpublication', henvelope, hcovers'⟩ := hd.genuine _ _ _ _ hmem'
    have hid' : publication'.msgId p isPrintable = publication.msgId p isPrintable := by
      rw [Publication.msgId, henvelope]
      exact hid
    cases List.inj_on_of_nodup_map hd.distinctIds hpublication' hpublication hid'
    have hfirst' := run_registered p isPrintable events hsame transport' hfirst
    have hsubscribed := hone publication hpublication first hfirst' subscription hsub hcovers' hcovers
    have hmade : call = ⟨subscription.handler, publication.envelope⟩ := by
      rw [← hsubscribed, hhandler, henvelope]
    exact List.count_eq_one_of_mem (hcalls.once.of_map _) (hmade ▸ hcall)

end Handlers

end ExactlyOnce

def needPublication : Publication := ⟨"thread.t.need", [("id", .str "env-1"), ("kind", .str "NEED")]⟩

/-- The envelope comes to one wrapper by both transports. -/
def oneHandlerEvents : List (Event Nat) :=
  [.subscribe ⟨"thread.*.need", 0⟩ 0, .deliver .nats ⟨"thread.*.need", 0⟩ needPublication.envelope 1,
    .deliver .p2p ⟨"thread.*.need", 0⟩ needPublication.envelope 2]

/-- The envelope comes to the wrappers of two handlers on one subject. -/
def twoHandlerEvents : List (Event Nat) :=
  [.subscribe ⟨"thread.t.need", 0⟩ 0, .subscribe ⟨"thread.t.need", 1⟩ 0,
    .deliver .nats ⟨"thread.t.need", 0⟩ needPublication.envelope 1,
    .deliver .nats ⟨"thread.t.need", 1⟩ needPublication.envelope 1]

theorem oneHandler_subscriptions :
    ((HybridBus.new true .default).run sampleValues (fun _ => true) oneHandlerEvents).1.p2pSubscriptions =
      [⟨"thread.*.need", 0⟩] := rfl

theorem twoHandler_subscriptions :
    ((HybridBus.new true .default).run sampleValues (fun _ => true) twoHandlerEvents).1.p2pSubscriptions =
      [⟨"thread.t.need", 0⟩, ⟨"thread.t.need", 1⟩] := rfl

theorem wildcard_covers : Subject.covers "thread.*.need" "thread.t.need" = true := by decide +kernel

theorem withinTtl_of_bounds {events : List (Event Nat)} {ttl : ℚ}
    (h : ∀ event ∈ events, 0 ≤ event.now ∧ event.now ≤ ttl) :
    ∀ event ∈ events, ∀ later ∈ events, later.now - ttl ≤ event.now := by
  intro event hevent later hlater
  have hlow := (h event hevent).1
  have hhigh := (h later hlater).2
  linarith

theorem oneHandler_delivers :
    Delivers sampleValues (fun _ => true) (HybridBus.new true .default) oneHandlerEvents [needPublication] := by
  constructor
  · simp
  · decide
  · apply withinTtl_of_bounds
    intro event hevent
    simp only [oneHandlerEvents, List.mem_cons, List.not_mem_nil, or_false] at hevent
    rcases hevent with rfl | rfl | rfl <;>
      norm_num [Event.now, HybridBus.new, MessageCache.default, MessageCache.new]
  · intro transport subscription envelope now hmem
    simp only [oneHandlerEvents, List.mem_cons, List.not_mem_nil, or_false, reduceCtorEq, false_or,
      Event.deliver.injEq] at hmem
    rcases hmem with ⟨rfl, rfl, rfl, _⟩ | ⟨rfl, rfl, rfl, _⟩
    · exact ⟨List.mem_singleton.mpr rfl, needPublication, List.mem_singleton.mpr rfl, rfl, wildcard_covers⟩
    · exact ⟨List.mem_singleton.mpr rfl, needPublication, List.mem_singleton.mpr rfl, rfl, wildcard_covers⟩
  · intro publication hpublication subscription hsub _
    rw [oneHandler_subscriptions] at hsub
    rw [List.mem_singleton.mp hpublication, List.mem_singleton.mp hsub]
    exact ⟨.nats, 1, by simp [oneHandlerEvents]⟩

/-- One handler under a wildcard gets the envelope once, though both transports bring it. -/
theorem exactlyOnce_iff_oneHandler :
    ExactlyOnce sampleValues (fun _ => true) (HybridBus.new true .default) oneHandlerEvents [needPublication] := by
  refine (exactlyOnce_iff sampleValues (fun _ => true) oneHandler_delivers).mpr ?_
  intro _ _ subscription hsub other hother _ _
  have hlist : ((HybridBus.new true .default).run sampleValues (fun _ => true) oneHandlerEvents).1.p2pSubscriptions =
      [⟨"thread.*.need", 0⟩] := oneHandler_subscriptions
  change subscription ∈ ((HybridBus.new true .default).run sampleValues (fun _ => true) oneHandlerEvents).1.p2pSubscriptions at hsub
  change other ∈ ((HybridBus.new true .default).run sampleValues (fun _ => true) oneHandlerEvents).1.p2pSubscriptions at hother
  rw [hlist] at hsub hother
  rw [List.mem_singleton.mp hsub, List.mem_singleton.mp hother]

theorem twoHandler_delivers :
    Delivers sampleValues (fun _ => true) (HybridBus.new true .default) twoHandlerEvents [needPublication] := by
  constructor
  · simp
  · decide
  · apply withinTtl_of_bounds
    intro event hevent
    simp only [twoHandlerEvents, List.mem_cons, List.not_mem_nil, or_false] at hevent
    rcases hevent with rfl | rfl | rfl | rfl <;>
      norm_num [Event.now, HybridBus.new, MessageCache.default, MessageCache.new]
  · intro transport subscription envelope now hmem
    simp only [twoHandlerEvents, List.mem_cons, List.not_mem_nil, or_false, reduceCtorEq, false_or,
      Event.deliver.injEq] at hmem
    rcases hmem with ⟨rfl, rfl, rfl, _⟩ | ⟨rfl, rfl, rfl, _⟩
    · exact ⟨List.mem_cons_self .., needPublication, List.mem_singleton.mpr rfl, rfl, Subject.covers_self _⟩
    · exact ⟨List.mem_cons_of_mem _ (List.mem_singleton.mpr rfl), needPublication, List.mem_singleton.mpr rfl, rfl,
        Subject.covers_self _⟩
  · intro publication hpublication subscription hsub _
    rw [twoHandler_subscriptions] at hsub
    rw [List.mem_singleton.mp hpublication]
    simp only [List.mem_cons, List.not_mem_nil, or_false] at hsub
    rcases hsub with rfl | rfl
    · exact ⟨.nats, 1, by simp [twoHandlerEvents]⟩
    · exact ⟨.nats, 1, by simp [twoHandlerEvents]⟩

/-- Of two handlers on one subject the second never gets the envelope. -/
theorem second_handler_not_called :
    Delivers sampleValues (fun _ => true) (HybridBus.new true .default) twoHandlerEvents [needPublication] ∧
    (⟨"thread.t.need", 1⟩ : Subscription Nat) ∈
      ((HybridBus.new true .default).run sampleValues (fun _ => true) twoHandlerEvents).1.p2pSubscriptions ∧
    Subject.covers "thread.t.need" needPublication.subject = true ∧
    ((HybridBus.new true .default).run sampleValues (fun _ => true) twoHandlerEvents).2.count
      ⟨1, needPublication.envelope⟩ = 0 := by
  refine ⟨twoHandler_delivers, ?_, Subject.covers_self _, ?_⟩
  · rw [twoHandler_subscriptions]
    simp
  · have hrun : ((HybridBus.new true .default).run sampleValues (fun _ => true) twoHandlerEvents).2 =
        [⟨0, needPublication.envelope⟩] := rfl
    rw [hrun]
    simp

end AgentNetwork.Bus
