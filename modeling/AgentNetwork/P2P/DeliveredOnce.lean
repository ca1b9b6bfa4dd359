import AgentNetwork.Library.Traces
import AgentNetwork.P2P.Gossipsub
import Mathlib.Tactic.Linarith

/-! Gossip messages over a whole run of a router: which of them arrived when, and
to whom they were handed. -/

namespace AgentNetwork.P2P

open Relational Policy Transition

/-- A message that came to the router, from a peer or published on it: the handlers
its topic had then, those it was handed to, and whether it was dropped. -/
structure Arrival (κ : Type) where
  time : ℚ
  message : GossipsubMessage
  subscribed : List κ
  handed : List κ
  duplicate : Bool

section Arrivals

variable {κ : Type} [DecidableEq κ]

def firstArrival (arrivals : List (Arrival κ)) (key : MessageKey) : Option (Arrival κ) :=
  arrivals.find? fun a => a.message.key = key

/-- The handlers that a message was handed to until some time, with repetitions. -/
def handings (arrivals : List (Arrival κ)) (key : MessageKey) (until_ : ℚ) : List κ :=
  (arrivals.filter fun a => a.message.key = key ∧ a.time ≤ until_).flatMap (·.handed)

/-- The first time a message arrives it is taken for a new one, and from then on for as
long as it is remembered each handler that its topic had is handed it once. -/
structure DeliveredOnce (arrivals : List (Arrival κ)) : Prop where
  isNew : ∀ key a, firstArrival arrivals key = some a → a.duplicate = false
  once : ∀ key a, firstArrival arrivals key = some a →
    ∀ handler ∈ a.subscribed, (handings arrivals key (a.time + seenMsgTtl)).count handler = 1

omit [DecidableEq κ] in
theorem firstArrival_append (arrivals : List (Arrival κ)) (b : Arrival κ) (key : MessageKey) :
    firstArrival (arrivals ++ [b]) key = (firstArrival arrivals key).or (if b.message.key = key then some b else none) := by
  rw [firstArrival, List.find?_append, List.find?_singleton]
  by_cases hb : b.message.key = key <;> simp [hb, firstArrival]

omit [DecidableEq κ] in
theorem firstArrival_spec {arrivals : List (Arrival κ)} {key : MessageKey} {a : Arrival κ}
    (h : firstArrival arrivals key = some a) : a ∈ arrivals ∧ a.message.key = key :=
  ⟨List.mem_of_find?_eq_some h, by simpa using List.find?_some h⟩

omit [DecidableEq κ] in
theorem handings_append (arrivals : List (Arrival κ)) (b : Arrival κ) (key : MessageKey) (until_ : ℚ) :
    handings (arrivals ++ [b]) key until_ =
      handings arrivals key until_ ++ if b.message.key = key ∧ b.time ≤ until_ then b.handed else [] := by
  rw [handings, List.filter_append, List.flatMap_append, handings]
  by_cases hb : b.message.key = key ∧ b.time ≤ until_ <;> simp [hb]

omit [DecidableEq κ] in
theorem handings_of_new {arrivals : List (Arrival κ)} {key : MessageKey} (h : firstArrival arrivals key = none) (until_ : ℚ) :
    handings arrivals key until_ = [] := by
  have hempty : (arrivals.filter fun a => a.message.key = key ∧ a.time ≤ until_) = [] := by
    refine List.filter_eq_nil_iff.mpr fun a ha => ?_
    have hne := List.find?_eq_none.mp h a ha
    simp only [decide_eq_true_eq] at hne ⊢
    exact fun hboth => hne hboth.1
  rw [handings, hempty]
  rfl

/-- One more arrival: a new message goes to all its handlers, and one that is still
remembered to none of those that had it. -/
theorem DeliveredOnce.append {arrivals : List (Arrival κ)} (h : DeliveredOnce arrivals) {b : Arrival κ}
    (hnew : firstArrival arrivals b.message.key = none →
      b.duplicate = false ∧ b.handed = b.subscribed ∧ b.subscribed.Nodup)
    (hagain : ∀ a, firstArrival arrivals b.message.key = some a → b.time ≤ a.time + seenMsgTtl →
      ∀ handler ∈ b.handed, handler ∉ a.subscribed) : DeliveredOnce (arrivals ++ [b]) := by
  have hwindow : b.time ≤ b.time + seenMsgTtl := by
    have : (0 : ℚ) ≤ seenMsgTtl := by norm_num [seenMsgTtl]
    linarith
  have hsplit : ∀ key a, firstArrival (arrivals ++ [b]) key = some a →
      firstArrival arrivals key = some a ∨ (firstArrival arrivals key = none ∧ b.message.key = key ∧ a = b) := by
    intro key a ha
    rw [firstArrival_append] at ha
    cases hold : firstArrival arrivals key with
    | some first =>
      rw [hold, Option.some_or] at ha
      exact .inl ha
    | none =>
      rw [hold, Option.none_or] at ha
      by_cases hkey : b.message.key = key
      · rw [if_pos hkey] at ha
        exact .inr ⟨rfl, hkey, (Option.some.inj ha).symm⟩
      · rw [if_neg hkey] at ha
        cases ha
  constructor
  · intro key a ha
    obtain hold | ⟨hold, rfl, rfl⟩ := hsplit key a ha
    · exact h.isNew key a hold
    · exact (hnew hold).1
  · intro key a ha handler hmem
    rw [handings_append, List.count_append]
    obtain hold | ⟨hold, rfl, rfl⟩ := hsplit key a ha
    · have hbefore := h.once key a hold handler hmem
      by_cases hb : b.message.key = key ∧ b.time ≤ a.time + seenMsgTtl
      · obtain ⟨rfl, htime⟩ := hb
        have hnot : handler ∉ b.handed := fun hh => hagain a hold htime handler hh hmem
        rw [if_pos ⟨rfl, htime⟩, hbefore, List.count_eq_zero_of_not_mem hnot]
      · rw [if_neg hb, hbefore, List.count_nil]
    · obtain ⟨_, hhanded, hnodup⟩ := hnew hold
      rw [handings_of_new hold, if_pos ⟨rfl, hwindow⟩, hhanded, List.count_eq_one_of_mem hnodup hmem, List.count_nil]

end Arrivals

/-- A call on a router. The messages of peers are those that `create` makes. -/
inductive GossipCall (p : Primitives) (κ : Type)
  | addPeer (peerId : String)
  | removePeer (peerId : String)
  | subscribe (topic : String) (handler : κ)
  | unsubscribe (topic : String) (handler : Option κ)
  | publish (topic : String) (message : List UInt8)
  | handleMessage (msg : GossipsubMessage) (made : msg.Made p)
  | heartbeat

/-- A router, the time of the last call on it, and all the arrivals it has seen. -/
structure WatchedRouter (κ : Type) where
  router : GossipsubRouter κ
  now : ℚ
  arrivals : List (Arrival κ)

namespace WatchedRouter

variable {κ : Type} [DecidableEq κ] {p : Primitives}

def start (p2pNode : Option String) (now : ℚ) : WatchedRouter κ := ⟨.new p2pNode now, now, []⟩

/-- The state after a call at the time `time`. -/
def call (w : WatchedRouter κ) (time : ℚ) : GossipCall p κ → WatchedRouter κ
  | .addPeer peerId => ⟨w.router.addPeer peerId time, time, w.arrivals⟩
  | .removePeer peerId => ⟨w.router.removePeer peerId, time, w.arrivals⟩
  | .subscribe topic handler => ⟨w.router.subscribe topic handler, time, w.arrivals⟩
  | .unsubscribe topic handler => ⟨w.router.unsubscribe topic handler, time, w.arrivals⟩
  | .publish topic message =>
    let result := w.router.publish p topic message time
    let msg := w.router.nextMessage p topic message time
    ⟨result.1, time, w.arrivals ++ [⟨time, msg, w.router.handlers topic, result.2, false⟩]⟩
  | .handleMessage msg _ =>
    let result := w.router.handleMessage msg time
    ⟨result.1, time, w.arrivals ++
      [⟨time, msg, w.router.handlers msg.topic, result.2, w.router.seenMessages.contains msg.msgId⟩]⟩
  | .heartbeat => ⟨w.router.heartbeat time, time, w.arrivals⟩

/-- A call is made no earlier than the one before it. -/
def Step (w : WatchedRouter κ) (e : ℚ × GossipCall p κ) (w' : WatchedRouter κ) : Prop :=
  w.now ≤ e.1 ∧ w' = w.call e.1 e.2

/-- The texts that a call hashes are among the given ones. -/
def Hashes (texts : Set String) (w : WatchedRouter κ) : GossipCall p κ → Prop
  | .handleMessage msg _ => msg.text ∈ texts
  | .publish topic message => (w.router.nextMessage p topic message w.now).text ∈ texts
  | _ => True

/-- What must not happen for messages to be told apart and remembered: a new message with
the text of one in the cache, a message published again that some of the handlers had
already, and a heartbeat that drops a message, going by its time stamp, no longer than the
time to live after it arrived. -/
def Remembers (w : WatchedRouter κ) (time : ℚ) : GossipCall p κ → Prop
  | .handleMessage msg _ =>
    firstArrival w.arrivals msg.key = none → ∀ cached ∈ w.router.seenMessages.entries, cached.2.text ≠ msg.text
  | .publish topic message =>
    ∀ a, firstArrival w.arrivals (w.router.nextMessage p topic message time).key = some a →
      time ≤ a.time + seenMsgTtl → ∀ handler ∈ w.router.handlers topic, handler ∉ a.subscribed
  | .heartbeat => w.router.heartbeatDue time = true →
    ∀ cached ∈ w.router.seenMessages.entries, cached.2.timestamp < time - seenMsgTtl →
      ∀ key a, firstArrival w.arrivals key = some a → a.message.msgId = cached.1 → a.time + seenMsgTtl < time
  | _ => True

/-- What holds of a router in every run that remembers. -/
structure Consistent (p : Primitives) (texts : Set String) (w : WatchedRouter κ) : Prop where
  past : ∀ a ∈ w.arrivals, a.time ≤ w.now
  made : ∀ a ∈ w.arrivals, a.message.Made p
  hashed : ∀ a ∈ w.arrivals, a.message.text ∈ texts
  nodup : ∀ topic, (w.router.handlers topic).Nodup
  cached : ∀ msgId msg, w.router.seenMessages.get? msgId = some msg →
    msgId = msg.msgId ∧ ∃ a ∈ w.arrivals, a.message = msg
  kept : ∀ key a, firstArrival w.arrivals key = some a → w.now ≤ a.time + seenMsgTtl →
    w.router.seenMessages.contains a.message.msgId = true
  once : DeliveredOnce w.arrivals

theorem consistent_start (texts : Set String) (p2pNode : Option String) (now : ℚ) :
    (start p2pNode now : WatchedRouter κ).Consistent p texts := by
  refine ⟨List.forall_mem_nil _, List.forall_mem_nil _, List.forall_mem_nil _, fun _ => List.nodup_nil, ?_, ?_, ?_, ?_⟩
  · intro _ _ h
    cases h
  · intro _ _ h
    cases h
  · intro _ _ h
    cases h
  · intro _ _ h
    cases h

variable {texts : Set String} {w w' : WatchedRouter κ} {time : ℚ}

/-- A call without an arrival keeps all this as long as the cache keeps what is remembered. -/
theorem Consistent.quiet (h : w.Consistent p texts) (htime : w.now ≤ w'.now) (harrivals : w'.arrivals = w.arrivals)
    (hnodup : ∀ topic, (w'.router.handlers topic).Nodup)
    (hcached : ∀ msgId msg, w'.router.seenMessages.get? msgId = some msg → w.router.seenMessages.get? msgId = some msg)
    (hkept : ∀ key a, firstArrival w.arrivals key = some a → w'.now ≤ a.time + seenMsgTtl →
      w.router.seenMessages.contains a.message.msgId = true → w'.router.seenMessages.contains a.message.msgId = true) :
    w'.Consistent p texts := by
  rw [← harrivals] at hkept
  constructor
  · rw [harrivals]
    exact fun a ha => (h.past a ha).trans htime
  · rw [harrivals]
    exact h.made
  · rw [harrivals]
    exact h.hashed
  · exact hnodup
  · rw [harrivals]
    exact fun msgId msg hget => h.cached msgId msg (hcached msgId msg hget)
  · intro key a ha hnow
    refine hkept key a ha hnow (h.kept key a ?_ (htime.trans hnow))
    rwa [← harrivals]
  · rw [harrivals]
    exact h.once

/-- A call with an arrival after which the cache holds what it held and the message that
arrived: to keep all this, the message must be told apart from others and remembered. -/
theorem Consistent.arrive (h : w.Consistent p texts) {b : Arrival κ} (htime : w.now ≤ b.time) (hnow : w'.now = b.time)
    (hmade : b.message.Made p) (hhashed : b.message.text ∈ texts) (harrivals : w'.arrivals = w.arrivals ++ [b])
    (hsubscriptions : w'.router.subscriptions = w.router.subscriptions)
    (hcached : ∀ msgId msg, w'.router.seenMessages.get? msgId = some msg →
      w.router.seenMessages.get? msgId = some msg ∨ (msgId = b.message.msgId ∧ msg = b.message))
    (hkept : ∀ msgId, w.router.seenMessages.contains msgId = true ∨ msgId = b.message.msgId →
      w'.router.seenMessages.contains msgId = true)
    (hsubscribed : b.subscribed = w.router.handlers b.message.topic)
    (hnew : firstArrival w.arrivals b.message.key = none → b.duplicate = false ∧ b.handed = b.subscribed)
    (hagain : ∀ a, firstArrival w.arrivals b.message.key = some a → b.time ≤ a.time + seenMsgTtl →
      ∀ handler ∈ b.handed, handler ∉ a.subscribed) : w'.Consistent p texts := by
  have hold : ∀ a ∈ w.arrivals, a ∈ w'.arrivals := fun a ha => harrivals ▸ List.mem_append_left _ ha
  have hlast : b ∈ w'.arrivals := harrivals ▸ List.mem_append_right _ (List.mem_singleton_self b)
  constructor
  · rw [harrivals, hnow]
    exact List.forall_mem_append.mpr ⟨fun a ha => (h.past a ha).trans htime, List.forall_mem_singleton.mpr le_rfl⟩
  · rw [harrivals]
    exact List.forall_mem_append.mpr ⟨h.made, List.forall_mem_singleton.mpr hmade⟩
  · rw [harrivals]
    exact List.forall_mem_append.mpr ⟨h.hashed, List.forall_mem_singleton.mpr hhashed⟩
  · intro topic
    rw [GossipsubRouter.handlers, hsubscriptions]
    exact h.nodup topic
  · intro msgId msg hget
    obtain hget | ⟨rfl, rfl⟩ := hcached msgId msg hget
    · obtain ⟨hid, a, ha, hmsg⟩ := h.cached msgId msg hget
      exact ⟨hid, a, hold a ha, hmsg⟩
    · exact ⟨rfl, b, hlast, rfl⟩
  · intro key a ha hwithin
    rw [harrivals, firstArrival_append] at ha
    cases hfirst : firstArrival w.arrivals key with
    | some first =>
      rw [hfirst, Option.some_or] at ha
      cases ha
      exact hkept _ (.inl (h.kept key _ hfirst (by rw [hnow] at hwithin; exact htime.trans hwithin)))
    | none =>
      rw [hfirst, Option.none_or] at ha
      split at ha
      · cases ha
        exact hkept _ (.inr rfl)
      · cases ha
  · rw [harrivals]
    refine h.once.append (fun hfirst => ?_) hagain
    obtain ⟨hduplicate, hhanded⟩ := hnew hfirst
    exact ⟨hduplicate, hhanded, hsubscribed ▸ h.nodup _⟩

/-- Where the digests of the texts tell them apart, a message that is dropped though it is
new has the text of one in the cache. -/
theorem Consistent.not_contains (h : w.Consistent p texts) (hinj : Set.InjOn (shortDigest p) texts)
    {msg : GossipsubMessage} (hmade : msg.Made p) (hhashed : msg.text ∈ texts)
    (hother : ∀ cached ∈ w.router.seenMessages.entries, cached.2.text ≠ msg.text) :
    w.router.seenMessages.contains msg.msgId = false := by
  rw [Table.contains_eq_false_iff, Option.eq_none_iff_forall_ne_some]
  intro cached hget
  obtain ⟨hid, a, ha, rfl⟩ := h.cached _ _ hget
  have hdigest : shortDigest p a.message.text = shortDigest p msg.text := by
    rw [← h.made a ha, ← hid, hmade]
  exact hother _ (Table.get?_eq_some_iff.mp hget) (hinj (h.hashed a ha) hhashed hdigest)

theorem Consistent.handleMessage (h : w.Consistent p texts) (hinj : Set.InjOn (shortDigest p) texts)
    (htime : w.now ≤ time) {msg : GossipsubMessage} (made : msg.Made p) (hhashed : msg.text ∈ texts)
    (hok : w.Remembers time (.handleMessage msg made : GossipCall p κ)) :
    (w.call time (.handleMessage msg made : GossipCall p κ)).Consistent p texts := by
  -- what is still remembered is in the cache
  have hremembered : ∀ a, firstArrival w.arrivals msg.key = some a → time ≤ a.time + seenMsgTtl →
      w.router.seenMessages.contains msg.msgId = true := by
    intro a ha hwithin
    obtain ⟨hmem, hkey⟩ := firstArrival_spec ha
    have hid : a.message.msgId = msg.msgId := by
      rw [h.made a hmem, made, GossipsubMessage.text, GossipsubMessage.text, hkey]
    exact hid ▸ h.kept _ a ha (htime.trans hwithin)
  obtain ⟨hseen, hresult⟩ | ⟨hseen, hhanded, hsubscriptions, hcache⟩ := w.router.handleMessage_cases msg time
  · refine h.arrive (b := ⟨time, msg, w.router.handlers msg.topic, [], true⟩) htime rfl made hhashed ?_ ?_ ?_ ?_ rfl ?_ ?_
    · simp only [call, hresult, hseen]
    · simp only [call, hresult]
    · intro msgId cached hget
      simp only [call, hresult] at hget
      exact .inl hget
    · rintro msgId (hold | rfl)
      · simpa only [call, hresult] using hold
      · simpa only [call, hresult] using hseen
    · intro hfirst
      have hnot := h.not_contains hinj made hhashed (hok hfirst)
      rw [hseen] at hnot
      cases hnot
    · intro a _ _ handler hmem
      cases hmem
  · refine h.arrive (b := ⟨time, msg, w.router.handlers msg.topic, w.router.handlers msg.topic, false⟩) htime rfl made
      hhashed ?_ hsubscriptions ?_ ?_ rfl (fun _ => ⟨rfl, rfl⟩) ?_
    · simp only [call, hhanded, hseen]
    · intro msgId cached hget
      simp only [call, hcache, Table.get?_upsert] at hget
      split at hget
      · next hid =>
        cases hget
        exact .inr ⟨hid, rfl⟩
      · exact .inl hget
    · intro msgId hold
      simp only [call, hcache, Table.contains, Table.get?_upsert]
      split
      · rfl
      · next hid => exact hold.resolve_right hid
    · intro a ha hwithin
      rw [hremembered a ha hwithin] at hseen
      cases hseen

theorem Consistent.publish (h : w.Consistent p texts) (htime : w.now ≤ time) {topic : String} {message : List UInt8}
    (hhashed : w.Hashes texts (.publish topic message : GossipCall p κ))
    (hok : w.Remembers time (.publish topic message : GossipCall p κ)) :
    (w.call time (.publish topic message : GossipCall p κ)).Consistent p texts := by
  refine h.arrive (b := ⟨time, w.router.nextMessage p topic message time, w.router.handlers topic,
    w.router.handlers topic, false⟩) htime rfl rfl hhashed rfl rfl ?_ ?_ rfl (fun _ => ⟨rfl, rfl⟩) hok
  · intro msgId cached hget
    simp only [call, GossipsubRouter.publish, Table.get?_upsert] at hget
    split at hget
    · next hid =>
      cases hget
      exact .inr ⟨hid, rfl⟩
    · exact .inl hget
  · intro msgId hold
    simp only [call, GossipsubRouter.publish, Table.contains, Table.get?_upsert]
    split
    · rfl
    · next hid => exact hold.resolve_right hid

theorem Consistent.heartbeat (h : w.Consistent p texts) (htime : w.now ≤ time)
    (hok : w.Remembers time (.heartbeat : GossipCall p κ)) :
    (w.call time (.heartbeat : GossipCall p κ)).Consistent p texts := by
  refine h.quiet htime rfl ?_ ?_ ?_
  · intro topic
    simp only [call, GossipsubRouter.handlers, GossipsubRouter.heartbeat_subscriptions]
    exact h.nodup topic
  · intro msgId msg hget
    simp only [call, GossipsubRouter.get?_heartbeat] at hget
    split at hget
    · exact (Option.filter_eq_some_iff.mp hget).1
    · exact hget
  · intro key a ha hwithin hseen
    obtain ⟨cached, hget⟩ := Table.contains_eq_true_iff.mp hseen
    refine Table.contains_eq_true_iff.mpr ⟨cached, ?_⟩
    simp only [call, GossipsubRouter.get?_heartbeat]
    split
    · next hdue =>
      refine Option.filter_eq_some_iff.mpr ⟨hget, decide_eq_true fun hold => ?_⟩
      have hover := hok hdue _ (Table.get?_eq_some_iff.mp hget) hold key a ha rfl
      exact absurd hwithin (not_le.mpr hover)
    · exact hget

/-- What a call does to the subscriptions of a topic never repeats a handler. -/
theorem Consistent.resubscribe (h : w.Consistent p texts) (htime : w.now ≤ time) {router : GossipsubRouter κ} {topic : String}
    {subscribed : List κ} (hnodup : subscribed.Nodup)
    (hframe : router.subscriptions = w.router.subscriptions.upsert topic subscribed ∧
      router.seenMessages = w.router.seenMessages) : WatchedRouter.Consistent p texts ⟨router, time, w.arrivals⟩ := by
  refine h.quiet htime rfl ?_ ?_ ?_
  · intro other
    simp only [GossipsubRouter.handlers, hframe.1, Table.get?_upsert]
    split
    · exact hnodup
    · exact h.nodup other
  · intro msgId msg hget
    rwa [← hframe.2]
  · intro key a _ _ hseen
    rwa [hframe.2]

theorem Consistent.reach (h : w.Consistent p texts) (htime : w.now ≤ time) {router : GossipsubRouter κ}
    (hframe : router.subscriptions = w.router.subscriptions ∧ router.seenMessages = w.router.seenMessages) :
    WatchedRouter.Consistent p texts ⟨router, time, w.arrivals⟩ := by
  refine h.quiet htime rfl ?_ ?_ ?_
  · intro other
    rw [GossipsubRouter.handlers, hframe.1]
    exact h.nodup other
  · intro msgId msg hget
    rwa [← hframe.2]
  · intro key a _ _ hseen
    rwa [hframe.2]

theorem Consistent.call (h : w.Consistent p texts) (hinj : Set.InjOn (shortDigest p) texts) (htime : w.now ≤ time)
    (c : GossipCall p κ) (hhashed : w.Hashes texts c) (hok : w.Remembers time c) : (w.call time c).Consistent p texts := by
  cases c with
  | addPeer peerId => exact h.reach htime (GossipsubRouter.addPeer_frame peerId time)
  | removePeer peerId => exact h.reach htime (GossipsubRouter.removePeer_frame peerId)
  | subscribe topic handler =>
    refine h.resubscribe htime ?_ (GossipsubRouter.subscribe_frame topic handler)
    rw [GossipsubRouter.withHandler]
    split
    · exact h.nodup topic
    · next hnew =>
      rw [← List.concat_eq_append]
      exact List.Nodup.concat hnew (h.nodup topic)
  | unsubscribe topic handler =>
    refine h.resubscribe htime ?_ (GossipsubRouter.unsubscribe_frame topic handler)
    cases handler with
    | none => exact List.nodup_nil
    | some handler => exact (h.nodup topic).erase handler
  | publish topic message => exact h.publish htime hhashed hok
  | handleMessage msg made => exact h.handleMessage hinj htime made hhashed hok
  | heartbeat => exact h.heartbeat htime hok

/-- In a run that tells its messages apart and remembers them, every message is delivered once. -/
theorem delivered_once (hinj : Set.InjOn (shortDigest p) texts) {p2pNode : Option String} {begun : ℚ}
    (h : Visits Step (fun w (e : ℚ × GossipCall p κ) => w.Hashes texts e.2 ∧ w.Remembers e.1 e.2) (start p2pNode begun) w) :
    DeliveredOnce w.arrivals := by
  have hconsistent : w.Consistent p texts := by
    refine h.invariant (consistent_start texts p2pNode begun) ?_
    rintro s e s' hs ⟨hhashed, hok⟩ ⟨htime, rfl⟩
    exact hs.call hinj htime e.2 hhashed hok
  exact hconsistent.once

/-- Stands in for SHA-256 on texts that are no longer than the digits that are kept. -/
def textAsDigest : Primitives := ⟨id, fun bytes => bytes, fun _ _ => [], fun _ _ _ => false⟩

def shortTexts : Set String := {text | text.toList.length ≤ 16}

theorem shortDigest_injOn : Set.InjOn (shortDigest textAsDigest) shortTexts := by
  intro a ha b hb hab
  have htake : ∀ text ∈ shortTexts, shortDigest textAsDigest text = text := by
    intro text htext
    rw [shortDigest, textAsDigest]
    dsimp only [id]
    rw [List.take_of_length_le htext, String.ofList_toList]
  rwa [htake a ha, htake b hb] at hab

def messageOf (fromPeer : String) (sequence : Int) : GossipsubMessage :=
  .create textAsDigest "t" [0xab] fromPeer sequence 0

def received (fromPeer : String) (sequence : Int) : GossipCall textAsDigest String :=
  .handleMessage (messageOf fromPeer sequence) rfl

def afterCalls (calls : List (ℚ × GossipCall textAsDigest String)) : WatchedRouter String :=
  calls.foldl (fun w e => w.call e.1 e.2) (start none 0)

/-- Two messages, of the peers `p` and `p1`, whose fields join to one text. -/
def collision : List (ℚ × GossipCall textAsDigest String) :=
  [(0, .subscribe "t" "handler"), (1, received "p" 12), (2, received "p1" 2)]

/-- A message that took 100 seconds to arrive and arrives again 22 seconds later. -/
def earlyPurge : List (ℚ × GossipCall textAsDigest String) :=
  [(0, .subscribe "t" "handler"), (100, received "p" 1), (121, .heartbeat), (122, received "p" 1)]

theorem mem_shortTexts {text : String} (h : text.toList.length ≤ 16) : text ∈ shortTexts := h

theorem taken_for_another_or_forgotten :
    Set.InjOn (shortDigest textAsDigest) shortTexts ∧
    (Visits Step (fun w (e : ℚ × GossipCall textAsDigest String) => w.Hashes shortTexts e.2) (start none 0) (afterCalls collision) ∧
      ¬DeliveredOnce (afterCalls collision).arrivals) ∧
    (Visits Step (fun w (e : ℚ × GossipCall textAsDigest String) => w.Hashes shortTexts e.2) (start none 0) (afterCalls earlyPurge) ∧
      ¬DeliveredOnce (afterCalls earlyPurge).arrivals) := by
  have hshort : ∀ fromPeer sequence, (messageOf fromPeer sequence).text.toList.length ≤ 16 →
      Hashes shortTexts (start none 0 : WatchedRouter String) (received fromPeer sequence) := by
    intro fromPeer sequence h
    exact h
  refine ⟨shortDigest_injOn, ⟨?_, fun h => ?_⟩, ⟨?_, fun h => ?_⟩⟩
  · refine Visits.ofCalls ⟨⟨trivial, by decide +kernel, rfl⟩, ⟨?_, by decide +kernel, rfl⟩, ⟨?_, by decide +kernel, rfl⟩, trivial⟩
    · exact hshort "p" 12 (by decide +kernel)
    · exact hshort "p1" 2 (by decide +kernel)
  · have htold := h.isNew (messageOf "p1" 2).key ⟨2, messageOf "p1" 2, ["handler"], [], true⟩ rfl
    cases htold
  · refine Visits.ofCalls ⟨⟨trivial, by decide +kernel, rfl⟩, ⟨?_, by decide +kernel, rfl⟩, ⟨trivial, by decide +kernel, rfl⟩,
      ⟨?_, by decide +kernel, rfl⟩, trivial⟩
    · exact hshort "p" 1 (by decide +kernel)
    · exact hshort "p" 1 (by decide +kernel)
  · have honce := h.once (messageOf "p" 1).key ⟨100, messageOf "p" 1, ["handler"], ["handler"], false⟩ rfl "handler" (by decide)
    revert honce
    decide +kernel

def echoed : List (ℚ × GossipCall textAsDigest String) :=
  [(0, .subscribe "t" "handler"), (1, received "p" 12), (2, .heartbeat), (3, received "p" 12)]

theorem delivered_once_echoed : DeliveredOnce (afterCalls echoed).arrivals := by
  refine delivered_once shortDigest_injOn (Visits.ofCalls ⟨⟨⟨trivial, trivial⟩, by decide +kernel, rfl⟩,
    ⟨⟨?_, ?_⟩, by decide +kernel, rfl⟩, ⟨⟨trivial, ?_⟩, by decide +kernel, rfl⟩, ⟨⟨?_, ?_⟩, by decide +kernel, rfl⟩, trivial⟩)
  · exact mem_shortTexts (by decide +kernel)
  · intro _ cached hmem
    cases hmem
  · intro _ cached hmem hold
    have hrecent : ¬(messageOf "p" 12).timestamp < 2 - seenMsgTtl := by decide +kernel
    rw [List.mem_singleton.mp hmem] at hold
    exact absurd hold hrecent
  · exact mem_shortTexts (by decide +kernel)
  · intro hnew
    cases hnew

end WatchedRouter

end AgentNetwork.P2P
