import AgentNetwork.Library.PythonEquality
import AgentNetwork.Plan.Operations
import AgentNetwork.Policy.Envelope

/-! Extended proposals: each ballot of a proposer is taken once, whatever comes between a message and its record. -/

namespace AgentNetwork.Handlers.Ballots

open Python Policy Plan

inductive BallotError
  | keyError (key : String)
  | raised (e : Exn)

/-- The ANNOTATE operation of a proposal; its columns are what the envelope holds. -/
structure AnnotateOp where
  opId : String
  threadId : Json
  lamport : Json
  actorId : Json
  taskId : Json
  payload : Dict
  timestampNs : Int

/-- The identifiers that `uuid4` draws, and the times of the record. -/
structure ProposalDraws where
  opId : String
  proposalId : String
  proposedAt : Int
  timestampNs : Int

/-- What a message proposes, before any check. -/
structure Proposal where
  threadId : Json
  sender : Json
  needId : Json
  proposalId : Json
  ballot : Json
  patch : Json
  cost : Json
  eta : Json

/-- `_ballot_registry`: the set of ballots of each sender. -/
abbrev BallotRegistry := List (Json × List Json)

namespace BallotRegistry

def ballotsOf (sender : Json) (registry : BallotRegistry) : Option (List Json) :=
  (registry.find? fun entry => isKey entry.1 sender).map Prod.snd

/-- A sender that is not there gets an empty set. -/
def withSender (sender : Json) (registry : BallotRegistry) : BallotRegistry :=
  match registry.ballotsOf sender with
  | some _ => registry
  | none => registry ++ [(sender, [])]

def contains (sender ballot : Json) (registry : BallotRegistry) : Bool :=
  ((registry.ballotsOf sender).getD []).any fun taken => isKey taken ballot

/-- `_ballot_registry[sender].add(ballot)`. -/
def add (sender ballot : Json) : BallotRegistry → BallotRegistry
  | [] => []
  | (key, ballots) :: rest =>
    if isKey key sender then (key, ballots ++ [ballot]) :: rest else (key, ballots) :: add sender ballot rest

end BallotRegistry

def valueAt (d : Dict) (key : String) : Except BallotError Json :=
  match d.lookup key with
  | some value => .ok value
  | none => .error (.keyError key)

def readProposal (envelope : Dict) (draws : ProposalDraws) : Except BallotError Proposal := do
  let threadId ← valueAt envelope "thread_id"
  let payload ← valueAt envelope "payload"
  let sender ← valueAt envelope "sender_pk_b64"
  let fields ← (asDict "get" payload).mapError .raised
  .ok ⟨threadId, sender, getKey fields "need_id", getOr fields "proposal_id" (.str draws.proposalId), getKey fields "ballot",
    getOr fields "patch" (.arr []), getKey fields "cost", getKey fields "eta"⟩

/-- `OpType(op_type_str)` does not raise. -/
def isOpType : Json → Bool
  | .str value =>
    match Plan.OpType.ofValue value with
    | .ok _ => true
    | .error _ => false
  | _ => false

/-- An operation of a patch is kept with a type and a task; what is no dictionary raises. -/
def keepsOp (op : Json) : Except Exn Bool := do
  let fields ← asDict "get" op
  .ok (truthy (getKey fields "op_type") && truthy (getKey fields "task_id") && isOpType (getKey fields "op_type"))

/-- `value is not None and value <= 0`. -/
def notPositive (value : Json) : Except Exn Bool :=
  match value with
  | .null => .ok false
  | value =>
    match Number.ofJson? value with
    | some n => .ok (n.le (.finite 0))
    | none => .error (.typeError ("'<=' not supported between instances of '" ++ typeName value ++ "' and 'int'"))

/-- The checks that come after the one for a duplicate; the operations that are left, where all pass. -/
def acceptable (p : Proposal) : Except Exn (Option (List Json)) := do
  if ¬truthy p.patch then .ok none
  else
    let ops ← iterate p.patch
    let validOps ← keepWhere keepsOp ops
    if validOps = [] then .ok none
    else if ← notPositive p.cost then .ok none
    else if ← notPositive p.eta then .ok none
    else .ok (some validOps)

/-- `sender[:8]` of a log message. -/
def sliced : Json → Except Exn Unit
  | .str _ | .arr _ => .ok ()
  | value => .error (.typeError ("'" ++ typeName value ++ "' object is not subscriptable"))

def unhashable (value : Json) : BallotError := .raised (.typeError ("unhashable type: '" ++ typeName value ++ "'"))

def proposalOp (p : Proposal) (validOps : List Json) (lamport : Json) (draws : ProposalDraws) : AnnotateOp where
  opId := draws.opId
  threadId := p.threadId
  lamport := lamport
  actorId := p.sender
  taskId := p.needId
  payload := [("annotation_type", .str "proposal_extended"), ("proposal_id", p.proposalId), ("ballot", p.ballot),
    ("patch", .arr validOps), ("cost", p.cost), ("eta", p.eta), ("proposer", p.sender), ("proposed_at", .int draws.proposedAt)]
  timestampNs := draws.timestampNs

/-- `handle_propose_extended` up to the call of `append_op`, with the operation that it is called with. -/
def handleProposeExtended (envelope : Dict) (draws : ProposalDraws) (registry : BallotRegistry) :
    Except BallotError (Option AnnotateOp) × BallotRegistry :=
  match readProposal envelope draws with
  | .error e => (.error e, registry)
  | .ok p =>
    if ¬truthy p.needId ∨ ¬truthy p.ballot then (.ok none, registry)
    else if ¬p.sender.hashable then (.error (unhashable p.sender), registry)
    else
      let registry := registry.withSender p.sender
      if ¬p.ballot.hashable then (.error (unhashable p.ballot), registry)
      else if registry.contains p.sender p.ballot then
        (((sliced p.sender).mapError .raised).map fun _ => none, registry)
      else
        match acceptable p with
        | .error e => (.error (.raised e), registry)
        | .ok none => (.ok none, registry)
        | .ok (some validOps) =>
          -- the ballot is spent even if the envelope has no lamport
          let registry := registry.add p.sender p.ballot
          match valueAt envelope "lamport" with
          | .error e => (.error e, registry)
          | .ok lamport => (.ok (some (proposalOp p validOps lamport draws)), registry)

/-- A message arrives, or an operation that waits for the store is appended, or cannot be. -/
inductive BallotEvent
  | receive (envelope : Dict) (draws : ProposalDraws)
  | append (index : Nat) (stored : Bool)

structure Proposals where
  registry : BallotRegistry
  waiting : List AnnotateOp
  recorded : List AnnotateOp

namespace Proposals

def init : Proposals := ⟨[], [], []⟩

def apply (s : Proposals) : BallotEvent → Proposals
  | .receive envelope draws =>
    match handleProposeExtended envelope draws s.registry with
    | (.ok (some op), registry) => { s with registry := registry, waiting := s.waiting ++ [op] }
    | (_, registry) => { s with registry := registry }
  | .append index stored =>
    { s with
      waiting := s.waiting.eraseIdx index
      recorded := if stored then s.recorded ++ s.waiting[index]?.toList else s.recorded }

def run (events : List BallotEvent) : Proposals := events.foldl apply init

end Proposals

section Registry

variable {sender ballot s b : Json}

theorem ballotsOf_congr (hsender : sender.hashable = true) (hs : s.hashable = true) (h : isKey sender s = true)
    (registry : BallotRegistry) : registry.ballotsOf sender = registry.ballotsOf s := by
  have hkeys : (fun entry : Json × List Json => isKey entry.1 sender) = fun entry => isKey entry.1 s := by
    funext entry
    exact isKey_right hsender hs h entry.1
  rw [BallotRegistry.ballotsOf, BallotRegistry.ballotsOf, hkeys]

theorem contains_congr (hsender : sender.hashable = true) (hs : s.hashable = true) (h : isKey sender s = true)
    (hballot : ballot.hashable = true) (hb : b.hashable = true) (h' : isKey ballot b = true) (registry : BallotRegistry) :
    registry.contains sender ballot = registry.contains s b := by
  have htaken : (fun taken => isKey taken ballot) = fun taken => isKey taken b := by
    funext taken
    exact isKey_right hballot hb h' taken
  rw [BallotRegistry.contains, BallotRegistry.contains, ballotsOf_congr hsender hs h, htaken]

theorem contains_withSender (registry : BallotRegistry) (sender s b : Json) :
    (registry.withSender sender).contains s b = registry.contains s b := by
  unfold BallotRegistry.withSender
  split
  next => rfl
  next hnone =>
    unfold BallotRegistry.contains BallotRegistry.ballotsOf
    rw [List.find?_append]
    cases hfound : registry.find? fun entry => isKey entry.1 s with
    | some entry => rfl
    | none => by_cases hs : isKey sender s = true <;> simp [hs]

theorem ballotsOf_withSender (registry : BallotRegistry) (sender : Json) :
    ((registry.withSender sender).ballotsOf sender).isSome = true := by
  unfold BallotRegistry.withSender
  split
  next ballots hsome => rw [hsome]; rfl
  next hnone =>
    unfold BallotRegistry.ballotsOf
    rw [List.find?_append, Option.isSome_map, Option.isSome_or]
    simp

theorem contains_add (hsender : sender.hashable = true) (hs : s.hashable = true) (registry : BallotRegistry)
    (hthere : (registry.ballotsOf sender).isSome = true) : (registry.add sender ballot).contains s b =
      (registry.contains s b || (isKey sender s && isKey ballot b)) := by
  induction registry with
  | nil => cases hthere
  | cons entry rest ih =>
    obtain ⟨key, ballots⟩ := entry
    have hcons : ∀ (ballots : List Json) (rest : BallotRegistry), BallotRegistry.contains s b ((key, ballots) :: rest) =
        if isKey key s then ballots.any fun taken => isKey taken b else rest.contains s b := by
      intro ballots rest
      unfold BallotRegistry.contains BallotRegistry.ballotsOf
      rw [List.find?_cons]
      by_cases hkey : isKey key s = true <;> simp [hkey]
    rw [BallotRegistry.add]
    by_cases hkey : isKey key sender = true
    · have hsame := isKey_left (hashable_of_isKey hsender hkey) hsender hkey s
      rw [if_pos hkey, hcons, hcons, ← hsame]
      by_cases hs' : isKey key s = true <;> simp [hs']
    · rw [if_neg hkey, hcons, hcons]
      have hrest : (BallotRegistry.ballotsOf sender rest).isSome = true := by
        unfold BallotRegistry.ballotsOf at hthere ⊢
        rw [List.find?_cons] at hthere
        simpa [hkey] using hthere
      by_cases hs' : isKey key s = true
      · have hother : isKey sender s = false := Bool.eq_false_iff.mpr fun h =>
          hkey ((isKey_right hsender hs h key).trans hs')
        simp [hs', hother]
      · rw [if_neg hs', if_neg hs', ih hrest]

end Registry

/-- The message proposes something that passes every check but the one for a duplicate. -/
structure Proposes (envelope : Dict) (draws : ProposalDraws) (p : Proposal) (validOps : List Json) : Prop where
  read : readProposal envelope draws = .ok p
  needId : truthy p.needId = true
  ballot : truthy p.ballot = true
  senderHashable : p.sender.hashable = true
  ballotHashable : p.ballot.hashable = true
  acceptable : acceptable p = .ok (some validOps)

section Handler

variable {envelope : Dict} {draws : ProposalDraws} {registry : BallotRegistry} {p : Proposal} {validOps : List Json}

/-- A proposal whose ballot is free takes it, whether the envelope has a lamport or not. -/
theorem handle_free (h : Proposes envelope draws p validOps) (hfree : registry.contains p.sender p.ballot = false) :
    (handleProposeExtended envelope draws registry).2 = (registry.withSender p.sender).add p.sender p.ballot ∧
      ∀ op, (handleProposeExtended envelope draws registry).1 = .ok (some op) ↔
        ∃ lamport, envelope.lookup "lamport" = some lamport ∧ op = proposalOp p validOps lamport draws := by
  have hstill : (registry.withSender p.sender).contains p.sender p.ballot = false := by rw [contains_withSender, hfree]
  unfold handleProposeExtended valueAt
  rw [h.read]
  simp only [h.needId, h.ballot, h.senderHashable, h.ballotHashable, hstill, h.acceptable, not_true_eq_false, or_self, if_false,
    Bool.false_eq_true]
  cases envelope.lookup "lamport" with
  | none => simp
  | some lamport => simp [eq_comm]

/-- Any other message takes no ballot. -/
theorem handle_other (h : ∀ p validOps, Proposes envelope draws p validOps → registry.contains p.sender p.ballot = true) (s b : Json) :
    (handleProposeExtended envelope draws registry).2.contains s b = registry.contains s b ∧
      ∀ op, (handleProposeExtended envelope draws registry).1 ≠ .ok (some op) := by
  unfold handleProposeExtended
  cases hread : readProposal envelope draws with
  | error e => exact ⟨rfl, nofun⟩
  | ok p =>
    dsimp only
    split
    next => exact ⟨rfl, nofun⟩
    next hgiven =>
      split
      next => exact ⟨rfl, nofun⟩
      next hsender =>
        split
        next => exact ⟨contains_withSender registry p.sender s b, nofun⟩
        next hballot =>
          split
          next =>
            refine ⟨contains_withSender registry p.sender s b, fun op => ?_⟩
            cases sliced p.sender <;> nofun
          next hfree =>
            rw [contains_withSender] at hfree
            cases hacceptable : acceptable p with
            | error e => exact ⟨contains_withSender registry p.sender s b, nofun⟩
            | ok result =>
              cases result with
              | none => exact ⟨contains_withSender registry p.sender s b, nofun⟩
              | some validOps =>
                simp only [not_or, not_not] at hgiven hsender hballot
                have hproposes : Proposes envelope draws p validOps :=
                  ⟨hread, hgiven.1, hgiven.2, hsender, hballot, hacceptable⟩
                exact absurd (h p validOps hproposes) hfree

end Handler

section Runs

open Proposals

/-- Some message of the run has proposed with the ballot. -/
def Spent (events : List BallotEvent) (sender ballot : Json) : Prop := ∃ envelope draws p validOps,
  .receive envelope draws ∈ events ∧ Proposes envelope draws p validOps ∧ isKey p.sender sender = true ∧ isKey p.ballot ballot = true

/-- The ballots of an operation and of another one are the same for the registry. -/
def SameBallot (a b : AnnotateOp) : Prop :=
  isKey a.actorId b.actorId = true ∧ isKey (getKey a.payload "ballot") (getKey b.payload "ballot") = true

theorem run_concat (events : List BallotEvent) (event : BallotEvent) : run (events ++ [event]) = (run events).apply event := by
  rw [run, List.foldl_concat]
  rfl

theorem registry_receive (s : Proposals) (envelope : Dict) (draws : ProposalDraws) :
    (s.apply (.receive envelope draws)).registry = (handleProposeExtended envelope draws s.registry).2 := by
  rw [Proposals.apply]
  rcases handleProposeExtended envelope draws s.registry with ⟨e | (_ | op), registry⟩ <;> rfl

/-- The registry holds just what has been proposed with. -/
theorem contains_run (events : List BallotEvent) {s b : Json} (hs : s.hashable = true) (hb : b.hashable = true) :
    (run events).registry.contains s b = true ↔ Spent events s b := by
  induction events using List.reverseRecOn generalizing s b with
  | nil => simp [run, init, Spent, BallotRegistry.contains, BallotRegistry.ballotsOf]
  | append_singleton events event ih =>
    rw [run_concat]
    have hearlier : Spent events s b → Spent (events ++ [event]) s b := fun ⟨envelope, draws, p, validOps, hmem, hrest⟩ =>
      ⟨envelope, draws, p, validOps, List.mem_append_left _ hmem, hrest⟩
    cases event with
    | append index stored =>
      refine (ih hs hb).trans ⟨hearlier, fun ⟨envelope, draws, p, validOps, hmem, hrest⟩ => ?_⟩
      exact ⟨envelope, draws, p, validOps, by simpa using hmem, hrest⟩
    | receive envelope draws =>
      rw [registry_receive]
      by_cases hfree : ∃ p validOps, Proposes envelope draws p validOps ∧ (run events).registry.contains p.sender p.ballot = false
      · obtain ⟨p, validOps, hproposes, hfree⟩ := hfree
        rw [(handle_free hproposes hfree).1, contains_add hproposes.senderHashable hs _ (ballotsOf_withSender _ _),
          contains_withSender, Bool.or_eq_true, Bool.and_eq_true, ih hs hb]
        constructor
        · rintro (h | ⟨hsender, hballot⟩)
          · exact hearlier h
          · exact ⟨envelope, draws, p, validOps, by simp, hproposes, hsender, hballot⟩
        · rintro ⟨envelope', draws', p', validOps', hmem, hproposes', hkeys⟩
          rcases List.mem_append.mp hmem with hmem | hlast
          · exact .inl ⟨envelope', draws', p', validOps', hmem, hproposes', hkeys⟩
          · cases List.mem_singleton.mp hlast
            cases hproposes.read.symm.trans hproposes'.read
            exact .inr hkeys
      · have hother : ∀ p validOps, Proposes envelope draws p validOps → (run events).registry.contains p.sender p.ballot = true :=
          fun p validOps hproposes => by
            by_contra hno
            exact hfree ⟨p, validOps, hproposes, by simpa using hno⟩
        rw [(handle_other hother s b).1]
        refine (ih hs hb).trans ⟨hearlier, fun ⟨envelope', draws', p', validOps', hmem, hproposes', hsender, hballot⟩ => ?_⟩
        rcases List.mem_append.mp hmem with hmem | hlast
        · exact ⟨envelope', draws', p', validOps', hmem, hproposes', hsender, hballot⟩
        · cases List.mem_singleton.mp hlast
          have htaken := hother p' validOps' hproposes'
          rw [contains_congr hproposes'.senderHashable hs hsender hproposes'.ballotHashable hb hballot] at htaken
          exact (ih hs hb).mp htaken

theorem taken_iff (events : List BallotEvent) (envelope : Dict) (draws : ProposalDraws) (op : AnnotateOp) :
    (handleProposeExtended envelope draws (run events).registry).1 = .ok (some op) ↔
      ∃ p validOps lamport, Proposes envelope draws p validOps ∧ envelope.lookup "lamport" = some lamport ∧
        op = proposalOp p validOps lamport draws ∧ ¬Spent events p.sender p.ballot := by
  by_cases hfree : ∃ p validOps, Proposes envelope draws p validOps ∧ (run events).registry.contains p.sender p.ballot = false
  · obtain ⟨p, validOps, hproposes, hfree⟩ := hfree
    have hnot : ¬Spent events p.sender p.ballot := fun h => by
      rw [← contains_run events hproposes.senderHashable hproposes.ballotHashable, hfree] at h
      cases h
    rw [(handle_free hproposes hfree).2]
    constructor
    · rintro ⟨lamport, hlamport, hop⟩
      exact ⟨p, validOps, lamport, hproposes, hlamport, hop, hnot⟩
    · rintro ⟨p', validOps', lamport, hproposes', hlamport, hop, -⟩
      cases hproposes.read.symm.trans hproposes'.read
      cases hproposes.acceptable.symm.trans hproposes'.acceptable
      exact ⟨lamport, hlamport, hop⟩
  · have hother : ∀ p validOps, Proposes envelope draws p validOps → (run events).registry.contains p.sender p.ballot = true :=
      fun p validOps hproposes => by
        by_contra hno
        exact hfree ⟨p, validOps, hproposes, by simpa using hno⟩
    refine iff_of_false ((handle_other hother .null .null).2 op) ?_
    rintro ⟨p, validOps, lamport, hproposes, -, -, hnot⟩
    exact hnot ((contains_run events hproposes.senderHashable hproposes.ballotHashable).mp (hother p validOps hproposes))

/-- The operation is the one of a message of the run that proposes something. -/
def FromMessage (events : List BallotEvent) (op : AnnotateOp) : Prop := ∃ envelope draws p validOps lamport,
  .receive envelope draws ∈ events ∧ Proposes envelope draws p validOps ∧ envelope.lookup "lamport" = some lamport ∧
    op = proposalOp p validOps lamport draws

/-- The operations of a run, recorded or waiting, each from a message and no two with the same ballot. -/
structure Kept (events : List BallotEvent) (ops : List AnnotateOp) : Prop where
  fromMessage : ∀ op ∈ ops, FromMessage events op
  distinct : ops.Pairwise fun a b => ¬SameBallot a b ∧ ¬SameBallot b a

theorem kept_append {events : List BallotEvent} {event : BallotEvent} {ops : List AnnotateOp} (h : Kept events ops) :
    Kept (events ++ [event]) ops :=
  ⟨fun op hop => by
    obtain ⟨envelope, draws, p, validOps, lamport, hmem, hrest⟩ := h.fromMessage op hop
    exact ⟨envelope, draws, p, validOps, lamport, List.mem_append_left _ hmem, hrest⟩, h.distinct⟩

theorem kept_subperm {events : List BallotEvent} {ops left : List AnnotateOp} (h : Kept events ops) (hleft : left.Subperm ops) :
    Kept events left := by
  obtain ⟨perm, hperm, hsub⟩ := hleft
  refine ⟨fun op hop => h.fromMessage op (hsub.subset (hperm.mem_iff.mpr hop)), ?_⟩
  exact (h.distinct.sublist hsub).perm hperm And.symm

theorem toList_append_eraseIdx (l : List AnnotateOp) (index : Nat) : (l[index]?.toList ++ l.eraseIdx index).Perm l := by
  by_cases h : index < l.length
  · rw [List.getElem?_eq_getElem h]
    exact List.getElem_cons_eraseIdx_perm h
  · rw [List.getElem?_eq_none (not_lt.mp h), List.eraseIdx_of_length_le (not_lt.mp h)]
    exact .refl _

theorem kept_run (events : List BallotEvent) : Kept events ((run events).recorded ++ (run events).waiting) := by
  induction events using List.reverseRecOn with
  | nil => exact ⟨nofun, .nil⟩
  | append_singleton events event ih =>
    rw [run_concat]
    cases event with
    | append index stored =>
      refine kept_subperm (kept_append ih) ?_
      cases stored with
      | false => exact ((List.eraseIdx_sublist _ _).append_left _).subperm
      | true =>
        show ((run events).recorded ++ (run events).waiting[index]?.toList ++ (run events).waiting.eraseIdx index).Subperm _
        rw [List.append_assoc]
        exact ((toList_append_eraseIdx _ index).append_left _).subperm
    | receive envelope draws =>
      have htaken := taken_iff events envelope draws
      rw [Proposals.apply]
      rcases hhandle : handleProposeExtended envelope draws (run events).registry with ⟨e | (_ | op), registry⟩
      · exact kept_append ih
      · exact kept_append ih
      · rw [hhandle] at htaken
        obtain ⟨p, validOps, lamport, hproposes, hlamport, rfl, hfree⟩ := (htaken op).mp rfl
        dsimp only
        rw [← List.append_assoc]
        refine ⟨fun other hother => ?_, List.pairwise_append.mpr ⟨ih.distinct, List.pairwise_singleton _ _, ?_⟩⟩
        · rcases List.mem_append.mp hother with hother | hlast
          · exact (kept_append ih).fromMessage other hother
          · exact ⟨envelope, draws, p, validOps, lamport, by simp, hproposes, hlamport, List.mem_singleton.mp hlast⟩
        · intro other hother last hlast
          cases List.mem_singleton.mp hlast
          obtain ⟨envelope', draws', p', validOps', lamport', hmem, hproposes', -, rfl⟩ := ih.fromMessage other hother
          refine ⟨fun hsame => hfree ⟨envelope', draws', p', validOps', hmem, hproposes', hsame⟩, fun hsame => hfree ?_⟩
          refine ⟨envelope', draws', p', validOps', hmem, hproposes', ?_, ?_⟩
          · rw [isKey_comm hproposes'.senderHashable hproposes.senderHashable]
            exact hsame.1
          · rw [isKey_comm hproposes'.ballotHashable hproposes.ballotHashable]
            exact hsame.2

end Runs

end AgentNetwork.Handlers.Ballots
