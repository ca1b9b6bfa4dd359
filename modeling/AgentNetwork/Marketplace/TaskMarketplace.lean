import AgentNetwork.Library.JsonWriter
import AgentNetwork.Library.Table
import AgentNetwork.Library.Traces

namespace AgentNetwork.Marketplace

open Relational

inductive TaskStatus
  | «open»
  | bidding
  | assigned
  | completed
  | cancelled
  deriving DecidableEq

inductive BidStatus
  | pending
  | accepted
  | rejected
  deriving DecidableEq

structure Task where
  description : String
  capabilitiesRequired : String
  budget : ℚ
  deadline : Option ℚ
  status : TaskStatus
  posterId : String
  assignedTo : Option String
  createdAt : ℚ
  deriving DecidableEq

structure Bid where
  taskId : String
  agentId : String
  amount : ℚ
  estimatedTime : ℚ
  message : String
  createdAt : ℚ
  status : BidStatus
  deriving DecidableEq

structure IntegrityError where
  message : String
  deriving DecidableEq

/-- The tables of listings, bids and prices. The key of a bid into the listings is
declared, and not enforced. -/
structure TaskMarketplace where
  tasks : Table String Task
  bids : Table String Bid
  priceHistory : List (String × ℚ × ℚ)
  deriving DecidableEq

namespace TaskMarketplace

def new : TaskMarketplace := ⟨.empty, .empty, []⟩

def postTask (m : TaskMarketplace) (now : ℚ) (taskId description : String) (capabilitiesRequired : List String)
    (budget : ℚ) (posterId : String) (deadline : Option ℚ) : Except IntegrityError String × TaskMarketplace :=
  match m.tasks.insert? taskId
      ⟨description, Json.write Json.defaultStyle (.arr (capabilitiesRequired.map .str)), budget, deadline, .open, posterId, none, now⟩ with
  | none => (.error ⟨"UNIQUE constraint failed: tasks.task_id"⟩, m)
  | some tasks =>
    (.ok taskId, { m with
      tasks := tasks
      priceHistory := m.priceHistory ++ capabilitiesRequired.map fun capability => (capability, budget, now) })

def submitBid (m : TaskMarketplace) (now : ℚ) (bidId taskId agentId : String) (amount estimatedTime : ℚ) (message : String) :
    Except IntegrityError String × TaskMarketplace :=
  match m.bids.insert? bidId ⟨taskId, agentId, amount, estimatedTime, message, now, .pending⟩ with
  | none => (.error ⟨"UNIQUE constraint failed: bids.bid_id"⟩, m)
  | some bids =>
    (.ok bidId, { m with
      bids := bids
      tasks := m.tasks.modify taskId fun task => { task with status := .bidding } })

/-- The bids once one of them is accepted and all others on its task are rejected. -/
def acceptAmong (bids : Table String Bid) (bidId taskId : String) : Table String Bid :=
  (bids.modify bidId fun bid => { bid with status := .accepted }).mapRows fun id bid =>
    if bid.taskId = taskId ∧ id ≠ bidId then { bid with status := .rejected } else bid

def acceptBid (m : TaskMarketplace) (bidId : String) : Bool × TaskMarketplace :=
  match m.bids.get? bidId with
  | none => (false, m)
  | some bid =>
    (true, { m with
      bids := acceptAmong m.bids bidId bid.taskId
      tasks := m.tasks.modify bid.taskId fun task => { task with status := .assigned, assignedTo := some bid.agentId } })

theorem get?_acceptAmong {bids : Table String Bid} {bidId : String} {bid : Bid} (h : bids.get? bidId = some bid) (id : String) :
    (acceptAmong bids bidId bid.taskId).get? id =
      if id = bidId then some { bid with status := .accepted }
      else (bids.get? id).map fun other => if other.taskId = bid.taskId then { other with status := .rejected } else other := by
  unfold acceptAmong
  rw [Table.get?_mapRows, Table.get?_modify]
  by_cases hid : id = bidId
  · simp [hid, h]
  · simp [hid]

end TaskMarketplace

end AgentNetwork.Marketplace

namespace AgentNetwork.Marketplace

open Relational Transition TaskMarketplace

inductive MarketCall
  | postTask (now : ℚ) (taskId description : String) (capabilitiesRequired : List String) (budget : ℚ) (posterId : String)
    (deadline : Option ℚ)
  | submitBid (now : ℚ) (bidId taskId agentId : String) (amount estimatedTime : ℚ) (message : String)
  | acceptBid (bidId : String)
  deriving DecidableEq

namespace TaskMarketplace

def call (m : TaskMarketplace) : MarketCall → TaskMarketplace
  | .postTask now taskId description capabilitiesRequired budget posterId deadline =>
    (m.postTask now taskId description capabilitiesRequired budget posterId deadline).2
  | .submitBid now bidId taskId agentId amount estimatedTime message =>
    (m.submitBid now bidId taskId agentId amount estimatedTime message).2
  | .acceptBid bidId => (m.acceptBid bidId).2

/-- The bid is accepted, and no other bid on its task is. -/
structure Award (m : TaskMarketplace) (taskId bidId : String) (bid : Bid) : Prop where
  found : m.bids.get? bidId = some bid
  task : bid.taskId = taskId
  accepted : bid.status = .accepted
  only : ∀ other row, m.bids.get? other = some row → row.taskId = taskId → row.status = .accepted → other = bidId

/-- A task is ASSIGNED just when one bid on it is accepted, and then to the agent of that bid. -/
structure Consistent (m : TaskMarketplace) : Prop where
  assigned_iff : ∀ taskId task, m.tasks.get? taskId = some task →
    (task.status = .assigned ↔ ∃ bidId bid, Award m taskId bidId bid)
  assignee : ∀ taskId task bidId bid, m.tasks.get? taskId = some task → task.status = .assigned →
    Award m taskId bidId bid → task.assignedTo = some bid.agentId

/-- An assignment stays as it was made: the task ASSIGNED, to the same agent, for the same bid. -/
def Keeps (m m' : TaskMarketplace) : Prop :=
  ∀ taskId task bidId bid, m.tasks.get? taskId = some task → task.status = .assigned → Award m taskId bidId bid →
    ∃ task', m'.tasks.get? taskId = some task' ∧ task'.status = .assigned ∧ task'.assignedTo = task.assignedTo ∧
      Award m' taskId bidId bid

/-- A task is listed only while no bid on it is accepted, a new bid names no ASSIGNED task,
and of the bids on an ASSIGNED task only the accepted one is accepted again. -/
def Orderly (m : TaskMarketplace) : MarketCall → Prop
  | .postTask _ taskId _ _ _ _ _ => m.tasks.get? taskId = none →
    ∀ bidId bid, m.bids.get? bidId = some bid → bid.taskId = taskId → bid.status ≠ .accepted
  | .submitBid _ bidId taskId _ _ _ _ => m.bids.get? bidId = none →
    ∀ task, m.tasks.get? taskId = some task → task.status ≠ .assigned
  | .acceptBid bidId => ∀ bid task, m.bids.get? bidId = some bid → m.tasks.get? bid.taskId = some task →
    task.status = .assigned → bid.status = .accepted

/-- At most one bid on a task is accepted. -/
def Single (m : TaskMarketplace) : Prop :=
  ∀ first second bid bid', m.bids.get? first = some bid → m.bids.get? second = some bid' → bid.taskId = bid'.taskId →
    bid.status = .accepted → bid'.status = .accepted → first = second

section Calls

variable {m : TaskMarketplace} {taskId bidId : String} {bid : Bid}

theorem Single.award (hs : m.Single) (found : m.bids.get? bidId = some bid) (accepted : bid.status = .accepted) :
    Award m bid.taskId bidId bid :=
  ⟨found, rfl, accepted, fun other _ hget htask hstatus => hs other bidId _ _ hget found htask hstatus accepted⟩

theorem Award.unique {bidId' : String} {bid' : Bid} (h : Award m taskId bidId bid) (h' : Award m taskId bidId' bid') :
    bidId' = bidId ∧ bid' = bid := by
  obtain rfl := h.only bidId' bid' h'.found h'.task h'.accepted
  exact ⟨rfl, Option.some.inj (h'.found.symm.trans h.found)⟩

/-- Who holds what does not depend on the listings. -/
theorem Award.congr {m' : TaskMarketplace} (hbids : m'.bids = m.bids) : Award m' taskId bidId bid ↔ Award m taskId bidId bid := by
  constructor
  · rintro ⟨found, task, accepted, only⟩
    rw [hbids] at found only
    exact ⟨found, task, accepted, only⟩
  · rintro ⟨found, task, accepted, only⟩
    refine ⟨hbids ▸ found, task, accepted, ?_⟩
    rw [hbids]
    exact only

theorem postTask_fresh {now budget : ℚ} {description posterId : String} {capabilitiesRequired : List String} {deadline : Option ℚ}
    (fresh : m.tasks.get? taskId = none) :
    let m' := m.call (.postTask now taskId description capabilitiesRequired budget posterId deadline)
    m'.bids = m.bids ∧ ∃ row, row.status = .open ∧ ∀ id, m'.tasks.get? id = if id = taskId then some row else m.tasks.get? id := by
  simp only [call, postTask, Table.insert?, fresh, dite_true]
  exact ⟨trivial, _, rfl, fun id => Table.get?_insert fresh id⟩

theorem postTask_taken {now budget : ℚ} {description posterId : String} {capabilitiesRequired : List String} {deadline : Option ℚ}
    (taken : m.tasks.get? taskId ≠ none) :
    m.call (.postTask now taskId description capabilitiesRequired budget posterId deadline) = m := by
  simp [call, postTask, Table.insert?, taken]

theorem submitBid_fresh {now amount estimatedTime : ℚ} {agentId message : String} (fresh : m.bids.get? bidId = none) :
    let m' := m.call (.submitBid now bidId taskId agentId amount estimatedTime message)
    (∃ row, row.status = .pending ∧ ∀ id, m'.bids.get? id = if id = bidId then some row else m.bids.get? id) ∧
      ∀ id, m'.tasks.get? id = if id = taskId then (m.tasks.get? taskId).map fun task => { task with status := .bidding }
        else m.tasks.get? id := by
  simp only [call, submitBid, Table.insert?, fresh, dite_true]
  exact ⟨⟨_, rfl, fun id => Table.get?_insert fresh id⟩, fun id => Table.get?_modify ..⟩

theorem submitBid_taken {now amount estimatedTime : ℚ} {agentId message : String} (taken : m.bids.get? bidId ≠ none) :
    m.call (.submitBid now bidId taskId agentId amount estimatedTime message) = m := by
  simp [call, submitBid, Table.insert?, taken]

theorem acceptBid_found (found : m.bids.get? bidId = some bid) :
    let m' := m.call (.acceptBid bidId)
    (∀ id, m'.bids.get? id = if id = bidId then some { bid with status := .accepted }
      else (m.bids.get? id).map fun other => if other.taskId = bid.taskId then { other with status := .rejected } else other) ∧
      ∀ id, m'.tasks.get? id = if id = bid.taskId then
        (m.tasks.get? bid.taskId).map fun task => { task with status := .assigned, assignedTo := some bid.agentId }
        else m.tasks.get? id := by
  simp only [call, acceptBid, found]
  exact ⟨fun id => get?_acceptAmong found id, fun id => Table.get?_modify ..⟩

theorem acceptBid_missing (missing : m.bids.get? bidId = none) : m.call (.acceptBid bidId) = m := by
  simp [call, acceptBid, missing]

/-- A pending bid decides nothing. -/
theorem Award.pending_iff {m' : TaskMarketplace} {newId id : String} {row : Bid} (fresh : m.bids.get? newId = none)
    (hrow : row.status = .pending) (hbids : ∀ id, m'.bids.get? id = if id = newId then some row else m.bids.get? id) :
    Award m' taskId id bid ↔ Award m taskId id bid := by
  have hother : ∀ other old, m.bids.get? other = some old → other ≠ newId := by
    rintro other old hget rfl
    exact absurd (hget.symm.trans fresh) (Option.some_ne_none _)
  constructor
  · rintro ⟨found, task, accepted, only⟩
    rw [hbids] at found
    split at found
    next =>
      cases found
      rw [hrow] at accepted
      cases accepted
    next =>
      refine ⟨found, task, accepted, fun other old hget => only other old ?_⟩
      rw [hbids, if_neg (hother other old hget), hget]
  · rintro ⟨found, task, accepted, only⟩
    refine ⟨by rw [hbids, if_neg (hother id bid found), found], task, accepted, ?_⟩
    intro other old hget htask hstatus
    rw [hbids] at hget
    split at hget
    next =>
      cases hget
      rw [hrow] at hstatus
      cases hstatus
    next => exact only other old hget htask hstatus

theorem Award.accepted_self (found : m.bids.get? bidId = some bid) :
    Award (m.call (.acceptBid bidId)) bid.taskId bidId { bid with status := .accepted } := by
  obtain ⟨hbids, _⟩ := acceptBid_found found
  refine ⟨by rw [hbids, if_pos rfl], rfl, rfl, ?_⟩
  intro other row hget htask hstatus
  rw [hbids] at hget
  split at hget
  next heq => exact heq
  next =>
    obtain ⟨old, _, rfl⟩ := Option.map_eq_some_iff.mp hget
    split at hstatus
    next => cases hstatus
    next hne =>
      rw [if_neg hne] at htask
      exact absurd htask hne

/-- The bids on other tasks are left alone. -/
theorem acceptBid_other {id : String} {row : Bid} (found : m.bids.get? bidId = some bid) (hne : row.taskId ≠ bid.taskId) :
    (m.call (.acceptBid bidId)).bids.get? id = some row ↔ m.bids.get? id = some row := by
  obtain ⟨hbids, _⟩ := acceptBid_found found
  rw [hbids]
  by_cases hid : id = bidId
  · subst hid
    rw [if_pos rfl, found]
    constructor
    · rintro ⟨⟩
      exact absurd rfl hne
    · rintro ⟨⟩
      exact absurd rfl hne
  · rw [if_neg hid]
    cases hget : m.bids.get? id with
    | none => simp
    | some old =>
      simp only [Option.map_some, Option.some.injEq]
      split
      next heq =>
        constructor
        · rintro rfl
          exact absurd heq hne
        · rintro rfl
          exact absurd heq hne
      next => rfl

theorem Award.accepted_other {id : String} {bid' : Bid} (found : m.bids.get? bidId = some bid) (hne : taskId ≠ bid.taskId) :
    Award (m.call (.acceptBid bidId)) taskId id bid' ↔ Award m taskId id bid' := by
  have hsame : ∀ id row, row.taskId = taskId →
      ((m.call (.acceptBid bidId)).bids.get? id = some row ↔ m.bids.get? id = some row) :=
    fun id row htask => acceptBid_other found (htask ▸ hne)
  constructor
  · rintro ⟨hget, task, accepted, only⟩
    exact ⟨(hsame id bid' task).mp hget, task, accepted, fun other row h htask => only other row ((hsame other row htask).mpr h) htask⟩
  · rintro ⟨hget, task, accepted, only⟩
    exact ⟨(hsame id bid' task).mpr hget, task, accepted, fun other row h htask => only other row ((hsame other row htask).mp h) htask⟩

theorem Single.call (hs : m.Single) (c : MarketCall) : (m.call c).Single := by
  intro first second one other hone hother htask hone' hother'
  cases c with
  | postTask now taskId description capabilitiesRequired budget posterId deadline =>
    have hbids : (m.call (.postTask now taskId description capabilitiesRequired budget posterId deadline)).bids = m.bids := by
      by_cases fresh : m.tasks.get? taskId = none
      · exact (postTask_fresh fresh).1
      · rw [postTask_taken fresh]
    rw [hbids] at hone hother
    exact hs first second one other hone hother htask hone' hother'
  | submitBid now bidId taskId agentId amount estimatedTime message =>
    by_cases fresh : m.bids.get? bidId = none
    · obtain ⟨⟨row, hrow, hbids⟩, _⟩ := submitBid_fresh fresh (m := m)
      have hold : ∀ id x, (if id = bidId then some row else m.bids.get? id) = some x → x.status = .accepted → m.bids.get? id = some x := by
        intro id x hget hx
        split at hget
        next =>
          cases hget
          rw [hrow] at hx
          cases hx
        next => exact hget
      rw [hbids] at hone hother
      exact hs first second one other (hold first one hone hone') (hold second other hother hother') htask hone' hother'
    · rw [submitBid_taken fresh] at hone hother
      exact hs first second one other hone hother htask hone' hother'
  | acceptBid bidId =>
    cases hget : m.bids.get? bidId with
    | none =>
      rw [acceptBid_missing hget] at hone hother
      exact hs first second one other hone hother htask hone' hother'
    | some bid =>
      by_cases htaskId : one.taskId = bid.taskId
      · have haward := Award.accepted_self hget
        have h₁ := haward.only first one hone htaskId hone'
        have h₂ := haward.only second other hother (htask.symm.trans htaskId) hother'
        exact h₁.trans h₂.symm
      · have hone₀ := (acceptBid_other hget htaskId).mp hone
        have hother₀ := (acceptBid_other hget (htask ▸ htaskId)).mp hother
        exact hs first second one other hone₀ hother₀ htask hone' hother'

theorem keeps_refl (m : TaskMarketplace) : m.Keeps m := fun _ task _ _ hget hassigned haward => ⟨task, hget, hassigned, rfl, haward⟩

/-- Listing a task that was not there. -/
theorem posted_iff {m' : TaskMarketplace} {row : Task} (hc : m.Consistent) (hs : m.Single) (fresh : m.tasks.get? taskId = none)
    (hbids : m'.bids = m.bids) (hopen : row.status = .open)
    (htasks : ∀ id, m'.tasks.get? id = if id = taskId then some row else m.tasks.get? id) :
    m'.Consistent ∧ m.Keeps m' ↔
      ∀ bidId bid, m.bids.get? bidId = some bid → bid.taskId = taskId → bid.status ≠ .accepted := by
  have hrow : m'.tasks.get? taskId = some row := by rw [htasks, if_pos rfl]
  have hold : ∀ id task, m.tasks.get? id = some task → m'.tasks.get? id = some task := by
    intro id task hget
    have hne : id ≠ taskId := by
      rintro rfl
      exact absurd (hget.symm.trans fresh) (Option.some_ne_none _)
    rw [htasks, if_neg hne, hget]
  constructor
  · rintro ⟨hc', _⟩ bidId bid found rfl accepted
    have haward := (Award.congr hbids).mpr (hs.award found accepted)
    have hassigned := (hc'.assigned_iff _ row hrow).mpr ⟨bidId, bid, haward⟩
    rw [hopen] at hassigned
    cases hassigned
  · intro hnone
    have hcases : ∀ id task, m'.tasks.get? id = some task → (id = taskId ∧ task = row) ∨ m.tasks.get? id = some task := by
      intro id task hget
      rw [htasks] at hget
      split at hget
      next heq => exact Or.inl ⟨heq, (Option.some.inj hget).symm⟩
      next => exact Or.inr hget
    refine ⟨⟨?_, ?_⟩, ?_⟩
    · intro id task hget
      simp only [Award.congr hbids]
      rcases hcases id task hget with ⟨rfl, rfl⟩ | hget
      · constructor
        · intro hassigned
          rw [hopen] at hassigned
          cases hassigned
        · rintro ⟨bidId, bid, haward⟩
          exact absurd haward.accepted (hnone bidId bid haward.found haward.task)
      · exact hc.assigned_iff id task hget
    · intro id task bidId bid hget hassigned haward
      have haward' := (Award.congr hbids).mp haward
      rcases hcases id task hget with ⟨rfl, rfl⟩ | hget
      · exact absurd haward'.accepted (hnone bidId bid haward'.found haward'.task)
      · exact hc.assignee id task bidId bid hget hassigned haward'
    · intro id task bidId bid hget hassigned haward
      exact ⟨task, hold id task hget, hassigned, rfl, (Award.congr hbids).mpr haward⟩

/-- A new bid on a task. -/
theorem submitted_iff {m' : TaskMarketplace} {row : Bid} (hc : m.Consistent) (fresh : m.bids.get? bidId = none)
    (hpending : row.status = .pending) (hbids : ∀ id, m'.bids.get? id = if id = bidId then some row else m.bids.get? id)
    (htasks : ∀ id, m'.tasks.get? id = if id = taskId then (m.tasks.get? taskId).map fun task => { task with status := .bidding }
      else m.tasks.get? id) :
    m'.Consistent ∧ m.Keeps m' ↔ ∀ task, m.tasks.get? taskId = some task → task.status ≠ .assigned := by
  have hiff : ∀ id other bid, Award m' id other bid ↔ Award m id other bid :=
    fun id other bid => Award.pending_iff fresh hpending hbids
  constructor
  · rintro ⟨_, hkeeps⟩ task hget hassigned
    obtain ⟨id, bid, haward⟩ := (hc.assigned_iff taskId task hget).mp hassigned
    obtain ⟨task', hget', hassigned', _⟩ := hkeeps taskId task id bid hget hassigned haward
    rw [htasks, if_pos rfl, hget] at hget'
    cases hget'
    cases hassigned'
  · intro hnot
    have hcases : ∀ id task', m'.tasks.get? id = some task' →
        (∃ task, m.tasks.get? id = some task ∧ task.status ≠ .assigned ∧ task'.status = .bidding) ∨ m.tasks.get? id = some task' := by
      intro id task' hget
      rw [htasks] at hget
      split at hget
      next heq =>
        obtain ⟨task, hold, rfl⟩ := Option.map_eq_some_iff.mp hget
        exact Or.inl ⟨task, heq ▸ hold, hnot task hold, rfl⟩
      next => exact Or.inr hget
    refine ⟨⟨?_, ?_⟩, ?_⟩
    · intro id task' hget'
      simp only [hiff]
      rcases hcases id task' hget' with ⟨task, hget, hopen, hbidding⟩ | hget
      · rw [← hc.assigned_iff id task hget, hbidding]
        exact ⟨fun h => absurd h (by decide), fun h => absurd h hopen⟩
      · exact hc.assigned_iff id task' hget
    · intro id task' other bid hget' hassigned haward
      rcases hcases id task' hget' with ⟨task, hget, hopen, hbidding⟩ | hget
      · rw [hbidding] at hassigned
        cases hassigned
      · exact hc.assignee id task' other bid hget hassigned ((hiff ..).mp haward)
    · intro id task other bid hget hassigned haward
      have hne : id ≠ taskId := by
        rintro rfl
        exact hnot task hget hassigned
      exact ⟨task, by rw [htasks, if_neg hne, hget], hassigned, rfl, (hiff ..).mpr haward⟩

/-- Accepting a bid that there is. -/
theorem accepted_iff (hc : m.Consistent) (hs : m.Single) (found : m.bids.get? bidId = some bid) :
    (m.call (.acceptBid bidId)).Consistent ∧ m.Keeps (m.call (.acceptBid bidId)) ↔
      ∀ task, m.tasks.get? bid.taskId = some task → task.status = .assigned → bid.status = .accepted := by
  obtain ⟨_, htasks⟩ := acceptBid_found found
  have haward := Award.accepted_self found
  constructor
  · rintro ⟨_, hkeeps⟩ task hget hassigned
    obtain ⟨id, old, hold⟩ := (hc.assigned_iff _ task hget).mp hassigned
    obtain ⟨_, _, _, _, hold'⟩ := hkeeps _ task id old hget hassigned hold
    obtain ⟨rfl, _⟩ := haward.unique hold'
    cases found.symm.trans hold.found
    exact hold.accepted
  · intro honly
    have hother : ∀ id, id ≠ bid.taskId → (m.call (.acceptBid bidId)).tasks.get? id = m.tasks.get? id :=
      fun id hne => (htasks id).trans (if_neg hne)
    have hself : ∀ task', (m.call (.acceptBid bidId)).tasks.get? bid.taskId = some task' →
        task'.status = .assigned ∧ task'.assignedTo = some bid.agentId := by
      intro task' hget
      rw [htasks, if_pos rfl] at hget
      obtain ⟨task, _, rfl⟩ := Option.map_eq_some_iff.mp hget
      exact ⟨rfl, rfl⟩
    refine ⟨⟨?_, ?_⟩, ?_⟩
    · intro id task' hget
      by_cases hid : id = bid.taskId
      · subst hid
        exact ⟨fun _ => ⟨bidId, _, haward⟩, fun _ => (hself task' hget).1⟩
      · simp only [Award.accepted_other found hid]
        exact hc.assigned_iff id task' (hother id hid ▸ hget)
    · intro id task' other bid' hget hassigned haward'
      by_cases hid : id = bid.taskId
      · subst hid
        obtain ⟨_, rfl⟩ := haward.unique haward'
        exact (hself task' hget).2
      · exact hc.assignee id task' other bid' (hother id hid ▸ hget) hassigned ((Award.accepted_other found hid).mp haward')
    · intro id task other bid' hget hassigned haward'
      by_cases hid : id = bid.taskId
      · subst hid
        have haccepted := honly task hget hassigned
        obtain ⟨rfl, rfl⟩ := (hs.award found haccepted).unique haward'
        have hassignee := hc.assignee _ task _ _ hget hassigned haward'
        refine ⟨{ task with status := .assigned, assignedTo := some bid'.agentId }, ?_, rfl, hassignee.symm, ?_⟩
        · rw [htasks, if_pos rfl, hget, Option.map_some]
        · rw [← haccepted] at haward
          exact haward
      · exact ⟨task, by rw [hother id hid, hget], hassigned, rfl, (Award.accepted_other found hid).mpr haward'⟩

theorem call_iff_orderly (hc : m.Consistent) (hs : m.Single) (c : MarketCall) :
    (m.call c).Consistent ∧ m.Keeps (m.call c) ↔ m.Orderly c := by
  cases c with
  | postTask now taskId description capabilitiesRequired budget posterId deadline =>
    by_cases fresh : m.tasks.get? taskId = none
    · obtain ⟨hbids, row, hopen, htasks⟩ := postTask_fresh fresh
      simpa only [Orderly, fresh, true_implies] using posted_iff hc hs fresh hbids hopen htasks
    · rw [postTask_taken fresh]
      exact ⟨fun _ h => absurd h fresh, fun _ => ⟨hc, keeps_refl m⟩⟩
  | submitBid now bidId taskId agentId amount estimatedTime message =>
    by_cases fresh : m.bids.get? bidId = none
    · obtain ⟨⟨row, hpending, hbids⟩, htasks⟩ := submitBid_fresh fresh
      simpa only [Orderly, fresh, true_implies] using submitted_iff hc fresh hpending hbids htasks
    · rw [submitBid_taken fresh]
      exact ⟨fun _ h => absurd h fresh, fun _ => ⟨hc, keeps_refl m⟩⟩
  | acceptBid bidId =>
    cases hget : m.bids.get? bidId with
    | none =>
      rw [acceptBid_missing hget]
      exact ⟨fun _ bid _ h => absurd (h.symm.trans hget) (Option.some_ne_none bid), fun _ => ⟨hc, keeps_refl m⟩⟩
    | some bid =>
      rw [accepted_iff hc hs hget]
      constructor
      · intro h bid' task hget' htask hassigned
        cases hget.symm.trans hget'
        exact h task htask hassigned
      · exact fun h task htask hassigned => h bid task hget htask hassigned

theorem consistent_new : Consistent .new where
  assigned_iff _ _ hget := by cases hget
  assignee _ _ _ _ hget := by cases hget

theorem single_new : Single .new := fun _ _ _ _ hget => by cases hget

end Calls

end TaskMarketplace

/-- In a run every task is assigned once, and stays assigned, just when no bid comes for an
ASSIGNED task, no other bid on one is accepted, and no task is listed after a bid on it was. -/
theorem task_assigned_once {steps : List (TaskMarketplace × MarketCall × TaskMarketplace)} {m : TaskMarketplace}
    (run : Trace (fun m c m' => m' = m.call c) .new steps m) :
    (∀ e ∈ steps, e.2.2.Consistent ∧ e.1.Keeps e.2.2) ↔ ∀ e ∈ steps, e.1.Orderly e.2.1 := by
  refine run.forall_iff (P := fun m _ m' => m'.Consistent ∧ m.Keeps m') (I := fun m => m.Consistent ∧ m.Single)
    ⟨consistent_new, single_new⟩ ?_ ?_
  · rintro m c _ ⟨hc, hs⟩ horderly rfl
    exact ⟨((call_iff_orderly hc hs c).mpr horderly).1, hs.call c⟩
  · rintro m c _ ⟨hc, hs⟩ rfl
    exact call_iff_orderly hc hs c

section Listing

def listingCalls : List MarketCall :=
  [.postTask 0 "t1" "translate" [] 10 "poster" none, .submitBid 1 "b1" "t1" "alice" 5 60 "", .acceptBid "b1"]

def listingSteps (last : MarketCall) : List (TaskMarketplace × MarketCall × TaskMarketplace) :=
  stepsOf TaskMarketplace.call .new (listingCalls ++ [last])

/-- The one task, in one of its states. -/
def listed (status : TaskStatus) (assignedTo : Option String) : Task := ⟨"translate", "[]", 10, none, status, "poster", assignedTo, 0⟩

/-- The accepted bid is accepted twice. -/
theorem task_assigned_once_again : ∃ m, Trace (fun (m : TaskMarketplace) c m' => m' = m.call c) .new
    (listingSteps (.acceptBid "b1")) m ∧ ∀ e ∈ listingSteps (.acceptBid "b1"), e.2.2.Consistent ∧ e.1.Keeps e.2.2 := by
  refine ⟨_, Trace.ofCalls stepsOf_call, (task_assigned_once (Trace.ofCalls stepsOf_call)).mpr ?_⟩
  simp only [listingCalls, List.cons_append, List.nil_append, stepsOf, List.forall_mem_cons]
  refine ⟨nofun, ?_, ?_, ?_, List.forall_mem_nil _⟩
  · intro _ task hget
    have htask : task = listed .open none := Option.some.inj (hget.symm.trans (by decide +kernel))
    rw [htask]
    exact nofun
  · intro bid task hbid hget hassigned
    have hrow : bid = ⟨"t1", "alice", 5, 60, "", 1, .pending⟩ := Option.some.inj (hbid.symm.trans (by decide +kernel))
    subst hrow
    have htask : task = listed .bidding none := Option.some.inj (hget.symm.trans (by decide +kernel))
    rw [htask] at hassigned
    cases hassigned
  · intro bid _ hbid _ _
    have hrow : bid = ⟨"t1", "alice", 5, 60, "", 1, .accepted⟩ := Option.some.inj (hbid.symm.trans (by decide +kernel))
    rw [hrow]

/-- A bid comes after the task was assigned. -/
theorem late_bid_reopens : ¬∀ steps m, Trace (fun (m : TaskMarketplace) c m' => m' = m.call c) .new steps m →
    ∀ e ∈ steps, e.2.2.Consistent ∧ e.1.Keeps e.2.2 := by
  intro hall
  have h := hall (listingSteps (.submitBid 2 "b2" "t1" "bob" 4 60 "")) _ (Trace.ofCalls stepsOf_call)
  simp only [listingSteps, listingCalls, List.cons_append, List.nil_append, stepsOf, List.forall_mem_cons] at h
  obtain ⟨_, _, ⟨hconsistent, _⟩, ⟨_, hkeeps⟩, _⟩ := h
  obtain ⟨id, bid, haward⟩ := (hconsistent.assigned_iff "t1" (listed .assigned (some "alice")) (by decide +kernel)).mp rfl
  obtain ⟨task', hget', hassigned', _⟩ := hkeeps "t1" (listed .assigned (some "alice")) id bid (by decide +kernel) rfl haward
  have htask : task' = listed .bidding (some "alice") := Option.some.inj (hget'.symm.trans (by decide +kernel))
  rw [htask] at hassigned'
  cases hassigned'

end Listing

end AgentNetwork.Marketplace
