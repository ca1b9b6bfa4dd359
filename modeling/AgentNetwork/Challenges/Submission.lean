import AgentNetwork.Challenges.Admission
import AgentNetwork.Challenges.Proofs
import AgentNetwork.Economics.Effects
import AgentNetwork.Economics.Transactions
import AgentNetwork.Handlers.Node

namespace AgentNetwork.Challenges

open Relational Transactional Transactional.Prog Handlers

structure ChallengePayload where
  taskId : Option String
  commitId : Option String
  proofType : Option String
  evidenceHash : Option String
  complexity : Option String
  sizeBytes : Option Int
  gasEstimate : Option Int
  deriving DecidableEq

/-- A challenge with its required fields, its proof type and its complexity. -/
structure Challenge where
  taskId : String
  commitId : String
  complexity : ComplexityLevel
  proof : ProofSchema
  deriving DecidableEq

def Challenge.requiredBond (c : Challenge) : Int := calculateBond c.proof.proofType c.complexity

structure ChallengeRecord where
  challengeId : String
  taskId : String
  commitId : String
  challengerId : String
  proof : Json
  bondAmount : Int
  escrowId : String
  complexity : String
  lamport : Int
  threadId : String
  status : String
  submittedAtNs : Int
  deriving DecidableEq

/-- The state of the handler's module. -/
structure HandlerState where
  challengeWindow : ChallengeWindow
  abuseDetector : AbuseDetector
  challengeQueue : List ChallengeRecord
  deriving DecidableEq

/-- The id of a bond's escrow. -/
def challengeBond (id : String) : String := "challenge_bond_" ++ id

/-- The checks of `handle_challenge` that read the envelope alone. -/
def readChallenge (envelope : Envelope ChallengePayload) : Option Challenge := do
  let payload := envelope.payload
  let taskId ← given payload.taskId
  let commitId ← given payload.commitId
  let proofTypeStr ← given payload.proofType
  let evidenceHash ← given payload.evidenceHash
  let proofType ← ProofType.ofValue proofTypeStr
  let complexity ← ComplexityLevel.ofName (payload.complexity.getD "SIMPLE")
  let metadata := [("task_id", Json.str taskId), ("commit_id", .str commitId), ("challenger_id", .str envelope.senderPkB64),
    ("complexity", .str complexity.name)]
  some ⟨taskId, commitId, complexity,
    ⟨proofType, evidenceHash, payload.sizeBytes.getD 0, payload.gasEstimate.getD 0, metadata⟩⟩

/-- `handle_challenge` from the bond on: the escrow and the record in the queue.
A bond that cannot be escrowed ends it. -/
def postBond (ledger : Bool) (envelope : Envelope ChallengePayload) (c : Challenge) (state : HandlerState) : Econ HandlerState := do
  let bondId ← uuid4
  let escrowId := challengeBond bondId
  let posted ← if ledger then attempted (CreditLedger.escrow envelope.senderPkB64 c.requiredBond escrowId) else pure (some ())
  match posted with
  | none => pure state
  | some _ => do
    let challengeId ← uuid4
    let submittedAtNs ← timeNs
    let record : ChallengeRecord := ⟨challengeId, c.taskId, c.commitId, envelope.senderPkB64, c.proof.toDict, c.requiredBond,
      escrowId, c.complexity.name, envelope.lamport, envelope.threadId, "queued", submittedAtNs⟩
    pure { state with challengeQueue := state.challengeQueue ++ [record] }

/-- `handle_challenge` from the window on. -/
def submitChallenge (ledger : Bool) (envelope : Envelope ChallengePayload) (c : Challenge) (state : HandlerState) :
    Econ HandlerState := do
  let windowOpen ← state.challengeWindow.isWindowOpen c.taskId
  if windowOpen then do
    let _ ← state.challengeWindow.getRemainingTime c.taskId
    let challengerBalance ← query (CreditLedger.getBalance envelope.senderPkB64)
    if ledger ∧ challengerBalance < c.requiredBond then pure state
    else
      match c.proof.validate with
      | some _ => pure state
      | none => postBond ledger envelope c state
  else pure state

/-- `handle_challenge`, with a ledger or without one. -/
def handleChallenge (ledger : Bool) (envelope : Envelope ChallengePayload) (state : HandlerState) : Econ HandlerState :=
  match readChallenge envelope with
  | none => pure state
  | some c => do
    let refused ← state.abuseDetector.checkRateLimit envelope.senderPkB64
    match refused with
    | some _ => pure state
    | none => do
      -- a spam pattern is only warned about
      let _ ← state.abuseDetector.checkSpamPattern envelope.senderPkB64
      let abuseDetector ← state.abuseDetector.recordChallenge envelope.senderPkB64
      submitChallenge ledger envelope c { state with abuseDetector := abuseDetector }

/-- The bond is in its escrow. -/
def HoldsBond (record : ChallengeRecord) (db : Db) : Prop :=
  ∃ e, db.escrows.get? record.escrowId = some e ∧ e.accountId = record.challengerId ∧ e.amount = record.bondAmount ∧
    e.released = false

/-- The escrow of a queued challenge holds the bond, under another id than the
challenge itself. -/
structure Posted (env : Env) (record : ChallengeRecord) (s : Session Db) : Prop where
  holds : Settled (HoldsBond record) s
  ids : ∃ n m, n ≠ m ∧ record.escrowId = challengeBond (env.uuid4 n) ∧ record.challengeId = env.uuid4 m

/-- Nothing is queued, or one challenge with its bond posted. -/
def Queues (env : Env) (queue queue' : List ChallengeRecord) (s : Session Db) : Prop :=
  queue' = queue ∨ ∃ record, queue' = queue ++ [record] ∧ Posted env record s

section Queued

variable {env : Env} {s s' : Session Db} {envelope : Envelope ChallengePayload} {c : Challenge} {state state' : HandlerState}

theorem escrow_opens {u : Unit} {a key : String} {n : Int} (h : CreditLedger.escrow a n key env s = (.returns u, s')) :
    (∃ e, s'.db.escrows.get? key = some e ∧ e.accountId = a ∧ e.amount = n ∧ e.released = false) ∧
      s'.db = s'.committed ∧ s'.draws = s.draws + 1 := by
  simp [CreditLedger.escrow, validateAccountId, validateAmount, recordOperation_returns] at h
  obtain ⟨_, _, _, d₁, d₂, d₃, ⟨_, _, hd₂, hd₃⟩, rfl⟩ := h
  obtain ⟨fresh, rfl⟩ := insertRow_ok.mp hd₂
  obtain ⟨_, rfl⟩ := insertRow_ok.mp hd₃
  exact ⟨⟨_, (Table.get?_insert fresh key).trans (if_pos rfl), rfl, rfl, rfl⟩, rfl, rfl⟩

theorem queues_of_refused (h : (pure state : Econ HandlerState) env s = (.returns state', s')) :
    Queues env state.challengeQueue state'.challengeQueue s' := by
  obtain ⟨hsame, _⟩ := Prod.mk.inj h
  cases Outcome.returns.inj hsame
  exact Or.inl rfl

theorem postBond_returns (h : postBond true envelope c state env s = (.returns state', s')) :
    Queues env state.challengeQueue state'.challengeQueue s' := by
  simp only [postBond, if_true, bind_returns, uuid4_apply, Prod.mk.injEq, Outcome.returns.injEq] at h
  obtain ⟨_, _, ⟨rfl, rfl⟩, posted, s₁, hposted, h⟩ := h
  cases posted with
  | none => exact queues_of_refused h
  | some u =>
    obtain ⟨hopen, hcommitted, hdraws⟩ := escrow_opens (attempted_returns_some.mp hposted)
    simp only [bind_returns, uuid4_apply, timeNs_apply, pure_apply, Prod.mk.injEq, Outcome.returns.injEq] at h
    obtain ⟨_, _, ⟨rfl, rfl⟩, _, _, ⟨rfl, rfl⟩, rfl, rfl⟩ := h
    -- the escrow drew the id of its operation in between
    have hlater : s₁.draws = s.draws + 2 := hdraws
    exact Or.inr ⟨_, rfl, ⟨hcommitted, hopen⟩, s.draws, s₁.draws, by omega, rfl, rfl⟩

theorem submitChallenge_returns (h : submitChallenge true envelope c state env s = (.returns state', s')) :
    Queues env state.challengeQueue state'.challengeQueue s' := by
  simp only [submitChallenge, bind_returns] at h
  obtain ⟨windowOpen, s₁, _, h⟩ := h
  cases windowOpen with
  | false => exact queues_of_refused h
  | true =>
    simp only [if_true, bind_returns, true_and] at h
    obtain ⟨_, s₂, _, _, s₃, _, h⟩ := h
    split at h
    next => exact queues_of_refused h
    next =>
      cases hvalid : c.proof.validate with
      | some message =>
        rw [hvalid] at h
        exact queues_of_refused h
      | none =>
        rw [hvalid] at h
        exact postBond_returns h

/-- A challenge that is queued has its bond in escrow. -/
theorem handleChallenge_returns (h : handleChallenge true envelope state env s = (.returns state', s')) :
    Queues env state.challengeQueue state'.challengeQueue s' := by
  unfold handleChallenge at h
  cases hread : readChallenge envelope with
  | none =>
    rw [hread] at h
    exact queues_of_refused h
  | some c =>
    rw [hread] at h
    simp only [bind_returns] at h
    obtain ⟨refused, s₁, _, h⟩ := h
    cases refused with
    | some message => exact queues_of_refused h
    | none =>
      simp only [bind_returns] at h
      obtain ⟨_, s₂, _, abuseDetector, s₃, _, h⟩ := h
      have hqueues := submitChallenge_returns h
      exact hqueues

theorem posted_of_queued {record : ChallengeRecord} (h : handleChallenge true envelope state env s = (.returns state', s'))
    (queued : state'.challengeQueue = state.challengeQueue ++ [record]) : Posted env record s' := by
  obtain hsame | ⟨record', hrecord', hposted⟩ := handleChallenge_returns h
  · rw [hsame] at queued
    simp at queued
  · rw [hrecord'] at queued
    obtain ⟨rfl, _⟩ := List.cons.inj (List.append_cancel_left queued)
    exact hposted

end Queued

end AgentNetwork.Challenges
