import AgentNetwork.Challenges.Submission
import AgentNetwork.Economics.EscrowFrames

namespace AgentNetwork.Challenges

open Relational Transactional Transactional.Prog Handlers

inductive ChallengeOutcome
  | upheld
  | rejected
  | withdrawn
  deriving DecidableEq

structure OutcomeResult where
  outcome : ChallengeOutcome
  bondReturned : Int
  bondSlashed : Int
  rewardAmount : Int
  verifiersSlashed : List String
  slashAmountPerVerifier : Int
  deriving DecidableEq

/-- Whether the handler has a ledger and a stake manager; both are over one database. -/
structure OutcomeHandler where
  ledger : Bool
  stakeManager : Bool
  deriving DecidableEq

namespace OutcomeHandler

def verifierSlashPercent : Int := 50

def rewardPercent : Int := 20

/-- Half of each verifier's stake, where the caller does not say what was slashed. -/
def totalOfStakes (verifiers : List String) (verifierStakes : Table String Int) : Int :=
  if verifiers ≠ [] ∧ verifierStakes.entries ≠ [] then
    (verifiers.map fun verifierId => (verifierStakes.get? verifierId).getD 0 * verifierSlashPercent / 100).sum
  else 0

/-- The loop that slashes the verifiers: those slashed so far, and the last amount. -/
def slashStakes (stakeManager : Bool) (challengeId : String) (verifierStakes : Table String Int) :
    List String → List String → Int → Econ (List String × Int)
  | [], slashed, perVerifier => pure (slashed, perVerifier)
  | verifierId :: rest, slashed, perVerifier => do
    let stake := (verifierStakes.get? verifierId).getD 0
    if stake > 0 then do
      let slashAmount := Double.trunc (Double.scale stake (1 / 2))
      runIf stakeManager do
        let eventId ← uuid4
        let timestamp ← timeNs
        SlashingRules.executeSlash ⟨eventId, verifierId, .failedChallenge, slashAmount, challengeId, 10, timestamp⟩
      slashStakes stakeManager challengeId verifierStakes rest (slashed ++ [verifierId]) slashAmount
    else slashStakes stakeManager challengeId verifierStakes rest slashed perVerifier

def slashVerifiers (handler : OutcomeHandler) (challengeId : String) (verifiers : List String)
    (verifierStakes : Table String Int) : Econ (List String × Int) :=
  if verifiers ≠ [] ∧ verifierStakes.entries ≠ [] then
    slashStakes handler.stakeManager challengeId verifierStakes verifiers [] 0
  else pure ([], 0)

/-- The release of the bond and the reward; what either raises is only printed. -/
def payChallenger (challengeId challengerId : String) (rewardAmount : Int) : Econ Unit := do
  let _ ← attempted (CreditLedger.releaseEscrow (some (challengeBond challengeId)) challengerId)
  let _ ← attempted (CreditLedger.transfer CreditLedger.systemAccountId challengerId rewardAmount false)
  pure ()

def processUpheld (handler : OutcomeHandler) (challengeId : String) (bondAmount : Int) (challengerId : String)
    (verifiers : List String) (verifierStakes : Table String Int) (totalSlashed : Option Int) : Econ OutcomeResult := do
  let totalSlashed := totalSlashed.getD (totalOfStakes verifiers verifierStakes)
  let rewardAmount := Double.trunc (Double.nearest ((totalSlashed * rewardPercent : Int) / 100))
  let (verifiersSlashed, perVerifier) ← handler.slashVerifiers challengeId verifiers verifierStakes
  runIf handler.ledger (payChallenger challengeId challengerId rewardAmount)
  pure ⟨.upheld, bondAmount, 0, rewardAmount, verifiersSlashed, perVerifier⟩

/-- With a ledger or without one, the bond remains in escrow. -/
def processRejected (bondAmount : Int) : Econ OutcomeResult := pure ⟨.rejected, 0, bondAmount, 0, [], 0⟩

/-- The fee is a tenth of the bond; the escrow is left as it is. -/
def processWithdrawn (bondAmount : Int) : Econ OutcomeResult :=
  let feeAmount := Double.trunc (Double.scale bondAmount (Double.nearest (1 / 10)))
  pure ⟨.withdrawn, bondAmount - feeAmount, feeAmount, 0, [], 0⟩

def processOutcome (handler : OutcomeHandler) (challengeId : String) (outcome : ChallengeOutcome) (bondAmount : Int)
    (challengerId : String) (verifiers : Option (List String)) (verifierStakes : Option (Table String Int))
    (totalSlashed : Option Int) : Econ OutcomeResult :=
  match outcome with
  | .upheld =>
    handler.processUpheld challengeId bondAmount challengerId (verifiers.getD []) (verifierStakes.getD .empty) totalSlashed
  | .rejected => processRejected bondAmount
  | .withdrawn => processWithdrawn bondAmount

end OutcomeHandler

/-- The result accounts for the bond, and the money has moved as it says. -/
structure SettlesBond (record : ChallengeRecord) (result : OutcomeResult) (db db' : Db) : Prop where
  whole : result.bondReturned + result.bondSlashed = record.bondAmount
  closed : ∃ e, db'.escrows.get? record.escrowId = some e ∧ e.released = true
  unlocked : StakeManager.getStakedAmount record.challengerId db' =
    StakeManager.getStakedAmount record.challengerId db - record.bondAmount
  paid : CreditLedger.getBalance record.challengerId db' =
    CreditLedger.getBalance record.challengerId db + result.bondReturned + result.rewardAmount

/-- What is reported as returned and as slashed is the whole bond. -/
theorem processOutcome_whole {env : Env} {s s' : Session Db} {handler : OutcomeHandler} {challengeId challengerId : String}
    {outcome : ChallengeOutcome} {bondAmount : Int} {verifiers : Option (List String)}
    {verifierStakes : Option (Table String Int)} {totalSlashed : Option Int} {result : OutcomeResult}
    (processed : handler.processOutcome challengeId outcome bondAmount challengerId verifiers verifierStakes totalSlashed env s =
      (.returns result, s')) : result.bondReturned + result.bondSlashed = bondAmount := by
  cases outcome with
  | upheld =>
    obtain ⟨⟨verifiersSlashed, perVerifier⟩, s₁, _, hpaid⟩ := bind_returns.mp processed
    obtain ⟨_, s₂, _, hresult⟩ := bind_returns.mp hpaid
    cases Outcome.returns.inj (Prod.mk.inj hresult).1
    exact add_zero bondAmount
  | rejected =>
    cases Outcome.returns.inj (Prod.mk.inj processed).1
    exact zero_add bondAmount
  | withdrawn =>
    cases Outcome.returns.inj (Prod.mk.inj processed).1
    exact sub_add_cancel bondAmount _

section Frames

variable {record : ChallengeRecord}

theorem onEscrows_holdsBond : OnEscrows (HoldsBond record) := by
  intro db db' hsame hheld
  unfold HoldsBond
  rw [hsame]
  exact hheld

/-- The release of one escrow leaves the others as they are. -/
theorem preserves_releaseEscrow {key : String} (hne : record.escrowId ≠ key) (t : String) :
    Preserves (HoldsBond record) (CreditLedger.releaseEscrow (some key) t) := by
  refine onEscrows_holdsBond.releaseEscrow _ _ ?_
  intro k hk db db' hmark ⟨e, hget, he⟩
  cases Except.ok.inj hmark
  cases Option.some.inj hk
  exact ⟨e, by rw [Table.get?_modify, if_neg hne]; exact hget, he⟩

theorem secures_slashStakes (stakeManager : Bool) (challengeId : String) (verifierStakes : Table String Int)
    (verifiers slashed : List String) (perVerifier : Int) :
    Secures (HoldsBond record) (OutcomeHandler.slashStakes stakeManager challengeId verifierStakes verifiers slashed perVerifier) := by
  induction verifiers generalizing slashed perVerifier with
  | nil => exact .readOnly (ReadOnly.pure _)
  | cons verifierId rest ih =>
    unfold OutcomeHandler.slashStakes
    dsimp only
    split
    next =>
      refine Secures.bind (.runIf ?_) fun _ => ih _ _
      refine Secures.bind (.readOnly ReadOnly.uuid4) fun _ => Secures.bind (.readOnly ReadOnly.timeNs) fun _ => ?_
      exact .transaction (SlashingRules.atomic_executeSlash _) (onEscrows_holdsBond.executeSlash _)
    next => exact ih _ _

theorem secures_slashVerifiers (handler : OutcomeHandler) (challengeId : String) (verifiers : List String)
    (verifierStakes : Table String Int) :
    Secures (HoldsBond record) (handler.slashVerifiers challengeId verifiers verifierStakes) := by
  unfold OutcomeHandler.slashVerifiers
  split
  · exact secures_slashStakes _ _ _ _ _ _
  · exact .readOnly (ReadOnly.pure _)

theorem secures_payChallenger {challengeId : String} (hne : record.escrowId ≠ challengeBond challengeId) (challengerId : String)
    (rewardAmount : Int) : Secures (HoldsBond record) (OutcomeHandler.payChallenger challengeId challengerId rewardAmount) := by
  have hrelease : Secures (HoldsBond record) (CreditLedger.releaseEscrow (some (challengeBond challengeId)) challengerId) :=
    .transaction (CreditLedger.atomic_releaseEscrow _ _) (preserves_releaseEscrow hne _)
  have htransfer : Secures (HoldsBond record)
      (CreditLedger.transfer CreditLedger.systemAccountId challengerId rewardAmount false) :=
    .transaction (CreditLedger.atomic_transfer _ _ _ _) (onEscrows_holdsBond.transfer _ _ _ _)
  exact hrelease.attempted.bind fun _ => htransfer.attempted.bind fun _ => .readOnly (ReadOnly.pure _)

/-- Whatever the outcome, the bond stays in its escrow: the only release is under
the id of the challenge. -/
theorem secures_processOutcome (hne : record.escrowId ≠ challengeBond record.challengeId) (handler : OutcomeHandler)
    (outcome : ChallengeOutcome) (verifiers : Option (List String)) (verifierStakes : Option (Table String Int))
    (totalSlashed : Option Int) :
    Secures (HoldsBond record) (handler.processOutcome record.challengeId outcome record.bondAmount record.challengerId verifiers
      verifierStakes totalSlashed) := by
  cases outcome with
  | upheld =>
    refine Secures.bind (secures_slashVerifiers _ _ _ _) ?_
    rintro ⟨verifiersSlashed, perVerifier⟩
    refine Secures.bind ?_ fun _ => .readOnly (ReadOnly.pure _)
    exact .runIf (secures_payChallenger hne _ _)
  | rejected => exact .readOnly (ReadOnly.pure _)
  | withdrawn => exact .readOnly (ReadOnly.pure _)

end Frames

theorem challengeBond_injective : Function.Injective challengeBond := by
  intro a b h
  have htext (id : String) : (challengeBond id).toList = "challenge_bond_".toList ++ id.toList := String.toList_append
  have hlists := congrArg String.toList h
  rw [htext, htext] at hlists
  exact String.toList_injective (List.append_cancel_left hlists)

theorem Posted.escrowId_ne {env : Env} {record : ChallengeRecord} {s : Session Db} (h : Posted env record s)
    (fresh : Function.Injective env.uuid4) : record.escrowId ≠ challengeBond record.challengeId := by
  obtain ⟨n, m, hne, hescrow, hchallenge⟩ := h.ids
  rw [hescrow, hchallenge]
  exact fun hsame => hne (fresh (challengeBond_injective hsame))

/-- No outcome settles the bond of a queued challenge, in any session where its
escrow still holds it. -/
theorem no_outcome_settles_the_bond {env : Env} {envelope : Envelope ChallengePayload} {state state' : HandlerState}
    {s₀ s₁ s : Session Db} {record : ChallengeRecord} (fresh : Function.Injective env.uuid4)
    (handled : handleChallenge true envelope state env s₀ = (.returns state', s₁))
    (queued : state'.challengeQueue = state.challengeQueue ++ [record]) (held : Settled (HoldsBond record) s)
    (handler : OutcomeHandler) (outcome : ChallengeOutcome) (verifiers : Option (List String))
    (verifierStakes : Option (Table String Int)) (totalSlashed : Option Int) :
    ¬∃ result s', handler.processOutcome record.challengeId outcome record.bondAmount record.challengerId verifiers
        verifierStakes totalSlashed env s = (.returns result, s') ∧ SettlesBond record result s.db s'.db := by
  rintro ⟨result, s', processed, hsettles⟩
  have hne := (posted_of_queued handled queued).escrowId_ne fresh
  have hstill : Settled (HoldsBond record) s' :=
    secures_processOutcome hne handler outcome verifiers verifierStakes totalSlashed env s _ s' held processed nofun
  obtain ⟨e, hget, _, _, hopen⟩ := hstill.2
  obtain ⟨e', hget', hreleased⟩ := hsettles.closed
  cases hget.symm.trans hget'
  exact absurd (hopen.symm.trans hreleased) nofun

/-- Alice challenges a task whose window is open; she has exactly the bond, Bob
has a stake and the system account is funded. -/
def sampleEnvelope : Envelope ChallengePayload :=
  ⟨"thread", "alice", 1, ⟨some "task", some "commit", some "SCHEMA_VIOLATION", some (String.ofList (List.replicate 64 'a')), none,
    some 1, none⟩⟩

def sampleState : HandlerState := ⟨.upsert .empty "task" ⟨0, 86400, 0⟩, .empty, []⟩

def sampleSession : Session Db :=
  runAll (countingEnv false) (Call.run sampleConfig)
    [.createAccount "alice" 10 none, .createAccount "bob" 100 none, .stake "bob" 100, .createAccount "system" 1000 none]
    Session.empty

def sampleRecord : ChallengeRecord :=
  let metadata := [("task_id", Json.str "task"), ("commit_id", .str "commit"), ("challenger_id", .str "alice"),
    ("complexity", .str "SIMPLE")]
  let proof : ProofSchema := ⟨.schemaViolation, String.ofList (List.replicate 64 'a'), 1, 0, metadata⟩
  ⟨"6", "task", "commit", "alice", proof.toDict, 10, challengeBond "4", "SIMPLE", 1, "thread", "queued", 9⟩

/-- The session after Alice's challenge. -/
def sampleQueued : Session Db := (handleChallenge true sampleEnvelope sampleState (countingEnv false) sampleSession).2

theorem sample_handled : handleChallenge true sampleEnvelope sampleState (countingEnv false) sampleSession =
    (.returns { sampleState with
      abuseDetector := .upsert .empty "alice" ⟨1, 4, [4]⟩, challengeQueue := [sampleRecord] }, sampleQueued) :=
  Prod.ext (by decide +kernel) rfl

theorem no_outcome_settles_the_bond_sample :
    ¬∃ result s', OutcomeHandler.processOutcome ⟨true, true⟩ "6" .withdrawn 10 "alice" none none none (countingEnv false)
        sampleQueued = (.returns result, s') ∧ SettlesBond sampleRecord result sampleQueued.db s'.db :=
  no_outcome_settles_the_bond (countingEnv_injective false) sample_handled rfl
    (posted_of_queued sample_handled rfl).holds ⟨true, true⟩ .withdrawn none none none

/-- Alice is upheld and told that her bond is returned; only the reward reaches
her, and the bond stays locked. -/
theorem upheld_bond_stays_locked :
    let settle := OutcomeHandler.processOutcome ⟨true, true⟩ "6" .upheld 10 "alice" (some ["bob"])
      (some (.upsert .empty "bob" 100)) none (countingEnv false) sampleQueued
    CreditLedger.getBalance "system" sampleQueued.db = 1000 ∧ HoldsBond sampleRecord sampleQueued.db ∧
      settle.1 = .returns ⟨.upheld, 10, 0, 10, ["bob"], 50⟩ ∧
      CreditLedger.getBalance "alice" sampleQueued.db = 0 ∧ CreditLedger.getBalance "alice" settle.2.db = 10 ∧
      StakeManager.getStakedAmount "alice" settle.2.db = 10 ∧
      ¬SettlesBond sampleRecord ⟨.upheld, 10, 0, 10, ["bob"], 50⟩ sampleQueued.db settle.2.db := by
  refine ⟨by decide +kernel, (posted_of_queued sample_handled rfl).holds.2, by decide +kernel, by decide +kernel,
    by decide +kernel, by decide +kernel, ?_⟩
  intro hsettles
  have hlocked := hsettles.unlocked
  revert hlocked
  decide +kernel

end AgentNetwork.Challenges
