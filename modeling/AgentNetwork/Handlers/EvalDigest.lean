import AgentNetwork.Handlers.AttestCommit
import AgentNetwork.Library.Program
import AgentNetwork.Library.PythonEquality

/-! Digests of policy evaluations: what the recorded attestations commit to, and what a
verifier of a digest accepts. -/

namespace AgentNetwork.Handlers

open Plan Policy Python Transactional

/-- The digest of `create_eval_record`, of any policy hash. -/
def evalDigest (sha256Hex : String → String) (policyInput decision policyHash : Json) : String :=
  sha256Hex (cjson (.obj [("input", policyInput.sorted), ("decision", decision.sorted), ("policy_hash", policyHash)]))

def verifyEvalDigest (sha256Hex : String → String) (envelope : Dict) : Bool :=
  let claimedDigest := getKey envelope "policy_eval_digest"
  let policyInput := getKey envelope "policy_input"
  let decision := getKey envelope "policy_decision"
  let policyHash := getKey envelope "policy_hash"
  if ¬Python.truthy claimedDigest then false
  else if ¬[policyInput, decision, policyHash].all Python.truthy then false
  else equal (.str (evalDigest sha256Hex policyInput decision policyHash)) claimedDigest

/-- What `handle_attest` evaluates. -/
def policyInputOf (message : CommitAttest) (commitId : String) : Json :=
  .obj [("commit_id", .str commitId), ("task_id", getKey message.payload "task_id"),
    ("telemetry", getOr message.payload "telemetry" (.obj [])), ("attester", .str message.senderPkB64)]

def policyDecisionOf (decision : PolicyDecision) : Json :=
  .obj [("allowed", .bool decision.allowed), ("reason", orNull decision.reason), ("gas_used", .int decision.gasUsed)]

def policyHashOf (decision : PolicyDecision) : Json := .str ((given decision.policyHash).getD "unknown")

section Digests

variable {sha256Hex : String → String}

theorem attestationOp_payload (message : CommitAttest) (commitId : String) (decision : PolicyDecision) (draws : Draws) :
    (attestationOp sha256Hex message commitId decision draws).payload.get? "policy_eval_digest" =
        some (.str (evalDigest sha256Hex (policyInputOf message commitId) (policyDecisionOf decision) (policyHashOf decision))) ∧
      (attestationOp sha256Hex message commitId decision draws).payload.get? "policy_decision" = some (policyDecisionOf decision) := by
  unfold attestationOp dict
  simp only [List.foldl_cons, List.foldl_nil, Relational.Table.get?_upsert]
  exact ⟨rfl, rfl⟩

theorem wellFormed_getOr {d : Dict} (h : Json.wellFormedFields d = true) {default : Json} (hdefault : default.wellFormed = true)
    (key : String) : (getOr d key default).wellFormed = true := by
  rw [getOr]
  cases hlookup : d.lookup key with
  | none => exact hdefault
  | some value =>
    obtain ⟨hnodup, hvalues⟩ := Json.wellFormedFields_iff.mp h
    exact hvalues _ ((Relational.Table.lookup_eq_some_iff_mem hnodup).mp hlookup)

theorem wellFormed_digested {policyInput decision policyHash : Json} (hinput : policyInput.wellFormed = true)
    (hdecision : decision.wellFormed = true) (hhash : policyHash.wellFormed = true) :
    (Json.obj [("input", policyInput.sorted), ("decision", decision.sorted), ("policy_hash", policyHash)]).wellFormed = true := by
  refine Json.wellFormedFields_iff.mpr ⟨by simp only [List.map_cons, List.map_nil]; decide, ?_⟩
  simp only [List.forall_mem_cons]
  exact ⟨Json.wellFormed_sorted _ hinput, Json.wellFormed_sorted _ hdecision, hhash, List.forall_mem_nil _⟩

/-- Digests are the same just when what is digested is, up to the order of keys. -/
theorem evalDigest_eq_iff (hinj : Function.Injective sha256Hex) {i d h i' d' h' : Json} (hi : i.wellFormed = true)
    (hd : d.wellFormed = true) (hh : h.wellFormed = true) (hi' : i'.wellFormed = true) (hd' : d'.wellFormed = true)
    (hh' : h'.wellFormed = true) :
    evalDigest sha256Hex i d h = evalDigest sha256Hex i' d' h' ↔ i.sorted = i'.sorted ∧ d.sorted = d'.sorted ∧ h.sorted = h'.sorted := by
  have hsorted : ∀ i d h : Json, (Json.obj [("input", i.sorted), ("decision", d.sorted), ("policy_hash", h)]).sorted =
      .obj [("decision", d.sorted), ("input", i.sorted), ("policy_hash", h.sorted)] := by
    intro i d h
    simp +decide [Json.sorted, Json.sortFields, Json.sortedFields, List.orderedInsert, Json.sorted_sorted]
  rw [evalDigest, evalDigest, hinj.eq_iff, cjson, cjson, Json.canonicalStyle, Json.write_sorted_eq_iff Json.compactStyle_readable
    (wellFormed_digested hi hd hh) (wellFormed_digested hi' hd' hh'), hsorted, hsorted]
  simp only [Json.obj.injEq, List.cons.injEq, Prod.mk.injEq, true_and, and_true]
  exact and_left_comm

/-- A digest verifies for what it was made of, up to the order of keys, and for nothing else. -/
theorem verifies_iff (hinj : Function.Injective sha256Hex) (hne : ∀ text, sha256Hex text ≠ "") {i d h : Json}
    (hi : i.wellFormed = true) (hd : d.wellFormed = true) (hh : h.wellFormed = true)
    (htruthy : Python.truthy i = true ∧ Python.truthy d = true ∧ Python.truthy h = true) {envelope : Dict} (henvelope : Json.wellFormedFields envelope = true)
    (hdigest : envelope.lookup "policy_eval_digest" = some (.str (evalDigest sha256Hex i d h))) :
    verifyEvalDigest sha256Hex envelope = true ↔ (getKey envelope "policy_input").sorted = i.sorted ∧
      (getKey envelope "policy_decision").sorted = d.sorted ∧ (getKey envelope "policy_hash").sorted = h.sorted := by
  have hclaimed : getKey envelope "policy_eval_digest" = .str (evalDigest sha256Hex i d h) := by rw [getKey, getOr, hdigest]; rfl
  have hwell : ∀ key, (getKey envelope key).wellFormed = true := wellFormed_getOr henvelope rfl
  have hsame := evalDigest_eq_iff hinj (hwell "policy_input") (hwell "policy_decision") (hwell "policy_hash") hi hd hh
  have hequal : ∀ a b : String, equal (.str a) (.str b) = true ↔ a = b := fun a b => decide_eq_true_iff
  have hgiven : Python.truthy (.str (evalDigest sha256Hex i d h)) = true := by
    simp only [Python.truthy, decide_eq_true_eq]
    exact hne _
  unfold verifyEvalDigest
  rw [hclaimed, ← hsame]
  simp only [hgiven, not_true_eq_false, if_false]
  split
  next hfalse =>
    refine iff_of_false Bool.false_ne_true fun heq => hfalse ?_
    obtain ⟨hi', hd', hh'⟩ := hsame.mp heq
    simp only [List.all_cons, List.all_nil, Bool.and_true, Bool.and_eq_true]
    rw [← truthy_sorted (getKey envelope "policy_input"), ← truthy_sorted (getKey envelope "policy_decision"),
      ← truthy_sorted (getKey envelope "policy_hash"), hi', hd', hh', truthy_sorted, truthy_sorted, truthy_sorted]
    exact htruthy
  next => exact hequal _ _

end Digests

section Attestations

variable {κ : Type} {isPrintable : Char → Bool} {sha256Hex : String → String}
  {consensusAdapter : Option (DecideCall → κ → Except String Bool × κ)} {kPlan : Nat}

/-- An envelope with the digest of the operation verifies just when it has, up to the order
of keys, the decision that the operation records, the policy hash of the decision, and what
was evaluated. -/
def Binds (sha256Hex : String → String) (message : CommitAttest) (commitId : String) (decision : PolicyDecision) (op : PlanOp) : Prop :=
  ∀ envelope, Json.wellFormedFields envelope = true → envelope.lookup "policy_eval_digest" = op.payload.get? "policy_eval_digest" →
    (verifyEvalDigest sha256Hex envelope = true ↔
      (getKey envelope "policy_input").sorted = (policyInputOf message commitId).sorted ∧
      some (getKey envelope "policy_decision").sorted = (op.payload.get? "policy_decision").map Json.sorted ∧
      getKey envelope "policy_hash" = policyHashOf decision)

theorem given_getD_ne (value : Option String) : (given value).getD "unknown" ≠ "" := by
  rw [given]
  cases hvalue : value.filter (· ≠ "") with
  | none => decide
  | some text => exact of_decide_eq_true (Option.filter_eq_some_iff.mp hvalue).2

theorem attestationOp_binds (hinj : Function.Injective sha256Hex) (hne : ∀ text, sha256Hex text ≠ "") {message : CommitAttest}
    (hmessage : Json.wellFormedFields message.payload = true) (commitId : String) (decision : PolicyDecision) (draws : Draws) :
    Binds sha256Hex message commitId decision (attestationOp sha256Hex message commitId decision draws) := by
  intro envelope henvelope hlookup
  obtain ⟨hdigest, hdecision⟩ := @attestationOp_payload sha256Hex message commitId decision draws
  have hinput : (policyInputOf message commitId).wellFormed = true := by
    refine Json.wellFormedFields_iff.mpr ⟨by simp only [List.map_cons, List.map_nil]; decide, ?_⟩
    simp only [List.forall_mem_cons]
    exact ⟨rfl, wellFormed_getOr hmessage rfl _, wellFormed_getOr hmessage rfl _, rfl, List.forall_mem_nil _⟩
  have hmade : (policyDecisionOf decision).wellFormed = true := by
    refine Json.wellFormedFields_iff.mpr ⟨by simp only [List.map_cons, List.map_nil]; decide, ?_⟩
    simp only [List.forall_mem_cons]
    refine ⟨rfl, ?_, rfl, List.forall_mem_nil _⟩
    cases decision.reason <;> rfl
  have hhash : Python.truthy (policyHashOf decision) = true := decide_eq_true (given_getD_ne decision.policyHash)
  have hstr : (policyHashOf decision).sorted = policyHashOf decision := rfl
  rw [hlookup.symm] at hdigest
  rw [verifies_iff hinj hne hinput hmade rfl ⟨rfl, rfl, hhash⟩ henvelope hdigest, hdecision, hstr, policyHashOf, Json.sorted_eq_str,
    Option.map_some, Option.some.injEq]

theorem appendOp_ops_cases {op : PlanOp} (hkind : op.opType = .annotate) (store : PlanStore) :
    (store.appendOp op).2.ops = store.ops ∨ (store.appendOp op).2.ops = store.ops ++ [op] := by
  unfold PlanStore.appendOp PlanStore.insertOp
  split
  next store' happend =>
    obtain ⟨inserted, hinsert, happly⟩ := except_bind_ok.mp happend
    unfold PlanStore.applyOp at happly
    rw [hkind] at happly
    cases happly
    split at hinsert
    · cases hinsert
    · split at hinsert
      · cases hinsert
      · cases hinsert
        exact Or.inr rfl
  next => exact Or.inl rfl

theorem handleAttest_ops (message : CommitAttest) (draws : Draws) (node : CommitNode κ) :
    (handleAttest isPrintable sha256Hex consensusAdapter kPlan message draws node).1.planStore.ops = node.planStore.ops ∨
      ∃ commitId, given message.commitId = some commitId ∧
        (handleAttest isPrintable sha256Hex consensusAdapter kPlan message draws node).1.planStore.ops =
          node.planStore.ops ++ [attestationOp sha256Hex message commitId (commitGate isPrintable message) draws] := by
  cases hcommit : given message.commitId with
  | none =>
    rw [handleAttest_returns isPrintable sha256Hex consensusAdapter kPlan hcommit]
    exact Or.inl rfl
  | some commitId =>
    have hops := @appendOp_ops_cases (attestationOp sha256Hex message commitId (commitGate isPrintable message) draws) rfl
      node.planStore
    have hstore : (handleAttest isPrintable sha256Hex consensusAdapter kPlan message draws node).1.planStore =
        (node.planStore.appendOp (attestationOp sha256Hex message commitId (commitGate isPrintable message) draws)).2 := by
      unfold handleAttest
      rw [hcommit]
      dsimp only [Called.iterate]
      split
      next h => rw [h]
      next h => rw [h]
    rw [hstore]
    exact hops.imp_right fun h => ⟨commitId, rfl, h⟩

/-- Every operation that a run of attestations adds records one of them, and its digest
verifies for the evaluation that the gate made of it and for no other. -/
theorem recorded_digests_bind (hinj : Function.Injective sha256Hex) (hne : ∀ text, sha256Hex text ≠ "")
    (run : List (CommitAttest × Draws)) (hrun : ∀ m ∈ run, Json.wellFormedFields m.1.payload = true) (node : CommitNode κ) :
    ∀ op ∈ (handleAll isPrintable sha256Hex consensusAdapter kPlan run node).planStore.ops, op ∈ node.planStore.ops ∨
      ∃ m ∈ run, ∃ commitId, given m.1.commitId = some commitId ∧
        op = attestationOp sha256Hex m.1 commitId (commitGate isPrintable m.1) m.2 ∧
        Binds sha256Hex m.1 commitId (commitGate isPrintable m.1) op := by
  induction run generalizing node with
  | nil => exact fun op hop => Or.inl hop
  | cons m rest ih =>
    obtain ⟨hm, hrest⟩ := List.forall_mem_cons.mp hrun
    intro op hop
    obtain hbefore | ⟨m', hm', hrecorded⟩ := ih hrest _ op hop
    · have hops := @handleAttest_ops _ isPrintable sha256Hex consensusAdapter kPlan m.1 m.2 node
      obtain hsame | ⟨commitId, hcommit, hadded⟩ := hops
      · exact Or.inl (hsame ▸ hbefore)
      · rw [hadded] at hbefore
        obtain hold | hnew := List.mem_append.mp hbefore
        · exact Or.inl hold
        · rw [List.mem_singleton] at hnew
          refine Or.inr ⟨m, List.mem_cons_self, commitId, hcommit, hnew, ?_⟩
          rw [hnew]
          exact attestationOp_binds hinj hne hm commitId _ _
    · exact Or.inr ⟨m', List.mem_cons_of_mem _ hm', hrecorded⟩

end Attestations

def markedHash (text : String) : String := "#" ++ text

theorem recorded_digests_bind_sample :
    let adapter : Option (DecideCall → Unit → Except String Bool × Unit) := none
    let node : CommitNode Unit := ⟨.init, ()⟩
    let run : List (CommitAttest × Draws) := [(sampleAttest, ⟨fun n => if n = 0 then "attestation" else "op", fun _ => 0⟩)]
    ∀ op ∈ (handleAll (fun _ => true) markedHash adapter 1 run node).planStore.ops, op ∈ node.planStore.ops ∨
      ∃ m ∈ run, ∃ commitId, given m.1.commitId = some commitId ∧
        op = attestationOp markedHash m.1 commitId (commitGate (fun _ => true) m.1) m.2 ∧
        Binds markedHash m.1 commitId (commitGate (fun _ => true) m.1) op := by
  intro adapter node run
  have hinj : Function.Injective markedHash := fun a b h => (String.append_right_inj "#").mp h
  have hne : ∀ text, markedHash text ≠ "" := fun text h => by
    have hlist := congrArg String.toList h
    simp [markedHash] at hlist
  exact recorded_digests_bind hinj hne run (List.forall_mem_singleton.mpr rfl) node

end AgentNetwork.Handlers
