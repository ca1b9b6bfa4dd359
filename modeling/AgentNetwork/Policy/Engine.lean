import AgentNetwork.Policy.Envelope
import AgentNetwork.Library.PythonNumber
import AgentNetwork.Library.PythonText
import AgentNetwork.Library.Program

namespace AgentNetwork.Policy

structure PolicyResult where
  allowed : Bool
  reasons : List String
  gasUsed : Nat
  policyVersion : String
  deriving DecidableEq

/-- `evaluate` of an engine, with the text of what it raises. -/
abbrev Engine := Dict → Except String PolicyResult

def maxPayloadSize : Int := 1048576

def requiredFields : List String := ["kind", "thread_id", "lamport", "actor_id"]

section BaseEngine

variable (isPrintable : Char → Bool)

/-- `payload_size >= MAX_PAYLOAD_SIZE`. -/
def payloadTooLarge (payloadSize : Json) : Except String Bool :=
  match Python.Number.ofJson? payloadSize with
  | some size => .ok (Python.Number.le (.finite maxPayloadSize) size)
  | none =>
    .error ("'>=' not supported between instances of '" ++ Python.typeName payloadSize ++ "' and 'int'")

def unhashable (value : Json) : String := "unhashable type: '" ++ Python.typeName value ++ "'"

/-- `BasePolicyEngine.evaluate`, which `OPAEngine` falls back to without its
binary. A set has no order of its own: missing fields are listed as they are declared. -/
def baseEvaluate : Engine := fun envelope => do
  let kind := getKey envelope "kind"
  if kind.hashable = false then .error (unhashable kind) else
  let kindReasons := if isAllowedKind allowedKinds kind then [] else ["Invalid message kind: " ++ Python.str isPrintable kind]
  let payloadSize := getOr envelope "payload_size" (.int 0)
  let tooLarge ← payloadTooLarge payloadSize
  let sizeReasons :=
    if tooLarge then ["Payload too large: " ++ Python.str isPrintable payloadSize ++ " bytes (max: 1048576)"] else []
  let missing := requiredFields.filter fun field => field ∉ envelope.map Prod.fst
  let missingReasons := if missing = [] then [] else ["Missing required fields: " ++ ", ".intercalate missing]
  let reasons := kindReasons ++ sizeReasons ++ missingReasons
  let allowed : Bool := reasons = []
  .ok { allowed := allowed
        reasons := if allowed then ["Envelope passes all policy checks"] else reasons
        gasUsed := envelope.length
        policyVersion := "1.0.0" }

/-- An envelope of another kind is never allowed. -/
theorem baseEvaluate_denies {envelope : Dict} (hkind : isAllowedKind allowedKinds (getKey envelope "kind") = false)
    {result : PolicyResult} (h : baseEvaluate isPrintable envelope = .ok result) : result.allowed = false := by
  unfold baseEvaluate at h
  dsimp only at h
  split at h
  next => cases h
  next =>
    cases hsize : payloadTooLarge (getOr envelope "payload_size" (.int 0)) with
    | error message =>
      rw [hsize] at h
      cases h
    | ok tooLarge =>
      rw [hsize] at h
      cases h
      simp [hkind]

end BaseEngine

structure GasMeter where
  limit : Nat
  used : Nat
  operations : Nat
  enabled : Bool

namespace GasMeter

def new (gasLimit : Nat) : GasMeter := ⟨gasLimit, 0, 0, true⟩

def reset (meter : GasMeter) : GasMeter := { meter with used := 0, operations := 0 }

/-- `consume`: the gas is spent before the limit is looked at; the error carries
the meter it leaves and its text. -/
def consume (amount : Nat) (operation : String) (meter : GasMeter) : Except (GasMeter × String) GasMeter :=
  let meter := { meter with used := meter.used + amount, operations := meter.operations + 1 }
  if meter.enabled ∧ meter.limit < meter.used then
    .error (meter, "Gas limit exceeded: " ++ toString meter.used ++ " > " ++ toString meter.limit ++
      " (operation: " ++ operation ++ ")")
  else .ok meter

def costFieldAccess : Nat := 1
def costComparison : Nat := 2
def costSetMembership : Nat := 5
def costIterationPerItem : Nat := 10
def costFunctionCall : Nat := 20

def consumeFieldAccess (field : String) : GasMeter → Except (GasMeter × String) GasMeter :=
  consume costFieldAccess ("field_access:" ++ field)

def consumeComparison : GasMeter → Except (GasMeter × String) GasMeter := consume costComparison "comparison"

def consumeSetMembership : GasMeter → Except (GasMeter × String) GasMeter := consume costSetMembership "set_membership"

def consumeIteration (itemCount : Nat) : GasMeter → Except (GasMeter × String) GasMeter :=
  consume (costIterationPerItem * itemCount) ("iteration:" ++ toString itemCount ++ "_items")

def consumeFunctionCall (name : String) : GasMeter → Except (GasMeter × String) GasMeter :=
  consume costFunctionCall ("function:" ++ name)

end GasMeter

/-- What may end an evaluation early: the gas, or an exception of the engine. -/
inductive Interrupt
  | gasExceeded (meter : GasMeter) (message : String)
  | raised (message : String)

def metered (step : Except (GasMeter × String) GasMeter) : Except Interrupt GasMeter :=
  step.mapError fun e => .gasExceeded e.1 e.2

def meteredFields : List String := ["kind", "thread_id", "lamport", "actor_id", "payload_size"]

def meterReasons (reasons : List String) (meter : GasMeter) : Except Interrupt GasMeter :=
  if reasons = [] then .ok meter else metered (meter.consumeIteration reasons.length)

/-- `_evaluate_with_metering`. -/
def evaluateWithMetering (engine : Engine) (inputData : Dict) (meter : GasMeter) :
    Except Interrupt (PolicyResult × GasMeter) := do
  let present := meteredFields.filter fun field => field ∈ inputData.map Prod.fst
  let meter ← present.foldlM (fun meter field => metered (meter.consumeFieldAccess field)) meter
  let meter ← metered meter.consumeSetMembership
  let meter ← metered meter.consumeComparison
  let meter ← metered meter.consumeComparison
  let meter ← metered (meter.consumeFunctionCall "evaluate")
  let result ← (engine inputData).mapError Interrupt.raised
  let meter ← meterReasons result.reasons meter
  .ok (result, meter)

/-- `WASMRuntime.evaluate` over an engine. -/
def wasmEvaluate (engine : Engine) (gasLimit : Nat) : Engine := fun inputData =>
  match evaluateWithMetering engine inputData (.new gasLimit) with
  | .ok (result, meter) => .ok { result with gasUsed := meter.used }
  | .error (.gasExceeded meter message) =>
    .ok { allowed := false, reasons := [message], gasUsed := meter.used, policyVersion := "1.0.0" }
  | .error (.raised message) => .error message

theorem evaluateWithMetering_result {engine : Engine} {inputData : Dict} {meter : GasMeter}
    {r : PolicyResult × GasMeter} (h : evaluateWithMetering engine inputData meter = .ok r) :
    engine inputData = .ok r.1 := by
  unfold evaluateWithMetering at h
  obtain ⟨m₁, _, h⟩ := Transactional.except_bind_ok.mp h
  obtain ⟨m₂, _, h⟩ := Transactional.except_bind_ok.mp h
  obtain ⟨m₃, _, h⟩ := Transactional.except_bind_ok.mp h
  obtain ⟨m₄, _, h⟩ := Transactional.except_bind_ok.mp h
  obtain ⟨m₅, _, h⟩ := Transactional.except_bind_ok.mp h
  obtain ⟨result, hresult, h⟩ := Transactional.except_bind_ok.mp h
  obtain ⟨m₆, _, h⟩ := Transactional.except_bind_ok.mp h
  cases h
  cases hengine : engine inputData with
  | error message => simp [hengine, Except.mapError] at hresult
  | ok other =>
    rw [hengine] at hresult
    cases hresult
    rfl

/-- Metering never turns a denial into a permission. -/
theorem wasmEvaluate_denies {engine : Engine} {gasLimit : Nat} {inputData : Dict}
    (hdenies : ∀ result, engine inputData = .ok result → result.allowed = false) {result : PolicyResult}
    (h : wasmEvaluate engine gasLimit inputData = .ok result) : result.allowed = false := by
  unfold wasmEvaluate at h
  split at h
  next inner meter hrun =>
    cases h
    exact hdenies inner (evaluateWithMetering_result hrun)
  next =>
    cases h
    rfl
  next => cases h

section Metering

open GasMeter

/-- What an evaluation is charged before the engine runs, in order. -/
def chargesBefore (inputData : Dict) : List (Nat × String) :=
  (meteredFields.filter fun field => field ∈ inputData.map Prod.fst).map (fun field =>
    (costFieldAccess, "field_access:" ++ field)) ++
  [(costSetMembership, "set_membership"), (costComparison, "comparison"), (costComparison, "comparison"),
    (costFunctionCall, "function:" ++ "evaluate")]

/-- What it is charged for the reasons of the result. -/
def chargesAfter (reasons : List String) : List (Nat × String) :=
  if reasons = [] then []
  else [(costIterationPerItem * reasons.length, "iteration:" ++ toString reasons.length ++ "_items")]

def totalOf (charges : List (Nat × String)) : Nat := (charges.map Prod.fst).sum

def chargeAll (charges : List (Nat × String)) (meter : GasMeter) : Except Interrupt GasMeter :=
  charges.foldlM (fun meter charge => metered (consume charge.1 charge.2 meter)) meter

def spent (charges : List (Nat × String)) (meter : GasMeter) : GasMeter :=
  { meter with used := meter.used + totalOf charges, operations := meter.operations + charges.length }

def exceededMessage (used limit : Nat) (operation : String) : String :=
  "Gas limit exceeded: " ++ toString used ++ " > " ++ toString limit ++ " (operation: " ++ operation ++ ")"

theorem evaluateWithMetering_charges (engine : Engine) (inputData : Dict) (meter : GasMeter) :
    evaluateWithMetering engine inputData meter = (do
      let meter ← chargeAll (chargesBefore inputData) meter
      let result ← (engine inputData).mapError Interrupt.raised
      let meter ← chargeAll (chargesAfter result.reasons) meter
      .ok (result, meter)) := by
  have hafter : ∀ (reasons : List String) (meter : GasMeter), chargeAll (chargesAfter reasons) meter = meterReasons reasons meter := by
    intro reasons meter
    unfold chargesAfter meterReasons
    split
    next => rfl
    next => simp [chargeAll, consumeIteration]
  unfold evaluateWithMetering chargesBefore
  rw [chargeAll, List.foldlM_append, List.foldlM_map]
  simp only [hafter, List.foldlM_cons, List.foldlM_nil, bind_assoc, pure_bind]
  rfl

variable {charges : List (Nat × String)} {meter : GasMeter}

theorem consume_eq (henabled : meter.enabled = true) (charge : Nat × String) : metered (consume charge.1 charge.2 meter) =
    if meter.limit < meter.used + charge.1 then
      .error (.gasExceeded (spent [charge] meter) (exceededMessage (meter.used + charge.1) meter.limit charge.2))
    else .ok (spent [charge] meter) := by
  unfold consume spent
  simp only [henabled, true_and, totalOf, List.map_cons, List.map_nil, List.sum_cons, List.sum_nil, add_zero, List.length_singleton]
  split <;> rfl

theorem totalOf_cons (charge : Nat × String) (rest : List (Nat × String)) :
    totalOf (charge :: rest) = charge.1 + totalOf rest := by
  rw [totalOf, List.map_cons, List.sum_cons, totalOf]

theorem spent_cons (charge : Nat × String) (rest : List (Nat × String)) (meter : GasMeter) :
    spent (charge :: rest) meter = spent rest (spent [charge] meter) := by
  unfold spent
  simp only [totalOf_cons, List.length_cons, List.length_nil, GasMeter.mk.injEq, true_and, and_true]
  have hnil : totalOf [] = 0 := rfl
  omega

theorem chargeAll_cons (charge : Nat × String) (rest : List (Nat × String)) (meter : GasMeter) :
    chargeAll (charge :: rest) meter = metered (consume charge.1 charge.2 meter) >>= chargeAll rest := by
  rw [chargeAll, List.foldlM_cons]
  rfl

theorem chargeAll_fits (henabled : meter.enabled = true) (h : meter.used + totalOf charges ≤ meter.limit) :
    chargeAll charges meter = .ok (spent charges meter) := by
  induction charges generalizing meter with
  | nil => rfl
  | cons charge rest ih =>
    rw [totalOf_cons] at h
    have hspent : (spent [charge] meter).used = meter.used + charge.1 := by simp [spent, totalOf]
    have hfits : ¬meter.limit < meter.used + charge.1 := by omega
    have hrest : (spent [charge] meter).used + totalOf rest ≤ (spent [charge] meter).limit := by
      rw [hspent]
      show _ ≤ meter.limit
      omega
    rw [chargeAll_cons, consume_eq henabled, if_neg hfits, spent_cons charge rest]
    exact @ih (spent [charge] meter) henabled hrest

/-- The first charge that does not fit ends the evaluation; it is on the meter. -/
theorem chargeAll_exceeds (henabled : meter.enabled = true) (hstart : meter.used ≤ meter.limit)
    (h : meter.limit < meter.used + totalOf charges) : ∃ before charge after, charges = before ++ charge :: after ∧
      meter.used + totalOf before ≤ meter.limit ∧ meter.limit < meter.used + totalOf before + charge.1 ∧
      chargeAll charges meter = .error (.gasExceeded (spent (before ++ [charge]) meter)
        (exceededMessage (meter.used + totalOf before + charge.1) meter.limit charge.2)) := by
  induction charges generalizing meter with
  | nil =>
    have hnil : totalOf [] = 0 := rfl
    omega
  | cons charge rest ih =>
    rw [chargeAll_cons, consume_eq henabled]
    by_cases hfits : meter.limit < meter.used + charge.1
    · refine ⟨[], charge, rest, rfl, hstart, hfits, ?_⟩
      rw [if_pos hfits]
      rfl
    · have hspent : (spent [charge] meter).used = meter.used + charge.1 := by simp [spent, totalOf]
      have hlimit : (spent [charge] meter).limit = meter.limit := rfl
      rw [totalOf_cons] at h
      obtain ⟨before, last, after, rfl, hbefore, hlast, hrun⟩ :=
        @ih (spent [charge] meter) henabled (by omega) (by omega)
      rw [hspent, hlimit] at hbefore hlast hrun
      refine ⟨charge :: before, last, after, rfl, by rw [totalOf_cons]; omega, by rw [totalOf_cons]; omega, ?_⟩
      rw [if_neg hfits, totalOf_cons, List.cons_append, spent_cons charge (before ++ [last]), ← Nat.add_assoc]
      exact hrun

/-- The first charge that does not fit decides, and the engine has not run. -/
theorem wasmEvaluate_stops (engine : Engine) {gasLimit : Nat} {inputData : Dict}
    (h : gasLimit < totalOf (chargesBefore inputData)) :
    ∃ before charge after, chargesBefore inputData = before ++ charge :: after ∧ totalOf before ≤ gasLimit ∧
      gasLimit < totalOf before + charge.1 ∧
      wasmEvaluate engine gasLimit inputData = .ok ⟨false, [exceededMessage (totalOf before + charge.1) gasLimit charge.2],
        totalOf before + charge.1, "1.0.0"⟩ := by
  have henabled : (GasMeter.new gasLimit).enabled = true := rfl
  have hused : (GasMeter.new gasLimit).used = 0 := rfl
  have hlimit : (GasMeter.new gasLimit).limit = gasLimit := rfl
  unfold wasmEvaluate
  rw [evaluateWithMetering_charges]
  obtain ⟨before, charge, after, hsplit, hbefore, hlast, hrun⟩ :=
    @chargeAll_exceeds (chargesBefore inputData) (GasMeter.new gasLimit) henabled (Nat.zero_le _) (by omega)
  rw [hused, hlimit] at hbefore hlast hrun
  rw [Nat.zero_add] at hbefore hlast hrun
  refine ⟨before, charge, after, hsplit, hbefore, hlast, ?_⟩
  rw [hrun]
  have hgas : (spent (before ++ [charge]) (GasMeter.new gasLimit)).used = totalOf before + charge.1 := by
    simp [spent, totalOf, GasMeter.new]
  show Except.ok (PolicyResult.mk false _ (spent (before ++ [charge]) (GasMeter.new gasLimit)).used _) = _
  rw [hgas]

theorem wasmEvaluate_runs (engine : Engine) {gasLimit : Nat} {inputData : Dict}
    (h : totalOf (chargesBefore inputData) ≤ gasLimit) :
    (∀ message, engine inputData = .error message → wasmEvaluate engine gasLimit inputData = .error message) ∧
      ∀ result, engine inputData = .ok result →
        let gas := totalOf (chargesBefore inputData) + costIterationPerItem * result.reasons.length
        wasmEvaluate engine gasLimit inputData =
          if gas ≤ gasLimit then .ok { result with gasUsed := gas }
          else .ok ⟨false, [exceededMessage gas gasLimit ("iteration:" ++ toString result.reasons.length ++ "_items")],
            gas, "1.0.0"⟩ := by
  have henabled : (GasMeter.new gasLimit).enabled = true := rfl
  have hused : (GasMeter.new gasLimit).used = 0 := rfl
  have hlimit : (GasMeter.new gasLimit).limit = gasLimit := rfl
  unfold wasmEvaluate
  rw [evaluateWithMetering_charges]
  rw [@chargeAll_fits (chargesBefore inputData) (GasMeter.new gasLimit) henabled (by omega)]
  refine ⟨fun message hengine => ?_, fun result hengine => ?_⟩
  · rw [hengine]
    rfl
  · rw [hengine]
    obtain ⟨paid, hpaid⟩ : ∃ paid, paid = spent (chargesBefore inputData) (GasMeter.new gasLimit) := ⟨_, rfl⟩
    have hpaidUsed : paid.used = totalOf (chargesBefore inputData) := by rw [hpaid]; exact Nat.zero_add _
    have hpaidLimit : paid.limit = gasLimit := by rw [hpaid]; rfl
    have hpaidEnabled : paid.enabled = true := by rw [hpaid]; rfl
    rw [← hpaid]
    show (match (chargeAll (chargesAfter result.reasons) paid >>= fun meter => Except.ok (result, meter)) with
      | .ok (result, meter) => Except.ok { result with gasUsed := meter.used }
      | .error (.gasExceeded meter message) => .ok (PolicyResult.mk false [message] meter.used "1.0.0")
      | .error (.raised message) => .error message) = _
    have hafter : totalOf (chargesAfter result.reasons) = costIterationPerItem * result.reasons.length := by
      unfold chargesAfter
      split
      next hnone => rw [hnone]; rfl
      next => rfl
    by_cases hfits : totalOf (chargesBefore inputData) + costIterationPerItem * result.reasons.length ≤ gasLimit
    · have hall := @chargeAll_fits (chargesAfter result.reasons) paid hpaidEnabled (by omega)
      rw [if_pos hfits, hall, ← hpaidUsed, ← hafter]
      rfl
    · have hsome : result.reasons ≠ [] := by
        intro hnone
        rw [hnone] at hfits
        exact hfits (by simpa using h)
      have hone := consume_eq hpaidEnabled
        (costIterationPerItem * result.reasons.length, "iteration:" ++ toString result.reasons.length ++ "_items")
      rw [hpaidUsed, hpaidLimit, if_pos (by dsimp only; omega)] at hone
      rw [if_neg hfits, chargesAfter, if_neg hsome, chargeAll_cons, hone, ← hpaidUsed]
      rfl

/-- The runtime gives the result of its engine with the gas of all charges, where they fit; else a denial by the first one
that does not. -/
theorem wasm_evaluate_exact (engine : Engine) (gasLimit : Nat) (inputData : Dict) :
    (gasLimit < totalOf (chargesBefore inputData) →
      ∃ before charge after, chargesBefore inputData = before ++ charge :: after ∧ totalOf before ≤ gasLimit ∧
        gasLimit < totalOf before + charge.1 ∧
        wasmEvaluate engine gasLimit inputData = .ok ⟨false, [exceededMessage (totalOf before + charge.1) gasLimit charge.2],
          totalOf before + charge.1, "1.0.0"⟩) ∧
    (totalOf (chargesBefore inputData) ≤ gasLimit →
      (∀ message, engine inputData = .error message → wasmEvaluate engine gasLimit inputData = .error message) ∧
      ∀ result, engine inputData = .ok result →
        let gas := totalOf (chargesBefore inputData) + costIterationPerItem * result.reasons.length
        wasmEvaluate engine gasLimit inputData =
          if gas ≤ gasLimit then .ok { result with gasUsed := gas }
          else .ok ⟨false, [exceededMessage gas gasLimit ("iteration:" ++ toString result.reasons.length ++ "_items")],
            gas, "1.0.0"⟩) :=
  ⟨wasmEvaluate_stops engine, wasmEvaluate_runs engine⟩

end Metering

def defaultGasLimit : Nat := 100000

/-- `OPAEngine()`. -/
def defaultOpaEngine (isPrintable : Char → Bool) : Engine := baseEvaluate isPrintable

/-- `WASMRuntime()`. -/
def defaultWasmRuntime (isPrintable : Char → Bool) : Engine := wasmEvaluate (baseEvaluate isPrintable) defaultGasLimit

theorem totalOf_chargesBefore_le (inputData : Dict) : totalOf (chargesBefore inputData) ≤ 34 := by
  have hconstant : ∀ fields : List String,
      totalOf (fields.map fun field => (GasMeter.costFieldAccess, "field_access:" ++ field)) = fields.length := by
    intro fields
    induction fields with
    | nil => rfl
    | cons field rest ih =>
      rw [List.map_cons, totalOf_cons, ih, List.length_cons]
      exact Nat.add_comm _ _
  have hpresent := List.length_filter_le (fun field => decide (field ∈ inputData.map Prod.fst)) meteredFields
  have hsplit : totalOf (chargesBefore inputData) =
      (meteredFields.filter fun field => field ∈ inputData.map Prod.fst).length + 29 := by
    rw [chargesBefore, totalOf, List.map_append, List.sum_append, ← totalOf, hconstant]
    rfl
  have hfields : meteredFields.length = 5 := rfl
  omega

theorem length_ite_le {c : Prop} [Decidable c] {a b : List String} {n : Nat} (ha : a.length ≤ n) (hb : b.length ≤ n) :
    (if c then a else b).length ≤ n := by
  split
  next => exact ha
  next => exact hb

theorem baseEvaluate_reasons {isPrintable : Char → Bool} {envelope : Dict} {result : PolicyResult}
    (h : baseEvaluate isPrintable envelope = .ok result) : result.reasons.length ≤ 3 := by
  have hone : ∀ (c : Prop) [Decidable c] (reason : String), (if c then [] else [reason]).length ≤ 1 := fun _ _ _ =>
    length_ite_le (Nat.zero_le _) le_rfl
  have hsizeReasons : ∀ (c : Prop) [Decidable c] (reason : String), (if c then [reason] else []).length ≤ 1 := fun _ _ _ =>
    length_ite_le le_rfl (Nat.zero_le _)
  unfold baseEvaluate at h
  dsimp only at h
  split at h
  next => cases h
  next =>
    cases hsize : payloadTooLarge (getOr envelope "payload_size" (.int 0)) with
    | error message =>
      rw [hsize] at h
      cases h
    | ok tooLarge =>
      rw [hsize] at h
      cases h
      refine length_ite_le (Nat.le_add_left 1 2) ?_
      rw [List.length_append, List.length_append]
      exact Nat.add_le_add (Nat.add_le_add (hone _ _) (hsizeReasons _ _)) (hone _ _)

/-- The gas of an evaluation that is not stopped. -/
def fullGas (envelope : Dict) (result : PolicyResult) : Nat :=
  totalOf (chargesBefore envelope) + GasMeter.costIterationPerItem * result.reasons.length

/-- The limit of the runtime is never reached: it gives what the engine gives, and the gas that was spent. -/
theorem default_runtime_agrees (isPrintable : Char → Bool) (envelope : Dict) :
    defaultWasmRuntime isPrintable envelope = (defaultOpaEngine isPrintable envelope).map fun result =>
      { result with gasUsed := fullGas envelope result } := by
  have hbefore := totalOf_chargesBefore_le envelope
  have hlimit : defaultGasLimit = 100000 := rfl
  obtain ⟨hraised, hreturned⟩ := @wasmEvaluate_runs (baseEvaluate isPrintable) defaultGasLimit envelope (by omega)
  unfold defaultWasmRuntime defaultOpaEngine
  cases hengine : baseEvaluate isPrintable envelope with
  | error message => exact hraised message hengine
  | ok result =>
    have hreasons := baseEvaluate_reasons hengine
    have hcost : GasMeter.costIterationPerItem = 10 := rfl
    have hrun := hreturned result hengine
    dsimp only at hrun
    rw [if_pos (by rw [hcost]; omega)] at hrun
    exact hrun

end AgentNetwork.Policy
