import AgentNetwork.Tools.AuditLog
import AgentNetwork.Library.PythonEquality

/-! `DeterministicSimulator`: the envelopes of a log, replayed in Lamport order. -/

namespace AgentNetwork.Tools

open Policy Python

/-- The dictionaries on the lines of a log; any other JSON value has no `get`. -/
def readEvents : List String → Except Exn (List Dict)
  | [] => .ok []
  | line :: rest =>
    match readLine line with
    | none => readEvents rest
    | some value => do
      let event ← asDict "get" value
      let others ← readEvents rest
      .ok (event :: others)

def hasThread (threadId : String) (event : Dict) : Bool := decide (getKey event "thread_id" = .str threadId)

/-- `event.get("payload", default)`, where it is a dictionary. -/
def payloadOf (event : Dict) : Option Dict :=
  match getOr event "payload" (.obj []) with
  | .obj payload => some payload
  | _ => none

/-- `key in d`. -/
def hasKey (key : String) (d : Dict) : Bool := (d.lookup key).isSome

def isKind (kind : String) (envelope : Dict) : Bool := decide (getKey envelope "kind" = .str kind)

def unhashableKey (value : Json) : Exn := .typeError (unhashable value)

/-- Whether a dictionary takes two values for one key: equal ones, and one object
for itself, as which the reader gives every value that is no number. -/
def sameKey (a b : Json) : Bool := decide (a = b) || equal a b

def assign (key : Json) (value : Dict) : List (Json × Dict) → List (Json × Dict)
  | [] => [(key, value)]
  | entry :: rest => if sameKey entry.1 key then (entry.1, value) :: rest else entry :: assign key value rest

structure SimulationState where
  needs : List (Json × Dict)
  decisions : List (Json × Dict)
  finalizations : List (Json × Dict)
  lamport : Json

def SimulationState.initial : SimulationState := ⟨[], [], [], .int 0⟩

/-- What processing an envelope raises. -/
inductive Fault
  | raised (error : Exn)
  | policyFailed (error : ValidationError)
  | duplicateDecide (needId : Json)

inductive SimulationError
  | noEnvelopes
  | processing (index : Nat) (fault : Fault)

structure SimulationResult where
  success : Bool
  finalState : SimulationState
  envelopesProcessed : Nat
  decideEvents : List Dict
  finalizeEvents : List Dict
  errors : List SimulationError

def lamportOf (envelope : Dict) : Json := getOr envelope "lamport" (.int 0)

/-- `load_audit_log`: an empty thread identifier filters nothing. -/
def loadAuditLog (lines : List String) (threadId : String) : Except Exn (List Dict) := do
  let events ← readEvents lines
  let events := if threadId = "" then events else events.filter (hasThread threadId)
  .ok ((events.filterMap payloadOf).filter (hasKey "kind"))

def insertByLamport (envelope : Dict) : List Dict → Except Exn (List Dict)
  | [] => .ok [envelope]
  | next :: rest => do
    if ← Comparison.less.compare (lamportOf next) (lamportOf envelope) then
      let sorted ← insertByLamport envelope rest
      .ok (next :: sorted)
    else .ok (envelope :: next :: rest)

/-- `sorted` by the Lamport clock: equal clocks stay in order, and comparing two may raise. -/
def sortByLamport : List Dict → Except Exn (List Dict)
  | [] => .ok []
  | envelope :: rest => do
    let sorted ← sortByLamport rest
    insertByLamport envelope sorted

/-- `payload.get("need_id")` as a key, where it is true. -/
def needKey (payload : Json) : Except Exn (Option Json) := do
  let fields ← asDict "get" payload
  let needId := getKey fields "need_id"
  if truthy needId = false then .ok none
  else if needId.hashable then .ok (some needId)
  else .error (unhashableKey needId)

/-- The update of the state that the kind of the envelope asks for. -/
def recordEnvelope (envelope : Dict) (state : SimulationState) : Except Fault SimulationState :=
  let payload := getOr envelope "payload" (.obj [])
  if isKind "NEED" envelope then
    match needKey payload with
    | .error e => .error (.raised e)
    | .ok none => .ok state
    | .ok (some needId) => .ok { state with needs := assign needId envelope state.needs }
  else if isKind "DECIDE" envelope then
    match needKey payload with
    | .error e => .error (.raised e)
    | .ok none => .ok state
    | .ok (some needId) =>
      if state.decisions.any fun entry => sameKey entry.1 needId then .error (.duplicateDecide needId)
      else .ok { state with decisions := assign needId envelope state.decisions }
  else if isKind "FINALIZE" envelope then
    match needKey payload with
    | .error e => .error (.raised e)
    | .ok none => .ok state
    | .ok (some needId) => .ok { state with finalizations := assign needId envelope state.finalizations }
  else .ok state

section Simulate

variable (p : Primitives)

/-- `_process_envelope` with validation: what it raises, and the state it leaves. -/
def processEnvelope (envelope : Dict) (state : SimulationState) : Option Fault × SimulationState :=
  let lamport := lamportOf envelope
  match Comparison.greater.compare lamport state.lamport with
  | .error e => (some (.raised e), state)
  | .ok later =>
    let state := { state with lamport := if later then lamport else state.lamport }
    match validateEnvelope p envelope with
    | .error e => (some (.policyFailed e), state)
    | .ok _ =>
      match recordEnvelope envelope state with
      | .error e => (some e, state)
      | .ok state => (none, state)

/-- The loop of `replay_envelopes`. -/
def replayFrom (index : Nat) : List Dict → SimulationResult → SimulationResult
  | [], result => result
  | envelope :: rest, result =>
    match processEnvelope p envelope result.finalState with
    | (some fault, state) =>
      replayFrom (index + 1) rest
        { result with finalState := state, errors := result.errors ++ [.processing index fault] }
    | (none, state) =>
      replayFrom (index + 1) rest
        { result with
          finalState := state
          decideEvents := result.decideEvents ++ if isKind "DECIDE" envelope then [envelope] else []
          finalizeEvents := result.finalizeEvents ++ if isKind "FINALIZE" envelope then [envelope] else [] }

/-- `replay_envelopes` of a new simulator, with validation. -/
def replayEnvelopes (envelopes : List Dict) : Except Exn SimulationResult :=
  if envelopes.isEmpty then
    .ok { success := false, finalState := .initial, envelopesProcessed := 0, decideEvents := [], finalizeEvents := [],
          errors := [.noEnvelopes] }
  else do
    let sorted ← sortByLamport envelopes
    let result := replayFrom p 0 sorted
      { success := true, finalState := .initial, envelopesProcessed := sorted.length, decideEvents := [],
        finalizeEvents := [], errors := [] }
    .ok { result with success := result.errors.isEmpty }

end Simulate

section Keys

theorem sameKey_comm {a b : Json} (ha : a.hashable = true) (hb : b.hashable = true) : sameKey a b = sameKey b a := by
  have hequal : equal a b = equal b a := by
    cases a with
    | arr | obj => cases ha
    | null =>
      cases b with
      | arr | obj => cases hb
      | null => rfl
      | bool | int | float | str => simp [equal, equalNumbers, Number.ofJson?]
    | str s =>
      cases b with
      | arr | obj => cases hb
      | str t => simp only [equal, eq_comm]
      | null | bool | int | float => simp [equal, equalNumbers, Number.ofJson?]
    | bool | int | float =>
      cases b with
      | arr | obj => cases hb
      | null | str => simp [equal, equalNumbers, Number.ofJson?]
      | bool | int | float =>
        simp only [equal]
        exact equalNumbers_comm _ _
  simp only [sameKey, hequal, eq_comm]

theorem assign_new {key : Json} {entries : List (Json × Dict)} (h : ∀ entry ∈ entries, sameKey entry.1 key = false)
    (value : Dict) : assign key value entries = entries ++ [(key, value)] := by
  induction entries with
  | nil => rfl
  | cons entry rest ih =>
    have hentry := h entry List.mem_cons_self
    have hrest := ih fun e he => h e (List.mem_cons_of_mem _ he)
    rw [assign, if_neg (by simp [hentry]), hrest]
    rfl

end Keys

section Sorting

theorem insertByLamport_perm {envelope : Dict} {l sorted : List Dict} (h : insertByLamport envelope l = .ok sorted) :
    sorted.Perm (envelope :: l) := by
  induction l generalizing sorted with
  | nil =>
    cases h
    exact List.Perm.refl _
  | cons next rest ih =>
    obtain ⟨less, _, h⟩ := Transactional.except_bind_ok.mp h
    cases less with
    | false =>
      cases h
      exact List.Perm.refl _
    | true =>
      obtain ⟨inserted, hinserted, h⟩ := Transactional.except_bind_ok.mp h
      cases h
      exact ((ih hinserted).cons next).trans (List.Perm.swap envelope next rest)

theorem sortByLamport_perm {l sorted : List Dict} (h : sortByLamport l = .ok sorted) : sorted.Perm l := by
  induction l generalizing sorted with
  | nil =>
    cases h
    exact List.Perm.refl _
  | cons envelope rest ih =>
    obtain ⟨others, hothers, h⟩ := Transactional.except_bind_ok.mp h
    exact (insertByLamport_perm h).trans ((ih hothers).cons envelope)

def hasNumber (envelope : Dict) : Bool := (Number.ofJson? (lamportOf envelope)).isSome

theorem insertByLamport_ok {envelope : Dict} {l : List Dict} (he : hasNumber envelope = true)
    (hl : ∀ x ∈ l, hasNumber x = true) : ∃ sorted, insertByLamport envelope l = .ok sorted := by
  induction l with
  | nil => exact ⟨_, rfl⟩
  | cons next rest ih =>
    obtain ⟨n, hn⟩ := Option.isSome_iff_exists.mp (hl next List.mem_cons_self)
    obtain ⟨m, hm⟩ := Option.isSome_iff_exists.mp he
    obtain ⟨inserted, hinserted⟩ := ih fun x hx => hl x (List.mem_cons_of_mem _ hx)
    have hcompare := Comparison.compare_numbers .less hn hm
    cases hless : Comparison.less.numbers n m with
    | false => exact ⟨_, Transactional.except_bind_ok.mpr ⟨false, by rw [hcompare, hless], rfl⟩⟩
    | true =>
      exact ⟨_, Transactional.except_bind_ok.mpr ⟨true, by rw [hcompare, hless],
        Transactional.except_bind_ok.mpr ⟨inserted, hinserted, rfl⟩⟩⟩

theorem sortByLamport_ok {l : List Dict} (hl : ∀ x ∈ l, hasNumber x = true) : ∃ sorted, sortByLamport l = .ok sorted := by
  induction l with
  | nil => exact ⟨_, rfl⟩
  | cons envelope rest ih =>
    obtain ⟨others, hothers⟩ := ih fun x hx => hl x (List.mem_cons_of_mem _ hx)
    have hall : ∀ x ∈ others, hasNumber x = true := by
      intro x hx
      exact hl x (List.mem_cons_of_mem _ ((sortByLamport_perm hothers).mem_iff.mp hx))
    obtain ⟨sorted, hsorted⟩ := insertByLamport_ok (hl envelope List.mem_cons_self) hall
    exact ⟨sorted, Transactional.except_bind_ok.mpr ⟨others, hothers, hsorted⟩⟩

end Sorting

def readsNeed (envelope : Dict) : Bool := isKind "NEED" envelope || isKind "DECIDE" envelope || isKind "FINALIZE" envelope

/-- The key under which the state keeps a decision. -/
def decidedKey (envelope : Dict) : Option Json :=
  if isKind "DECIDE" envelope then
    match needKey (getOr envelope "payload" (.obj [])) with
    | .ok needId => needId
    | .error _ => none
  else none

/-- No two decisions are kept under one key. -/
def NoClash (a b : Dict) : Prop := ∀ m n, decidedKey a = some m → decidedKey b = some n → sameKey m n = false

/-- The state has no decision under the key of the envelope. -/
def Undecided (state : SimulationState) (envelope : Dict) : Prop :=
  ∀ n, decidedKey envelope = some n → ∀ m ∈ state.decisions.map Prod.fst, sameKey m n = false

/-- What an envelope must be for the simulator to process it in some state. -/
structure Processable (p : Primitives) (envelope : Dict) : Prop where
  accepted : Accepted p envelope
  need : readsNeed envelope = true → ∃ needId, needKey (getOr envelope "payload" (.obj [])) = .ok needId

section Processing

variable {p : Primitives} {envelope : Dict} {state state' : SimulationState}

theorem needKey_hashable {payload needId : Json} (h : needKey payload = .ok (some needId)) : needId.hashable = true := by
  obtain ⟨fields, _, h⟩ := Transactional.except_bind_ok.mp h
  dsimp only at h
  split at h
  next => cases h
  next =>
    split at h
    next hhashable =>
      cases h
      exact hhashable
    next => cases h

theorem decidedKey_hashable {needId : Json} (h : decidedKey envelope = some needId) : needId.hashable = true := by
  unfold decidedKey at h
  split at h
  next =>
    split at h
    next hneed => exact needKey_hashable (h ▸ hneed)
    next => cases h
  next => cases h

theorem NoClash.symm {a b : Dict} (h : NoClash a b) : NoClash b a := by
  intro m n hm hn
  rw [sameKey_comm (decidedKey_hashable hm) (decidedKey_hashable hn)]
  exact h n m hn hm

theorem isKind_other {kind other : String} (h : isKind kind envelope = true) (hne : kind ≠ other) :
    isKind other envelope = false := by
  simp only [isKind, decide_eq_true_eq, decide_eq_false_iff_not] at h ⊢
  rw [h, Json.str.injEq]
  exact hne

theorem undecided_of_other (h : isKind "DECIDE" envelope = false) (state : SimulationState) : Undecided state envelope := by
  intro n hn
  simp [decidedKey, h] at hn

/-- The simulator records an envelope whose need it can read and whose decision is
the first for it, and keeps the key of a decision. -/
theorem recordEnvelope_ok (h : recordEnvelope envelope state = .ok state') :
    (readsNeed envelope = true → ∃ needId, needKey (getOr envelope "payload" (.obj [])) = .ok needId) ∧
    Undecided state envelope ∧ state'.lamport = state.lamport ∧
    state'.decisions.map Prod.fst = state.decisions.map Prod.fst ++ (decidedKey envelope).toList := by
  cases hdecide : isKind "DECIDE" envelope with
  | true =>
    have hneed : isKind "NEED" envelope = false := isKind_other hdecide (by decide)
    cases hkey : needKey (getOr envelope "payload" (.obj [])) with
    | error e => simp [recordEnvelope, hneed, hdecide, hkey] at h
    | ok needId =>
      cases needId with
      | none =>
        simp only [recordEnvelope, hneed, hdecide, hkey] at h
        cases h
        simp [Undecided, decidedKey, hdecide, hkey]
      | some needId =>
        simp only [recordEnvelope, hneed, hdecide, hkey] at h
        by_cases hany : state.decisions.any (fun entry => sameKey entry.1 needId) = true
        · simp [hany] at h
        · have hnew : ∀ entry ∈ state.decisions, sameKey entry.1 needId = false := by
            intro entry hentry
            have hnone := List.any_eq_false.mp (Bool.eq_false_of_not_eq_true hany) entry hentry
            simpa using hnone
          simp only [hany, Bool.false_eq_true, if_false, if_true, Except.ok.injEq] at h
          subst h
          refine ⟨fun _ => ⟨_, rfl⟩, ?_, rfl, ?_⟩
          · intro n hn m hm
            simp only [decidedKey, hdecide, hkey, if_true, Option.some.injEq] at hn
            obtain ⟨entry, hentry, rfl⟩ := List.mem_map.mp hm
            rw [← hn]
            exact hnew entry hentry
          · simp [assign_new hnew, decidedKey, hdecide, hkey]
  | false =>
    have hnone : (decidedKey envelope).toList = [] := by simp [decidedKey, hdecide]
    refine ⟨?_, undecided_of_other hdecide state, ?_⟩
    · intro hreads
      cases hkey : needKey (getOr envelope "payload" (.obj [])) with
      | ok needId => exact ⟨needId, rfl⟩
      | error e =>
        cases hneed : isKind "NEED" envelope <;> cases hfinalize : isKind "FINALIZE" envelope <;>
          simp [recordEnvelope, readsNeed, hneed, hdecide, hfinalize, hkey] at h hreads
    · rw [hnone, List.append_nil]
      cases hkey : needKey (getOr envelope "payload" (.obj [])) with
      | error e =>
        cases hneed : isKind "NEED" envelope <;> cases hfinalize : isKind "FINALIZE" envelope <;>
          simp [recordEnvelope, hneed, hdecide, hfinalize, hkey] at h
        exact h ▸ ⟨rfl, rfl⟩
      | ok needId =>
        cases needId <;> cases hneed : isKind "NEED" envelope <;> cases hfinalize : isKind "FINALIZE" envelope <;>
          simp [recordEnvelope, hneed, hdecide, hfinalize, hkey] at h <;> exact h ▸ ⟨rfl, rfl⟩

theorem recordEnvelope_exists
    (hneed : readsNeed envelope = true → ∃ needId, needKey (getOr envelope "payload" (.obj [])) = .ok needId)
    (hnew : Undecided state envelope) : ∃ state', recordEnvelope envelope state = .ok state' := by
  cases hreads : readsNeed envelope with
  | false =>
    simp only [readsNeed, Bool.or_eq_false_iff] at hreads
    exact ⟨state, by simp [recordEnvelope, hreads.1.1, hreads.1.2, hreads.2]⟩
  | true =>
    obtain ⟨needId, hkey⟩ := hneed hreads
    cases hdecide : isKind "DECIDE" envelope with
    | false =>
      cases needId <;> cases hneed : isKind "NEED" envelope <;> cases hfinalize : isKind "FINALIZE" envelope <;>
        simp [recordEnvelope, hneed, hdecide, hfinalize, hkey]
    | true =>
      have hother : isKind "NEED" envelope = false := isKind_other hdecide (by decide)
      cases needId with
      | none => simp [recordEnvelope, hother, hdecide, hkey]
      | some needId =>
        have hany : state.decisions.any (fun entry => sameKey entry.1 needId) = false := by
          rw [List.any_eq_false]
          intro entry hentry
          simpa using hnew needId (by simp [decidedKey, hdecide, hkey]) entry.1 (List.mem_map_of_mem hentry)
        simp [recordEnvelope, hother, hdecide, hkey, hany]

theorem lamportOf_eq (h : Accepted p envelope) : lamportOf envelope = getKey envelope "lamport" := by
  have hlamport := h.lamport
  unfold getKey getOr at hlamport
  unfold lamportOf getKey getOr
  cases hfound : envelope.lookup "lamport" with
  | none =>
    rw [hfound] at hlamport
    cases hlamport
  | some value => rfl

theorem isPositiveInt_number {value : Json} (h : isPositiveInt value = true) : (Number.ofJson? value).isSome = true := by
  cases value with
  | int | bool => rfl
  | null | float | str | arr | obj => cases h

theorem hasNumber_of_accepted (h : Accepted p envelope) : hasNumber envelope = true := by
  rw [hasNumber, lamportOf_eq h]
  exact isPositiveInt_number h.lamport

/-- With a number as the clock of the state an envelope is processed exactly if it
is processable and decides nothing again. -/
theorem processEnvelope_none_iff (hnum : (Number.ofJson? state.lamport).isSome = true) :
    (processEnvelope p envelope state).1 = none ↔ Processable p envelope ∧ Undecided state envelope := by
  unfold processEnvelope
  dsimp only
  cases hcompare : Comparison.greater.compare (lamportOf envelope) state.lamport with
  | error e =>
    constructor
    · intro h
      cases h
    · rintro ⟨hprocessable, _⟩
      obtain ⟨m, hm⟩ := Option.isSome_iff_exists.mp (hasNumber_of_accepted hprocessable.accepted)
      obtain ⟨n, hn⟩ := Option.isSome_iff_exists.mp hnum
      rw [Comparison.compare_numbers .greater hm hn] at hcompare
      cases hcompare
  | ok later =>
    dsimp only
    cases hvalid : validateEnvelope p envelope with
    | error e =>
      constructor
      · intro h
        cases h
      · rintro ⟨hprocessable, _⟩
        rw [(validateEnvelope_iff p).mpr hprocessable.accepted] at hvalid
        cases hvalid
    | ok b =>
      have haccepted := accepted_of_ok p hvalid
      dsimp only
      cases hrecord : recordEnvelope envelope
          { state with lamport := if later = true then lamportOf envelope else state.lamport } with
      | error e =>
        constructor
        · intro h
          cases h
        · rintro ⟨hprocessable, hnew⟩
          obtain ⟨state', hok⟩ := @recordEnvelope_exists envelope
            { state with lamport := if later = true then lamportOf envelope else state.lamport } hprocessable.need hnew
          rw [hok] at hrecord
          cases hrecord
      | ok state' =>
        obtain ⟨hneed, hnew, _⟩ := recordEnvelope_ok hrecord
        exact ⟨fun _ => ⟨⟨haccepted, hneed⟩, hnew⟩, fun _ => rfl⟩

theorem processEnvelope_state (hnum : (Number.ofJson? state.lamport).isSome = true)
    (h : processEnvelope p envelope state = (none, state')) : (Number.ofJson? state'.lamport).isSome = true ∧
      state'.decisions.map Prod.fst = state.decisions.map Prod.fst ++ (decidedKey envelope).toList := by
  unfold processEnvelope at h
  dsimp only at h
  split at h
  next => cases h
  next later hcompare =>
    split at h
    next => cases h
    next =>
      split at h
      next => cases h
      next hrecord =>
        cases h
        obtain ⟨_, _, hlamport, hkeys⟩ := recordEnvelope_ok hrecord
        refine ⟨?_, hkeys⟩
        rw [hlamport]
        dsimp only
        split
        · exact Comparison.compare_ok_of_number hcompare hnum
        · exact hnum

/-- An error stays. -/
theorem replayFrom_errors_ne {index : Nat} {l : List Dict} {result : SimulationResult} (h : result.errors ≠ []) :
    (replayFrom p index l result).errors ≠ [] := by
  induction l generalizing index result with
  | nil => exact h
  | cons envelope rest ih =>
    rw [replayFrom]
    split
    · exact ih (List.append_ne_nil_of_right_ne_nil _ (List.cons_ne_nil _ _))
    · exact ih h

/-- A run has no errors exactly if each envelope is processable and no decision
clashes with an earlier one. -/
theorem replayFrom_errors_iff {index : Nat} {l : List Dict} {result : SimulationResult}
    (hnum : (Number.ofJson? result.finalState.lamport).isSome = true) (hr : result.errors = []) :
    (replayFrom p index l result).errors = [] ↔
      (∀ e ∈ l, Processable p e) ∧ (∀ e ∈ l, Undecided result.finalState e) ∧ l.Pairwise NoClash := by
  induction l generalizing index result with
  | nil => simp [replayFrom, hr]
  | cons envelope rest ih =>
    have hstep := @processEnvelope_none_iff p envelope result.finalState hnum
    rw [replayFrom, List.forall_mem_cons, List.forall_mem_cons, List.pairwise_cons]
    split
    next fault state hprocess =>
      rw [hprocess] at hstep
      constructor
      · intro h
        exact absurd h (replayFrom_errors_ne (List.append_ne_nil_of_right_ne_nil _ (List.cons_ne_nil _ _)))
      · rintro ⟨⟨hprocessable, _⟩, ⟨hnew, _⟩, _⟩
        cases hstep.mpr ⟨hprocessable, hnew⟩
    next state hprocess =>
      obtain ⟨hnum', hkeys⟩ := processEnvelope_state hnum hprocess
      rw [hprocess] at hstep
      obtain ⟨hprocessable, hnew⟩ := hstep.mp rfl
      have hundecided : ∀ e, Undecided state e ↔ Undecided result.finalState e ∧ NoClash envelope e := by
        intro e
        simp only [Undecided, hkeys, List.mem_append, Option.mem_toList, NoClash]
        constructor
        · intro h
          exact ⟨fun n hn m hm => h n hn m (Or.inl hm), fun m n hm hn => h n hn m (Or.inr hm)⟩
        · rintro ⟨hold, hclash⟩ n hn m (hm | hm)
          · exact hold n hn m hm
          · exact hclash m n hm hn
      refine Iff.trans (ih ?_ ?_) ?_
      · exact hnum'
      · exact hr
      constructor
      · rintro ⟨hall, hfree, hpairs⟩
        exact ⟨⟨hprocessable, hall⟩, ⟨hnew, fun e he => ((hundecided e).mp (hfree e he)).1⟩,
          fun e he => ((hundecided e).mp (hfree e he)).2, hpairs⟩
      · rintro ⟨⟨_, hall⟩, ⟨_, hfree⟩, hfirst, hpairs⟩
        exact ⟨hall, fun e he => (hundecided e).mpr ⟨hfree e he, hfirst e he⟩, hpairs⟩

/-- Sorting does not matter: the simulation succeeds exactly if there are
envelopes, each is processable and no two decisions clash. -/
theorem replayEnvelopes_success_iff {envelopes : List Dict} :
    (∃ result, replayEnvelopes p envelopes = .ok result ∧ result.success = true) ↔
      envelopes ≠ [] ∧ (∀ e ∈ envelopes, Processable p e) ∧ envelopes.Pairwise NoClash := by
  unfold replayEnvelopes
  cases envelopes with
  | nil => simp
  | cons first rest =>
    have hrun : ∀ sorted : List Dict, sorted.Perm (first :: rest) →
        ((replayFrom p 0 sorted ⟨true, .initial, sorted.length, [], [], []⟩).errors = [] ↔
          (∀ e ∈ first :: rest, Processable p e) ∧ (first :: rest).Pairwise NoClash) := by
      intro sorted hperm
      have hempty : ∀ e ∈ sorted, Undecided SimulationState.initial e := by
        intro e _ n _ m hm
        cases hm
      have hmem : (∀ e ∈ sorted, Processable p e) ↔ ∀ e ∈ first :: rest, Processable p e := by
        simp only [hperm.mem_iff]
      rw [replayFrom_errors_iff rfl rfl, hmem, hperm.pairwise_iff fun h => h.symm]
      exact ⟨fun h => ⟨h.1, h.2.2⟩, fun h => ⟨h.1, hempty, h.2⟩⟩
    constructor
    · rintro ⟨result, hresult, hsuccess⟩
      obtain ⟨sorted, hsorted, hresult⟩ := Transactional.except_bind_ok.mp hresult
      cases hresult
      exact ⟨List.cons_ne_nil _ _, (hrun sorted (sortByLamport_perm hsorted)).mp (List.isEmpty_iff.mp hsuccess)⟩
    · rintro ⟨_, hall⟩
      obtain ⟨sorted, hsorted⟩ := sortByLamport_ok fun e he => hasNumber_of_accepted (hall.1 e he).accepted
      have hclean := (hrun sorted (sortByLamport_perm hsorted)).mpr hall
      exact ⟨_, Transactional.except_bind_ok.mpr ⟨sorted, hsorted, rfl⟩, List.isEmpty_iff.mpr hclean⟩

end Processing

/-- What the dictionaries of a program take two values to be one key by. -/
def keyOf (value : Json) : Number ⊕ Json :=
  match Number.ofJson? value with
  | some n => .inl n
  | none => .inr value

/-- The value that a dictionary has for a key. -/
def entryOf (key : Json) (entries : List (Json × Dict)) : Option Dict :=
  (entries.find? fun entry => sameKey entry.1 key).map Prod.snd

/-- The key under which an envelope of the kind is recorded. -/
def namedKey (kind : String) (envelope : Dict) : Option Json :=
  if isKind kind envelope then
    match needKey (getOr envelope "payload" (.obj [])) with
    | .ok needId => needId
    | .error _ => none
  else none

def accepts (p : Primitives) (envelope : Dict) : Bool :=
  match validateEnvelope p envelope with
  | .ok _ => true
  | .error _ => false

/-- Whether the envelope is of the kind and for the need. -/
def names (kind : String) (key : Json) (envelope : Dict) : Bool :=
  (namedKey kind envelope).any fun needId => sameKey needId key

/-- Whether the simulator accepts the envelope and it is of the kind and for the need. -/
def takes (p : Primitives) (kind : String) (key : Json) (envelope : Dict) : Bool :=
  accepts p envelope && names kind key envelope

/-- The later of the clock of the state and that of an envelope, where the two can be compared. -/
def laterClock (clock lamport : Json) : Json :=
  match Comparison.greater.compare lamport clock with
  | .ok true => lamport
  | _ => clock

/-- The place of the greatest clock on the line. -/
def latestPlace (l : List Dict) : WithBot (WithTop ℚ) :=
  (l.filterMap fun envelope => Number.ofJson? (lamportOf envelope)).foldl (fun place n => max place n.place)
    (Number.finite 0).place

/-- The decisions that a replay of the envelopes in this order reports. -/
def Decided (p : Primitives) (l : List Dict) (envelope : Dict) : Prop :=
  (envelope ∈ l ∧ Processable p envelope ∧ isKind "DECIDE" envelope = true ∧ namedKey "DECIDE" envelope = none) ∨
    ∃ key, (l.filter (takes p "DECIDE" key)).head? = some envelope

/-- What a replay has after the envelopes: for each need the last one of a kind, or the first decision. -/
structure Follows (p : Primitives) (l : List Dict) (result : SimulationResult) : Prop where
  hashable : ∀ entry ∈ result.finalState.needs ++ result.finalState.decisions ++ result.finalState.finalizations,
    entry.1.hashable = true
  needs : ∀ key, entryOf key result.finalState.needs = (l.filter (takes p "NEED" key)).getLast?
  decisions : ∀ key, entryOf key result.finalState.decisions = (l.filter (takes p "DECIDE" key)).head?
  finalizations : ∀ key, entryOf key result.finalState.finalizations = (l.filter (takes p "FINALIZE" key)).getLast?
  clock : ∃ n, Number.ofJson? result.finalState.lamport = some n ∧ n ≠ .nan ∧ n.place = latestPlace l
  decided : ∀ e, e ∈ result.decideEvents ↔ Decided p l e
  finalized : ∀ e, e ∈ result.finalizeEvents ↔ e ∈ l ∧ Processable p e ∧ isKind "FINALIZE" e = true

section Entries

variable {a b key : Json} {kind : String} {entries : List (Json × Dict)} {envelope : Dict}

theorem sameKey_number {m : Number} (ha : Number.ofJson? a = some m) : sameKey a b = true ↔ Number.ofJson? b = some m := by
  have hequal : equal a b = equalNumbers a b := by
    cases a with
    | null | str | arr | obj => cases ha
    | bool | int | float => simp only [equal]
  rw [sameKey, hequal, equalNumbers, ha]
  constructor
  · intro h
    cases hb : Number.ofJson? b with
    | none =>
      rw [hb, Bool.or_false] at h
      rw [← of_decide_eq_true h, ha] at hb
      cases hb
    | some n =>
      rw [hb] at h
      rcases Bool.or_eq_true_iff.mp h with h | h
      · rw [← of_decide_eq_true h, ha] at hb
        exact hb.symm
      · simp only [Number.equal, Bool.and_eq_true, decide_eq_true_eq] at h
        rw [h.2]
  · intro hb
    rw [hb]
    by_cases hm : m = .nan
    · -- the value that is no number is one object
      subst hm
      simp [Number.nan_of_ofJson ha, Number.nan_of_ofJson hb]
    · simp [Number.equal, hm]

theorem sameKey_iff (ha : a.hashable = true) : sameKey a b = true ↔ keyOf a = keyOf b := by
  cases hnum : Number.ofJson? a with
  | some m =>
    rw [sameKey_number hnum, keyOf, hnum, keyOf]
    cases Number.ofJson? b with
    | none => simp
    | some n => simp [eq_comm]
  | none =>
    cases a with
    | arr | obj => cases ha
    | bool | int | float => cases hnum
    | null => cases b <;> simp [sameKey, equal, keyOf, Number.ofJson?]
    | str s => cases b <;> simp [sameKey, equal, keyOf, Number.ofJson?]

theorem entryOf_assign {value : Dict} (hkey : a.hashable = true) (hentries : ∀ entry ∈ entries, entry.1.hashable = true) :
    entryOf key (assign a value entries) = if sameKey a key then some value else entryOf key entries := by
  induction entries with
  | nil => cases h : sameKey a key <;> simp [assign, entryOf, h]
  | cons entry rest ih =>
    obtain ⟨hentry, hrest⟩ := List.forall_mem_cons.mp hentries
    have ih := ih hrest
    unfold entryOf at ih ⊢
    cases hsame : sameKey entry.1 a with
    | true =>
      have hboth : sameKey entry.1 key = sameKey a key := by
        rw [Bool.eq_iff_iff, sameKey_iff hentry, sameKey_iff hkey, (sameKey_iff hentry).mp hsame]
      rw [assign, if_pos hsame, List.find?_cons, List.find?_cons, hboth]
      cases sameKey a key <;> rfl
    | false =>
      rw [assign, if_neg (by simp [hsame]), List.find?_cons, List.find?_cons]
      cases hfound : sameKey entry.1 key with
      | false => exact ih
      | true =>
        have hnot : sameKey a key = false := by
          rw [Bool.eq_false_iff, Ne, sameKey_iff hkey, ← (sameKey_iff hentry).mp hfound, eq_comm, ← sameKey_iff hentry, hsame]
          exact Bool.false_ne_true
        rw [hnot]
        rfl

theorem hashable_assign {value : Dict} (hkey : a.hashable = true) (hentries : ∀ entry ∈ entries, entry.1.hashable = true) :
    ∀ entry ∈ assign a value entries, entry.1.hashable = true := by
  induction entries with
  | nil => simpa [assign] using hkey
  | cons entry rest ih =>
    obtain ⟨hentry, hrest⟩ := List.forall_mem_cons.mp hentries
    rw [assign]
    split
    · exact List.forall_mem_cons.mpr ⟨hentry, hrest⟩
    · exact List.forall_mem_cons.mpr ⟨hentry, ih hrest⟩

/-- The entries after an envelope of the kind, which replaces what is there. -/
def keepLast (kind : String) (envelope : Dict) (entries : List (Json × Dict)) : List (Json × Dict) :=
  match namedKey kind envelope with
  | some needId => assign needId envelope entries
  | none => entries

/-- The entries after a decision, which replaces nothing. -/
def keepFirst (envelope : Dict) (entries : List (Json × Dict)) : List (Json × Dict) :=
  match namedKey "DECIDE" envelope with
  | some needId => if (entryOf needId entries).isSome then entries else assign needId envelope entries
  | none => entries

theorem namedKey_hashable (h : namedKey kind envelope = some a) : a.hashable = true := by
  unfold namedKey at h
  split at h
  next =>
    split at h
    next hneed => exact needKey_hashable (h ▸ hneed)
    next => cases h
  next => cases h

theorem namedKey_kind (h : namedKey kind envelope = some a) : isKind kind envelope = true := by
  unfold namedKey at h
  split at h
  next hkind => exact hkind
  next => cases h

theorem entryOf_keepLast (hentries : ∀ entry ∈ entries, entry.1.hashable = true) :
    entryOf key (keepLast kind envelope entries) = if names kind key envelope then some envelope else entryOf key entries := by
  unfold keepLast names
  cases hnamed : namedKey kind envelope with
  | none => rfl
  | some needId => exact entryOf_assign (namedKey_hashable hnamed) hentries

theorem entryOf_congr (ha : a.hashable = true) (hentries : ∀ entry ∈ entries, entry.1.hashable = true)
    (h : sameKey a key = true) : entryOf a entries = entryOf key entries := by
  unfold entryOf
  congr 1
  induction entries with
  | nil => rfl
  | cons entry rest ih =>
    obtain ⟨hentry, hrest⟩ := List.forall_mem_cons.mp hentries
    have hboth : sameKey entry.1 a = sameKey entry.1 key := by
      rw [Bool.eq_iff_iff, sameKey_iff hentry, sameKey_iff hentry, (sameKey_iff ha).mp h]
    rw [List.find?_cons, List.find?_cons, hboth, ih hrest]

theorem entryOf_keepFirst (hentries : ∀ entry ∈ entries, entry.1.hashable = true) :
    entryOf key (keepFirst envelope entries) =
      (entryOf key entries).or (if names "DECIDE" key envelope then some envelope else none) := by
  unfold keepFirst names
  cases hnamed : namedKey "DECIDE" envelope with
  | none => simp
  | some needId =>
    have hhashable := namedKey_hashable hnamed
    simp only [Option.any_some]
    by_cases hsame : sameKey needId key = true
    · have hcongr := entryOf_congr hhashable hentries hsame
      cases hfound : entryOf key entries with
      | some d => simp [hcongr, hfound]
      | none => simp [hcongr, hfound, entryOf_assign hhashable hentries, hsame]
    · rw [if_neg hsame, Option.or_none]
      split
      next => rfl
      next => simp [entryOf_assign hhashable hentries, hsame]

theorem hashable_keepLast (hentries : ∀ entry ∈ entries, entry.1.hashable = true) :
    ∀ entry ∈ keepLast kind envelope entries, entry.1.hashable = true := by
  unfold keepLast
  split
  next hnamed => exact hashable_assign (namedKey_hashable hnamed) hentries
  next => exact hentries

theorem hashable_keepFirst (hentries : ∀ entry ∈ entries, entry.1.hashable = true) :
    ∀ entry ∈ keepFirst envelope entries, entry.1.hashable = true := by
  unfold keepFirst
  split
  next hnamed =>
    split
    · exact hentries
    · exact hashable_assign (namedKey_hashable hnamed) hentries
  next => exact hentries

/-- What an envelope leaves of the state when nothing keeps it from being recorded, or when
it is not. -/
theorem recordEnvelope_state (envelope : Dict) (state : SimulationState) :
    (match recordEnvelope envelope state with
      | .ok state' => state'
      | .error _ => state) =
    { state with
      needs := keepLast "NEED" envelope state.needs
      decisions := keepFirst envelope state.decisions
      finalizations := keepLast "FINALIZE" envelope state.finalizations } := by
  have hany : ∀ needId, (entryOf needId state.decisions).isSome =
      state.decisions.any fun entry => sameKey entry.1 needId := by
    intro needId
    rw [entryOf, Option.isSome_map, List.isSome_find?]
  unfold recordEnvelope keepLast keepFirst namedKey
  dsimp only
  cases hneed : isKind "NEED" envelope with
  | true =>
    rw [isKind_other hneed (by decide : "NEED" ≠ "DECIDE"), isKind_other hneed (by decide : "NEED" ≠ "FINALIZE")]
    rcases needKey (getOr envelope "payload" (.obj [])) with e | _ | needId <;> rfl
  | false =>
    cases hdecide : isKind "DECIDE" envelope with
    | true =>
      rw [isKind_other hdecide (by decide : "DECIDE" ≠ "FINALIZE")]
      rcases needKey (getOr envelope "payload" (.obj [])) with e | _ | needId
      · rfl
      · rfl
      · simp only [Bool.false_eq_true, if_false, if_true, hany]
        cases state.decisions.any fun entry => sameKey entry.1 needId <;> rfl
    | false =>
      cases hfinalize : isKind "FINALIZE" envelope with
      | true => rcases needKey (getOr envelope "payload" (.obj [])) with e | _ | needId <;> rfl
      | false => rfl

end Entries

section FinalState

variable {p : Primitives} {envelope : Dict} {state : SimulationState}

theorem accepts_iff : accepts p envelope = true ↔ Accepted p envelope := by
  unfold accepts
  constructor
  · intro h
    split at h
    next hvalid => exact accepted_of_ok p hvalid
    next => cases h
  · intro h
    rw [(validateEnvelope_iff p).mpr h]

/-- The state after an envelope, whatever processing it raises. -/
theorem processEnvelope_snd (hnum : (Number.ofJson? state.lamport).isSome = true) :
    (processEnvelope p envelope state).2 =
      if accepts p envelope then
        { needs := keepLast "NEED" envelope state.needs
          decisions := keepFirst envelope state.decisions
          finalizations := keepLast "FINALIZE" envelope state.finalizations
          lamport := laterClock state.lamport (lamportOf envelope) }
      else { state with lamport := laterClock state.lamport (lamportOf envelope) } := by
  unfold processEnvelope laterClock
  dsimp only
  cases hcompare : Comparison.greater.compare (lamportOf envelope) state.lamport with
  | error e =>
    have hnot : accepts p envelope = false := by
      rw [Bool.eq_false_iff, Ne, accepts_iff]
      intro haccepted
      obtain ⟨m, hm⟩ := Option.isSome_iff_exists.mp (hasNumber_of_accepted haccepted)
      obtain ⟨n, hn⟩ := Option.isSome_iff_exists.mp hnum
      rw [Comparison.compare_numbers .greater hm hn] at hcompare
      cases hcompare
    rw [hnot]
    rfl
  | ok later =>
    have hclock : (if later = true then lamportOf envelope else state.lamport) =
        match Except.ok (ε := Exn) later with
        | .ok true => lamportOf envelope
        | _ => state.lamport := by
      cases later <;> rfl
    dsimp only
    rw [hclock]
    cases hvalid : validateEnvelope p envelope with
    | error e => simp [accepts, hvalid]
    | ok valid =>
      have haccepts : accepts p envelope = true := by simp [accepts, hvalid]
      have hrecord := recordEnvelope_state envelope
        { state with lamport := match Except.ok (ε := Exn) later with
            | .ok true => lamportOf envelope
            | _ => state.lamport }
      rw [haccepts, if_pos rfl]
      dsimp only at hrecord ⊢
      rw [← hrecord]
      split
      next herror => rw [herror]
      next hok => rw [hok]

theorem takes_eq_false (h : accepts p envelope = false) (kind : String) (key : Json) : takes p kind key envelope = false := by
  rw [takes, h, Bool.false_and]

/-- The later clock is a number as that of the state is, at the greater of the two places. -/
theorem laterClock_place {clock : Json} (lamport : Json) {m : Number} (hclock : Number.ofJson? clock = some m) (hm : m ≠ .nan) :
    ∃ n, Number.ofJson? (laterClock clock lamport) = some n ∧ n ≠ .nan ∧
      n.place = match Number.ofJson? lamport with
        | some k => max m.place k.place
        | none => m.place := by
  unfold laterClock
  cases hlamport : Number.ofJson? lamport with
  | none =>
    cases hcompare : Comparison.greater.compare lamport clock with
    | error e => exact ⟨m, hclock, hm, rfl⟩
    | ok later =>
      have hsome := Comparison.compare_ok_of_number hcompare (by rw [hclock]; rfl)
      rw [hlamport] at hsome
      cases hsome
  | some k =>
    have hlt : m.lt k = true ↔ m.place < k.place := Number.lt_iff_place hm
    rw [Comparison.compare_numbers .greater hlamport hclock]
    cases hlater : Comparison.greater.numbers k m with
    | false =>
      refine ⟨m, hclock, hm, (max_eq_left ?_).symm⟩
      exact not_lt.mp fun h => by simp [Comparison.numbers, hlt.mpr h] at hlater
    | true => exact ⟨k, hlamport, Number.ne_nan_of_lt hlater, (max_eq_right (hlt.mp hlater).le).symm⟩

theorem latestPlace_concat (l : List Dict) (envelope : Dict) :
    latestPlace (l ++ [envelope]) = match Number.ofJson? (lamportOf envelope) with
      | some k => max (latestPlace l) k.place
      | none => latestPlace l := by
  unfold latestPlace
  rw [List.filterMap_append, List.foldl_append]
  cases h : Number.ofJson? (lamportOf envelope) <;> simp [h]

/-- The greatest clock does not depend on the order. -/
theorem latestPlace_perm {l l' : List Dict} (h : l.Perm l') : latestPlace l = latestPlace l' := by
  unfold latestPlace
  refine (h.filterMap _).foldl_eq' ?_ _
  intro m _ n _ place
  rw [max_right_comm]

theorem filter_concat {α : Type} (test : α → Bool) (l : List α) (a : α) :
    (l ++ [a]).filter test = l.filter test ++ if test a then [a] else [] := by
  rw [List.filter_append]
  cases h : test a <;> simp [h]

theorem getLast?_filter_concat (test : Dict → Bool) (l : List Dict) (envelope : Dict) :
    ((l ++ [envelope]).filter test).getLast? = if test envelope then some envelope else (l.filter test).getLast? := by
  rw [filter_concat]
  cases test envelope <;> simp

theorem head?_filter_concat (test : Dict → Bool) (l : List Dict) (envelope : Dict) :
    ((l ++ [envelope]).filter test).head? = (l.filter test).head?.or (if test envelope then some envelope else none) := by
  rw [filter_concat, List.head?_append]
  cases test envelope <;> rfl

theorem follows_initial (processed : Nat) : Follows p [] ⟨true, .initial, processed, [], [], []⟩ where
  hashable := nofun
  needs := fun _ => rfl
  decisions := fun _ => rfl
  finalizations := fun _ => rfl
  clock := ⟨.finite 0, rfl, nofun, rfl⟩
  decided := by simp [Decided]
  finalized := by simp

theorem undecided_iff : Undecided state envelope ↔
    ∀ needId, namedKey "DECIDE" envelope = some needId → entryOf needId state.decisions = none := by
  have hnone : ∀ needId, entryOf needId state.decisions = none ↔ ∀ m ∈ state.decisions.map Prod.fst, sameKey m needId = false := by
    intro needId
    simp [entryOf]
  simp only [hnone]
  exact Iff.rfl

theorem takes_congr {a key : Json} (ha : a.hashable = true) (h : sameKey a key = true) (kind : String) :
    takes p kind a = takes p kind key := by
  funext x
  unfold takes names
  congr 1
  cases hneed : namedKey kind x with
  | none => rfl
  | some needId =>
    have hhashable := namedKey_hashable hneed
    rw [Option.any_some, Option.any_some, Bool.eq_iff_iff, sameKey_iff hhashable, sameKey_iff hhashable,
      (sameKey_iff ha).mp h]

theorem takes_self (haccepted : Accepted p envelope) {kind : String} {needId : Json}
    (hneed : namedKey kind envelope = some needId) : takes p kind needId envelope = true := by
  rw [takes, accepts_iff.mpr haccepted, names, hneed, Option.any_some, Bool.true_and,
    sameKey_iff (namedKey_hashable hneed)]

theorem takes_inv {kind : String} {key : Json} (h : takes p kind key envelope = true) :
    Accepted p envelope ∧ ∃ needId, namedKey kind envelope = some needId ∧ sameKey needId key = true := by
  obtain ⟨haccepts, hnames⟩ := Bool.and_eq_true_iff.mp h
  exact ⟨accepts_iff.mp haccepts, (Option.any_eq_true _ _).mp hnames⟩

theorem needKey_of_named {kind : String} {needId : Json} (h : namedKey kind envelope = some needId) :
    needKey (getOr envelope "payload" (.obj [])) = .ok (some needId) := by
  unfold namedKey at h
  rw [if_pos (namedKey_kind h)] at h
  split at h
  next hread => exact h ▸ hread
  next => cases h

/-- The decisions that are reported are those that are processed. -/
theorem decided_concat {l : List Dict}
    (hdecisions : ∀ key, entryOf key state.decisions = (l.filter (takes p "DECIDE" key)).head?) (x : Dict) :
    Decided p (l ++ [envelope]) x ↔ Decided p l x ∨
      x = envelope ∧ (Processable p envelope ∧ Undecided state envelope) ∧ isKind "DECIDE" envelope = true := by
  constructor
  · rintro (⟨hmem, hprocessable, hkind, hnone⟩ | ⟨key, hfirst⟩)
    · rcases List.mem_append.mp hmem with hmem | hmem
      · exact Or.inl (Or.inl ⟨hmem, hprocessable, hkind, hnone⟩)
      · obtain rfl := List.mem_singleton.mp hmem
        refine Or.inr ⟨rfl, ⟨hprocessable, undecided_iff.mpr ?_⟩, hkind⟩
        intro needId hneed
        rw [hnone] at hneed
        cases hneed
    · rw [head?_filter_concat] at hfirst
      cases hold : (l.filter (takes p "DECIDE" key)).head? with
      | some first =>
        rw [hold] at hfirst
        exact Or.inl (Or.inr ⟨key, hold.trans hfirst⟩)
      | none =>
        rw [hold, Option.none_or, Option.ite_none_right_eq_some, Option.some.injEq] at hfirst
        obtain ⟨htakes, rfl⟩ := hfirst
        obtain ⟨haccepted, needId, hneed, hsame⟩ := takes_inv htakes
        refine Or.inr ⟨rfl, ⟨⟨haccepted, fun _ => ⟨_, needKey_of_named hneed⟩⟩, undecided_iff.mpr ?_⟩, namedKey_kind hneed⟩
        intro needId' hneed'
        rw [hneed, Option.some.injEq] at hneed'
        rw [← hneed', hdecisions, takes_congr (namedKey_hashable hneed) hsame, hold]
  · rintro ((⟨hmem, hold⟩ | ⟨key, hfirst⟩) | ⟨rfl, ⟨hprocessable, hnew⟩, hkind⟩)
    · exact Or.inl ⟨List.mem_append_left _ hmem, hold⟩
    · refine Or.inr ⟨key, ?_⟩
      rw [head?_filter_concat, hfirst]
      rfl
    · cases hneed : namedKey "DECIDE" x with
      | none => exact Or.inl ⟨List.mem_append_right _ (List.mem_singleton_self x), hprocessable, hkind, hneed⟩
      | some needId =>
        refine Or.inr ⟨needId, ?_⟩
        rw [head?_filter_concat, ← hdecisions, undecided_iff.mp hnew needId hneed, if_pos (takes_self hprocessable.accepted hneed)]
        rfl

theorem follows_step {l : List Dict} {result result' : SimulationResult} (h : Follows p l result)
    (hstate : result'.finalState = (processEnvelope p envelope result.finalState).2)
    (hdecided : ∀ x, x ∈ result'.decideEvents ↔ x ∈ result.decideEvents ∨
      x = envelope ∧ (processEnvelope p envelope result.finalState).1 = none ∧ isKind "DECIDE" envelope = true)
    (hfinalized : ∀ x, x ∈ result'.finalizeEvents ↔ x ∈ result.finalizeEvents ∨
      x = envelope ∧ (processEnvelope p envelope result.finalState).1 = none ∧ isKind "FINALIZE" envelope = true) :
    Follows p (l ++ [envelope]) result' := by
  obtain ⟨m, hclock, hm, hplace⟩ := h.clock
  have hnum : (Number.ofJson? result.finalState.lamport).isSome = true := by rw [hclock]; rfl
  have hprocessed : (processEnvelope p envelope result.finalState).1 = none ↔
      Processable p envelope ∧ Undecided result.finalState envelope := processEnvelope_none_iff hnum
  rw [processEnvelope_snd hnum] at hstate
  obtain ⟨n, hn, hnan, hlater⟩ := laterClock_place (lamportOf envelope) hclock hm
  have hhashable := h.hashable
  simp only [List.mem_append, or_imp, forall_and] at hhashable
  obtain ⟨⟨hneeds, hdecisions⟩, hfinalizations⟩ := hhashable
  have hclock' : ∃ n, Number.ofJson? result'.finalState.lamport = some n ∧ n ≠ .nan ∧
      n.place = latestPlace (l ++ [envelope]) := by
    refine ⟨n, ?_, hnan, ?_⟩
    · rw [hstate]
      split <;> exact hn
    · rw [hlater, latestPlace_concat, hplace]
  have hdecided' : ∀ x, x ∈ result'.decideEvents ↔ Decided p (l ++ [envelope]) x := by
    intro x
    rw [hdecided, h.decided, decided_concat h.decisions, hprocessed]
  have hfinalized' : ∀ x, x ∈ result'.finalizeEvents ↔
      x ∈ l ++ [envelope] ∧ Processable p x ∧ isKind "FINALIZE" x = true := by
    intro x
    rw [hfinalized, h.finalized, hprocessed, List.mem_append, List.mem_singleton, or_and_right]
    refine or_congr_right (and_congr_right ?_)
    rintro rfl
    constructor
    · rintro ⟨⟨hprocessable, _⟩, hkind⟩
      exact ⟨hprocessable, hkind⟩
    · rintro ⟨hprocessable, hkind⟩
      exact ⟨⟨hprocessable, undecided_of_other (isKind_other hkind (by decide)) _⟩, hkind⟩
  cases haccepts : accepts p envelope with
  | false =>
    rw [haccepts, if_neg Bool.false_ne_true] at hstate
    have hnone := fun kind key => takes_eq_false (p := p) haccepts kind key
    refine ⟨?_, ?_, ?_, ?_, hclock', hdecided', hfinalized'⟩
    · rw [hstate]
      exact h.hashable
    · intro key
      rw [hstate, getLast?_filter_concat, hnone]
      exact h.needs key
    · intro key
      rw [hstate, head?_filter_concat, hnone, if_neg Bool.false_ne_true, Option.or_none]
      exact h.decisions key
    · intro key
      rw [hstate, getLast?_filter_concat, hnone]
      exact h.finalizations key
  | true =>
    rw [haccepts, if_pos rfl] at hstate
    have hnames : ∀ kind key, takes p kind key envelope = names kind key envelope := by
      intro kind key
      rw [takes, haccepts, Bool.true_and]
    refine ⟨?_, ?_, ?_, ?_, hclock', hdecided', hfinalized'⟩
    · rw [hstate]
      simp only [List.mem_append, or_imp, forall_and]
      exact ⟨⟨hashable_keepLast hneeds, hashable_keepFirst hdecisions⟩, hashable_keepLast hfinalizations⟩
    · intro key
      rw [hstate, getLast?_filter_concat, hnames, entryOf_keepLast hneeds, h.needs]
    · intro key
      rw [hstate, head?_filter_concat, hnames, entryOf_keepFirst hdecisions, h.decisions]
    · intro key
      rw [hstate, getLast?_filter_concat, hnames, entryOf_keepLast hfinalizations, h.finalizations]

theorem follows_replayFrom {index : Nat} {rest l : List Dict} {result : SimulationResult} (h : Follows p l result) :
    Follows p (l ++ rest) (replayFrom p index rest result) := by
  induction rest generalizing index l result with
  | nil =>
    rw [List.append_nil]
    exact h
  | cons envelope rest ih =>
    rw [← List.singleton_append, ← List.append_assoc, List.singleton_append, replayFrom]
    split
    next fault state hprocess =>
      refine ih (follows_step h ?_ ?_ ?_)
      · rw [hprocess]
      · simp [hprocess]
      · simp [hprocess]
    next state hprocess =>
      refine ih (follows_step h ?_ ?_ ?_)
      · rw [hprocess]
      · intro x
        rw [hprocess, List.mem_append]
        cases isKind "DECIDE" envelope <;> simp
      · intro x
        rw [hprocess, List.mem_append]
        cases isKind "FINALIZE" envelope <;> simp

/-- What a replay has in the end, of the envelopes in the order of the sort. -/
theorem replayEnvelopes_follows {envelopes sorted : List Dict} (h : sortByLamport envelopes = .ok sorted) :
    ∃ result, replayEnvelopes p envelopes = .ok result ∧ Follows p sorted result := by
  unfold replayEnvelopes
  cases envelopes with
  | nil =>
    cases h
    exact ⟨_, rfl, { follows_initial 0 with }⟩
  | cons first rest =>
    have hrun : Follows p ([] ++ sorted) (replayFrom p 0 sorted _) := follows_replayFrom (follows_initial sorted.length)
    refine ⟨_, Transactional.except_bind_ok.mpr ⟨sorted, h, rfl⟩, ?_⟩
    rw [List.nil_append] at hrun
    exact { hrun with }

end FinalState

end AgentNetwork.Tools
