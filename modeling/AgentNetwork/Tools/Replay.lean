import AgentNetwork.Tools.Simulator
import AgentNetwork.Policy.Gates

/-! `replay_thread`: a thread is checked by replaying its records of the audit log. -/

namespace AgentNetwork.Tools

open Policy Python

/-- `a <= b` where `b` is a number. -/
def atMost (a b : Json) : Except Exn Bool :=
  match Number.ofJson? a, Number.ofJson? b with
  | some m, some n => .ok (m.le n)
  | _, _ => .error (.typeError s!"'<=' not supported between instances of '{typeName a}' and '{typeName b}'")

/-- The loop over the envelopes in the order of the log: how many clocks are not
above every earlier one. -/
def lamportViolations (last : Json) (violations : Nat) : List Dict → Except Exn Nat
  | [] => .ok violations
  | envelope :: rest => do
    let lamport := getKey envelope "lamport"
    let late ← atMost lamport last
    let later ← Comparison.greater.compare lamport last
    lamportViolations (if later then lamport else last) (if late then violations + 1 else violations) rest

/-- The loop over the decisions: how many name a need that was named before. -/
def duplicateDecides (named : List Json) (duplicates : Nat) : List Dict → Except Exn Nat
  | [] => .ok duplicates
  | envelope :: rest => do
    let payload ← Python.asDict "get" (getOr envelope "payload" (.obj []))
    let needId := getOr payload "need_id" (.str "unknown")
    if needId.hashable = false then .error (unhashableKey needId)
    else
      duplicateDecides (needId :: named)
        (if named.any fun other => sameKey other needId then duplicates + 1 else duplicates) rest

section Replay

variable (p : Primitives)

/-- The loop of the policy check: how many envelopes the rules or the gate refuse. -/
def policyFailures (gates : Option GateEnforcer) : List Dict → Nat
  | [] => 0
  | envelope :: rest =>
    match validateEnvelope p envelope with
    | .error _ => policyFailures gates rest + 1
    | .ok _ =>
      match gates with
      | none => policyFailures none rest
      | some g =>
        let (decision, g) := g.ingressValidate envelope
        if decision.allowed then policyFailures (some g) rest else policyFailures (some g) rest + 1

/-- The simulator's run over the log; whatever it raises is caught. -/
def simulationSucceeds (lines : List String) (threadId : String) : Bool :=
  match loadAuditLog lines threadId >>= replayEnvelopes p with
  | .ok result => result.success
  | .error _ => false

/-- `replay_thread` without the chaos test, over the lines of the log if there is a
file, with the gates if they can be imported. -/
def replayThread (gates : Option GateEnforcer) (log : Option (List String)) (threadId : String) (useSimulator : Bool) :
    Except Exn Bool :=
  match log with
  | none => .ok false
  | some lines => do
    let found ← readEvents lines
    let events := found.filter (hasThread threadId)
    if events.isEmpty then .ok false
    else if events.all (verifyRecord p) = false then .ok false
    else
      let envelopes := (events.filterMap payloadOf).filter (hasKey "lamport")
      let violations ← lamportViolations (.int 0) 0 envelopes
      if violations ≠ 0 then .ok false
      else
        let duplicates ← duplicateDecides [] 0 ((events.filterMap payloadOf).filter (isKind "DECIDE"))
        if duplicates ≠ 0 then .ok false
        else if policyFailures p gates envelopes ≠ 0 then .ok false
        else if useSimulator then .ok (simulationSucceeds p lines threadId)
        else .ok true

end Replay

/-- The need a decision is taken to be for. -/
def takenNeed (envelope : Dict) : Option Json :=
  match getOr envelope "payload" (.obj []) with
  | .obj payload => some (getOr payload "need_id" (.str "unknown"))
  | _ => none

/-- Two decisions are not taken to be for one need. -/
def TakenApart (a b : Dict) : Prop := ∀ m n, takenNeed a = some m → takenNeed b = some n → sameKey m n = false

/-- Each decision is for a need that can be a key, no two for the same one. -/
structure DecidesApart (decides : List Dict) : Prop where
  named : ∀ e ∈ decides, ∃ needId, takenNeed e = some needId ∧ needId.hashable = true
  apart : decides.Pairwise TakenApart

section Decides

theorem takenNeed_obj {envelope payload : Dict} (h : getOr envelope "payload" (.obj []) = .obj payload) :
    takenNeed envelope = some (getOr payload "need_id" (.str "unknown")) := by
  simp [takenNeed, h]

theorem duplicateDecides_ge {named : List Json} {duplicates count : Nat} {l : List Dict}
    (h : duplicateDecides named duplicates l = .ok count) : duplicates ≤ count := by
  induction l generalizing named duplicates with
  | nil =>
    cases h
    exact Nat.le_refl _
  | cons envelope rest ih =>
    obtain ⟨payload, _, h⟩ := Transactional.except_bind_ok.mp h
    dsimp only at h
    split at h
    next => cases h
    next =>
      have hle := ih h
      split at hle <;> omega

/-- No duplicates are counted exactly if the decisions are apart from each other
and from the needs named before. -/
theorem duplicateDecides_iff {named : List Json} {l : List Dict} : duplicateDecides named 0 l = .ok 0 ↔
    DecidesApart l ∧ ∀ e ∈ l, ∀ n, takenNeed e = some n → ∀ m ∈ named, sameKey m n = false := by
  induction l generalizing named with
  | nil => exact ⟨fun _ => ⟨⟨nofun, List.Pairwise.nil⟩, nofun⟩, fun _ => rfl⟩
  | cons envelope rest ih =>
    cases hpayload : getOr envelope "payload" (.obj []) with
    | obj payload =>
      have htaken := takenNeed_obj hpayload
      generalize hneed : getOr payload "need_id" (.str "unknown") = needId at htaken
      have hunfold : duplicateDecides named 0 (envelope :: rest) =
          if needId.hashable = false then .error (unhashableKey needId)
          else duplicateDecides (needId :: named) (if named.any fun other => sameKey other needId then 1 else 0) rest := by
        rw [duplicateDecides, hpayload]
        simp only [Python.asDict, ← hneed]
        rfl
      rw [hunfold]
      cases hhash : needId.hashable with
      | false =>
        constructor
        · intro h
          cases h
        · rintro ⟨⟨hnamed, _⟩, _⟩
          obtain ⟨n, hn, hhashable⟩ := hnamed envelope List.mem_cons_self
          rw [htaken] at hn
          cases hn
          rw [hhash] at hhashable
          cases hhashable
      | true =>
        rw [if_neg Bool.noConfusion]
        by_cases hany : named.any (fun other => sameKey other needId) = true
        · rw [if_pos hany]
          constructor
          · intro h
            have hle := duplicateDecides_ge h
            omega
          · rintro ⟨_, hnew⟩
            obtain ⟨m, hm, hsame⟩ := List.any_eq_true.mp hany
            rw [hnew envelope List.mem_cons_self needId htaken m hm] at hsame
            cases hsame
        · have hnew : ∀ m ∈ named, sameKey m needId = false := by
            intro m hm
            simpa using List.any_eq_false.mp (Bool.eq_false_of_not_eq_true hany) m hm
          rw [if_neg hany, ih]
          constructor
          · rintro ⟨⟨hnamed, hapart⟩, hfree⟩
            refine ⟨⟨?_, ?_⟩, ?_⟩
            · exact List.forall_mem_cons.mpr ⟨⟨needId, htaken, hhash⟩, hnamed⟩
            · refine List.pairwise_cons.mpr ⟨?_, hapart⟩
              intro e he m n hm hn
              rw [htaken] at hm
              cases hm
              exact hfree e he n hn needId List.mem_cons_self
            · refine List.forall_mem_cons.mpr ⟨?_, fun e he n hn m hm => hfree e he n hn m (List.mem_cons_of_mem _ hm)⟩
              intro n hn m hm
              rw [htaken] at hn
              cases hn
              exact hnew m hm
          · rintro ⟨⟨hnamed, hapart⟩, hfree⟩
            obtain ⟨hfirst, hrest⟩ := List.pairwise_cons.mp hapart
            refine ⟨⟨fun e he => hnamed e (List.mem_cons_of_mem _ he), hrest⟩, ?_⟩
            intro e he n hn m hm
            rcases List.mem_cons.mp hm with rfl | hm
            · exact hfirst e he m n htaken hn
            · exact hfree e (List.mem_cons_of_mem _ he) n hn m hm
    | null | bool | int | float | str | arr =>
      have herror : ∀ count, duplicateDecides named 0 (envelope :: rest) ≠ .ok count := by
        intro count h
        rw [duplicateDecides, hpayload] at h
        cases h
      constructor
      · exact fun h => absurd h (herror 0)
      · rintro ⟨⟨hnamed, _⟩, _⟩
        obtain ⟨n, hn, _⟩ := hnamed envelope List.mem_cons_self
        simp [takenNeed, hpayload] at hn

theorem DecidesApart.hashable {l : List Dict} (h : DecidesApart l) {e : Dict} (he : e ∈ l) {needId : Json}
    (htaken : takenNeed e = some needId) : needId.hashable = true := by
  obtain ⟨n, hn, hhashable⟩ := h.named e he
  rw [htaken] at hn
  cases hn
  exact hhashable

theorem DecidesApart.of_mem {l : List Dict} (h : DecidesApart l) {a b : Dict} (ha : a ∈ l) (hb : b ∈ l) (hne : a ≠ b) :
    TakenApart a b := by
  have hsymm : Std.Symm fun a b => TakenApart a b ∨ TakenApart b a := ⟨fun _ _ => Or.symm⟩
  have heither : l.Pairwise fun a b => TakenApart a b ∨ TakenApart b a := h.apart.imp Or.inl
  intro m n hm hn
  rcases heither.forall ha hb hne with hab | hba
  · exact hab m n hm hn
  · rw [sameKey_comm (h.hashable ha hm) (h.hashable hb hn)]
    exact hba n m hn hm

end Decides

/-- The clock of an envelope whose Lamport value is an integer; a boolean is one. -/
def clock (envelope : Dict) : Int :=
  match getKey envelope "lamport" with
  | .int n => n
  | .bool b => if b then 1 else 0
  | .null | .float _ | .str _ | .arr _ | .obj _ => 0

section Clocks

theorem ofJson_clock {envelope : Dict} (h : isPositiveInt (getKey envelope "lamport") = true) :
    Number.ofJson? (getKey envelope "lamport") = some (.finite (clock envelope)) ∧ 0 < clock envelope := by
  unfold clock
  cases hvalue : getKey envelope "lamport" with
  | int n =>
    rw [hvalue] at h
    exact ⟨rfl, of_decide_eq_true h⟩
  | bool b =>
    rw [hvalue] at h
    cases b with
    | false => cases h
    | true => exact ⟨by simp [Number.ofJson?], by decide⟩
  | null | float | str | arr | obj =>
    rw [hvalue] at h
    cases h

theorem lamportViolations_ge {last : Json} {violations count : Nat} {l : List Dict}
    (h : lamportViolations last violations l = .ok count) : violations ≤ count := by
  induction l generalizing last violations with
  | nil =>
    cases h
    exact Nat.le_refl _
  | cons envelope rest ih =>
    obtain ⟨late, _, h⟩ := Transactional.except_bind_ok.mp h
    obtain ⟨later, _, h⟩ := Transactional.except_bind_ok.mp h
    have hle := ih h
    split at hle <;> omega

/-- One turn of the loop on integer clocks. -/
theorem lamportViolations_cons {last : Json} {k : Int} {violations : Nat} {envelope : Dict} {rest : List Dict}
    (hlast : Number.ofJson? last = some (.finite k)) (h : isPositiveInt (getKey envelope "lamport") = true) :
    lamportViolations last violations (envelope :: rest) =
      if k < clock envelope then lamportViolations (getKey envelope "lamport") violations rest
      else lamportViolations last (violations + 1) rest := by
  obtain ⟨hclock, _⟩ := ofJson_clock h
  have hcompare := Comparison.compare_numbers .greater hclock hlast
  have hlater : Comparison.greater.numbers (.finite (clock envelope)) (.finite k) = decide (k < clock envelope) := by
    by_cases hlt : k < clock envelope
    · have hnot : ¬clock envelope ≤ k := by omega
      simp [Comparison.numbers, Number.lt, Number.le, hlt, hnot]
    · have hle : clock envelope ≤ k := by omega
      simp [Comparison.numbers, Number.lt, Number.le, hlt, hle]
  have hlate : atMost (getKey envelope "lamport") last = .ok (decide (clock envelope ≤ k)) := by
    simp [atMost, hclock, hlast, Number.le]
  rw [hlater] at hcompare
  rw [lamportViolations]
  simp only [hlate, hcompare, bind, Except.bind]
  by_cases hlt : k < clock envelope
  · have hnot : ¬clock envelope ≤ k := by omega
    simp [hlt, hnot]
  · have hle : clock envelope ≤ k := by omega
    simp [hlt, hle]

/-- There are no violations exactly if the clocks increase strictly. -/
theorem lamportViolations_iff {last : Json} {k : Int} {l : List Dict} (hlast : Number.ofJson? last = some (.finite k))
    (hl : ∀ e ∈ l, isPositiveInt (getKey e "lamport") = true) : lamportViolations last 0 l = .ok 0 ↔
      (∀ e ∈ l, k < clock e) ∧ l.Pairwise fun a b => clock a < clock b := by
  induction l generalizing last k with
  | nil => exact ⟨fun _ => ⟨nofun, List.Pairwise.nil⟩, fun _ => rfl⟩
  | cons envelope rest ih =>
    have hfirst := hl envelope List.mem_cons_self
    rw [lamportViolations_cons hlast hfirst, List.forall_mem_cons, List.pairwise_cons]
    by_cases hlt : k < clock envelope
    · rw [if_pos hlt, ih (ofJson_clock hfirst).1 fun e he => hl e (List.mem_cons_of_mem _ he)]
      constructor
      · rintro ⟨habove, hpairs⟩
        refine ⟨⟨hlt, fun e he => ?_⟩, habove, hpairs⟩
        have he' := habove e he
        omega
      · rintro ⟨_, habove, hpairs⟩
        exact ⟨habove, hpairs⟩
    · rw [if_neg hlt]
      constructor
      · intro h
        have hle := lamportViolations_ge h
        omega
      · rintro ⟨⟨hfirst', _⟩, _⟩
        exact absurd hfirst' hlt

theorem lamportViolations_total {last : Json} {k : Int} {l : List Dict} (violations : Nat)
    (hlast : Number.ofJson? last = some (.finite k)) (hl : ∀ e ∈ l, isPositiveInt (getKey e "lamport") = true) :
    ∃ count, lamportViolations last violations l = .ok count := by
  induction l generalizing last k violations with
  | nil => exact ⟨violations, rfl⟩
  | cons envelope rest ih =>
    have hfirst := hl envelope List.mem_cons_self
    have hrest : ∀ e ∈ rest, isPositiveInt (getKey e "lamport") = true := fun e he => hl e (List.mem_cons_of_mem _ he)
    rw [lamportViolations_cons hlast hfirst]
    split
    · exact ih violations (ofJson_clock hfirst).1 hrest
    · exact ih (violations + 1) hlast hrest

end Clocks

/-- The gates let every envelope in. -/
def AllowsAll (gates : Option GateEnforcer) : Prop := ∀ g ∈ gates, ∀ envelope, (g.ingressValidate envelope).1.allowed = true

theorem ingressValidate_allowed (g : GateEnforcer) (envelope : Dict) : (g.ingressValidate envelope).1.allowed =
    match g.wasmRuntime (extractPolicyInput envelope .ingress) with
    | .error _ => false
    | .ok result => result.allowed := by
  unfold GateEnforcer.ingressValidate
  dsimp only
  cases g.wasmRuntime (extractPolicyInput envelope .ingress) <;> rfl

theorem ingressValidate_allowed_after (g : GateEnforcer) (first envelope : Dict) :
    ((g.ingressValidate first).2.ingressValidate envelope).1.allowed = (g.ingressValidate envelope).1.allowed := by
  have hruntime : (g.ingressValidate first).2.wasmRuntime = g.wasmRuntime := by
    unfold GateEnforcer.ingressValidate
    dsimp only
    split <;> rfl
  rw [ingressValidate_allowed, ingressValidate_allowed, hruntime]

theorem policyFailures_iff {p : Primitives} {gates : Option GateEnforcer} (hgates : AllowsAll gates) {l : List Dict} :
    policyFailures p gates l = 0 ↔ ∀ e ∈ l, Accepted p e := by
  induction l generalizing gates with
  | nil => exact ⟨fun _ => nofun, fun _ => rfl⟩
  | cons envelope rest ih =>
    rw [policyFailures.eq_def, List.forall_mem_cons]
    dsimp only
    cases hvalid : validateEnvelope p envelope with
    | error e =>
      constructor
      · intro h
        cases h
      · rintro ⟨haccepted, _⟩
        rw [(validateEnvelope_iff p).mpr haccepted] at hvalid
        cases hvalid
    | ok b =>
      have haccepted := accepted_of_ok p hvalid
      cases gates with
      | none => exact (ih hgates).trans ⟨fun h => ⟨haccepted, h⟩, fun h => h.2⟩
      | some g =>
        have hafter : AllowsAll (some (g.ingressValidate envelope).2) := by
          intro g' hg' e
          cases hg'
          rw [ingressValidate_allowed_after]
          exact hgates g rfl e
        have hallowed := hgates g rfl envelope
        simp only [hallowed, if_true]
        exact (ih hafter).trans ⟨fun h => ⟨haccepted, h⟩, fun h => h.2⟩

theorem simulationSucceeds_iff {p : Primitives} {lines : List String} {threadId : String} {envelopes : List Dict}
    (h : loadAuditLog lines threadId = .ok envelopes) : simulationSucceeds p lines threadId = true ↔
      envelopes ≠ [] ∧ (∀ e ∈ envelopes, Processable p e) ∧ envelopes.Pairwise NoClash := by
  rw [← replayEnvelopes_success_iff]
  have hbind : (loadAuditLog lines threadId >>= replayEnvelopes p) = replayEnvelopes p envelopes := by
    rw [h]
    rfl
  unfold simulationSucceeds
  rw [hbind]
  cases replayEnvelopes p envelopes with
  | error e => simp
  | ok result => simp

section Checks

variable {p : Primitives} {gates : Option GateEnforcer} {lines : List String} {threadId : String} {useSimulator : Bool}

/-- Everything a successful replay has found of the events of its thread. -/
structure Checked (p : Primitives) (gates : Option GateEnforcer) (events : List Dict) : Prop where
  nonempty : events ≠ []
  verified : ∀ event ∈ events, verifyRecord p event = true
  increasing : lamportViolations (.int 0) 0 ((events.filterMap payloadOf).filter (hasKey "lamport")) = .ok 0
  decides : DecidesApart ((events.filterMap payloadOf).filter (isKind "DECIDE"))
  allowed : policyFailures p gates ((events.filterMap payloadOf).filter (hasKey "lamport")) = 0

theorem replayThread_ok_iff : replayThread p gates (some lines) threadId useSimulator = .ok true ↔
    ∃ found, readEvents lines = .ok found ∧ Checked p gates (found.filter (hasThread threadId)) ∧
      (useSimulator = true → simulationSucceeds p lines threadId = true) := by
  unfold replayThread
  constructor
  · intro h
    obtain ⟨found, hfound, h⟩ := Transactional.except_bind_ok.mp h
    dsimp only at h
    split at h
    next => cases h
    next hempty =>
    split at h
    next => cases h
    next hall =>
    obtain ⟨violations, hviolations, h⟩ := Transactional.except_bind_ok.mp h
    split at h
    next => cases h
    next hincreasing =>
    obtain ⟨duplicates, hduplicates, h⟩ := Transactional.except_bind_ok.mp h
    split at h
    next => cases h
    next hapart =>
    split at h
    next => cases h
    next hallowed =>
    rw [not_not] at hincreasing hapart hallowed
    subst hincreasing hapart
    have hchecked : Checked p gates (found.filter (hasThread threadId)) :=
      ⟨fun he => hempty (List.isEmpty_iff.mpr he), List.all_eq_true.mp (Bool.eq_true_of_not_eq_false hall), hviolations,
        (duplicateDecides_iff.mp hduplicates).1, hallowed⟩
    refine ⟨found, hfound, hchecked, ?_⟩
    intro huse
    rw [huse, if_pos rfl] at h
    exact Except.ok.inj h
  · rintro ⟨found, hfound, hchecked, hsimulated⟩
    have hempty : (found.filter (hasThread threadId)).isEmpty = false := by
      simpa using hchecked.nonempty
    have hall : (found.filter (hasThread threadId)).all (verifyRecord p) = true := List.all_eq_true.mpr hchecked.verified
    have hduplicates := duplicateDecides_iff.mpr
      ⟨hchecked.decides, fun (_ : Dict) _ (_ : Json) _ (m : Json) (hm : m ∈ []) => nomatch hm⟩
    refine Transactional.except_bind_ok.mpr ⟨found, hfound, ?_⟩
    dsimp only
    rw [if_neg (by simp [hempty]), if_neg (by simp [hall])]
    refine Transactional.except_bind_ok.mpr ⟨0, hchecked.increasing, ?_⟩
    rw [if_neg (by simp)]
    refine Transactional.except_bind_ok.mpr ⟨0, hduplicates, ?_⟩
    rw [if_neg (by simp), if_neg (by simp [hchecked.allowed])]
    split
    next huse => rw [hsimulated huse]
    next => rfl

/-- Signed events with a clock that is not above an earlier one are refused. -/
theorem replayThread_late {found : List Dict} {violations : Nat} (hfound : readEvents lines = .ok found)
    (hnonempty : found.filter (hasThread threadId) ≠ [])
    (hverified : ∀ event ∈ found.filter (hasThread threadId), verifyRecord p event = true)
    (hviolations : lamportViolations (.int 0) 0 (((found.filter (hasThread threadId)).filterMap payloadOf).filter
      (hasKey "lamport")) = .ok violations) (hlate : violations ≠ 0) :
    replayThread p gates (some lines) threadId useSimulator = .ok false := by
  have hempty : (found.filter (hasThread threadId)).isEmpty = false := by simpa using hnonempty
  have hall : (found.filter (hasThread threadId)).all (verifyRecord p) = true := List.all_eq_true.mpr hverified
  refine Transactional.except_bind_ok.mpr ⟨found, hfound, ?_⟩
  dsimp only
  rw [if_neg (by simp [hempty]), if_neg (by simp [hall])]
  exact Transactional.except_bind_ok.mpr ⟨violations, hviolations, if_pos hlate⟩

end Checks

end AgentNetwork.Tools
