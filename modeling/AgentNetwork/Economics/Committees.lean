import AgentNetwork.Economics.Selection
import AgentNetwork.Library.Atomicity

/-! Whom a committee consists of. The candidates and the fallback never repeat a
verifier; a random draw does when two of its numbers fall on one place. -/

namespace AgentNetwork

open Relational Transactional Transactional.Prog

namespace VerifierPool

variable {minStake : Int} {db : Db}

structure Eligible (minStake : Int) (db : Db) (verifierId : String) : Prop where
  active : ∃ record, db.verifiers.get? verifierId = some record ∧ record.active = true
  staked : minStake ≤ StakeManager.getStakedAmount verifierId db

theorem mem_getPoolMembers {activeOnly : Bool} {m : String × VerifierRecord} :
    m ∈ getPoolMembers activeOnly db ↔
      db.verifiers.get? m.1 = some m.2 ∧ (activeOnly = true → m.2.active = true) := by
  rw [getPoolMembers, List.mem_insertionSort, List.mem_filter, Table.get?_eq_some_iff]
  cases activeOnly <;> simp

theorem mem_getActiveVerifiers {m : String × VerifierRecord} (h : m ∈ getActiveVerifiers minStake db) :
    Eligible minStake db m.1 := by
  obtain ⟨row, hrow, hm⟩ := List.mem_filterMap.mp h
  obtain ⟨hget, hactive⟩ := mem_getPoolMembers.mp hrow
  dsimp only at hm
  split at hm
  next hstake =>
    cases Option.some.inj hm
    exact ⟨⟨row.2, hget, hactive rfl⟩, hstake⟩
  next => cases hm

theorem map_filterMap_sublist {α β γ : Type} {f : α → Option β} {key : α → γ} {key' : β → γ}
    (h : ∀ a b, f a = some b → key' b = key a) (l : List α) : ((l.filterMap f).map key').Sublist (l.map key) := by
  induction l with
  | nil => exact List.Sublist.slnil
  | cons a rest ih =>
    cases hf : f a with
    | none =>
      rw [List.filterMap_cons_none hf]
      exact ih.cons _
    | some b =>
      rw [List.filterMap_cons_some hf, List.map_cons, h a b hf]
      exact ih.cons_cons _

theorem nodup_getActiveVerifiers (minStake : Int) (db : Db) : ((getActiveVerifiers minStake db).map Prod.fst).Nodup := by
  have hkeys : ((getActiveVerifiers minStake db).map Prod.fst).Sublist ((getPoolMembers true db).map Prod.fst) := by
    apply map_filterMap_sublist
    intro row m hm
    dsimp only at hm
    split at hm
    next => cases Option.some.inj hm; rfl
    next => cases hm
  have hmembers : ((getPoolMembers true db).map Prod.fst).Nodup := by
    have hperm := (List.perm_insertionSort (fun r r' : String × VerifierRecord => r'.2.registeredAt ≤ r.2.registeredAt)
      (db.verifiers.entries.filter fun r => !true || r.2.active)).map Prod.fst
    exact hperm.nodup_iff.mpr (db.verifiers.keysNodup.sublist (List.filter_sublist.map _))
  exact hmembers.sublist hkeys

end VerifierPool

namespace VerifierSelector

theorem readOnly_calculateWeight (sqrt decayFactor : Rat → Rat) (verifier : Candidate) :
    ReadOnly (calculateWeight sqrt decayFactor verifier) := by
  refine (ReadOnly.raiseIf _ _).bind fun _ => ?_
  have hreputation : ReadOnly (ReputationTracker.getReputation decayFactor verifier.1) := by
    refine (ReadOnly.query _).bind ?_
    intro found
    cases found with
    | none => exact ReadOnly.pure 0
    | some record =>
      refine (ReadOnly.query _).bind fun last => ReadOnly.timeNs.bind fun now => ?_
      dsimp only
      split
      · exact ReadOnly.pure _
      · exact ReadOnly.pure _
  exact hreputation.bind fun _ => ReadOnly.timeNs.bind fun _ => ReadOnly.pure _

theorem readOnly_calculateWeights (sqrt decayFactor : Rat → Rat) (candidates : List Candidate) :
    ReadOnly (calculateWeights sqrt decayFactor candidates) := by
  induction candidates with
  | nil => exact ReadOnly.pure []
  | cons verifier rest ih =>
    exact (readOnly_calculateWeight sqrt decayFactor verifier).bind fun _ => ih.bind fun _ => ReadOnly.pure _

theorem length_calculateWeights {sqrt decayFactor : Rat → Rat} {candidates : List Candidate} {env : Env}
    {s s' : Session Db} {weights : List Rat}
    (h : calculateWeights sqrt decayFactor candidates env s = (.returns weights, s')) :
    weights.length = candidates.length := by
  induction candidates generalizing s weights s' with
  | nil => cases h; rfl
  | cons verifier rest ih =>
    obtain ⟨weight, s₁, _, h⟩ := bind_returns.mp h
    obtain ⟨others, s₂, hothers, h⟩ := bind_returns.mp h
    cases h
    simp [ih hothers]

section Fallback

variable {constraints : DiversityConstraints} {k : Int} {committee candidates : List Candidate}

theorem selectGreedily_append (constraints : DiversityConstraints) (k : Int) (candidates committee : List Candidate) :
    ∃ chosen, chosen.Sublist candidates ∧ selectGreedily constraints k committee candidates = committee ++ chosen := by
  induction candidates generalizing committee with
  | nil => exact ⟨[], List.Sublist.slnil, (List.append_nil _).symm⟩
  | cons candidate rest ih =>
    unfold selectGreedily
    split
    next => exact ⟨[], List.nil_sublist _, (List.append_nil _).symm⟩
    next =>
      split
      next =>
        obtain ⟨chosen, hsub, heq⟩ := ih (committee ++ [candidate])
        exact ⟨candidate :: chosen, hsub.cons_cons _, by simp [heq]⟩
      next =>
        obtain ⟨chosen, hsub, heq⟩ := ih committee
        exact ⟨chosen, hsub.cons _, heq⟩

theorem selectGreedily_sublist (constraints : DiversityConstraints) (k : Int) (candidates : List Candidate) :
    (selectGreedily constraints k [] candidates).Sublist candidates := by
  obtain ⟨chosen, hsub, heq⟩ := selectGreedily_append constraints k candidates []
  rwa [heq]

/-- The committee stops growing at `k`. -/
theorem length_selectGreedily (candidates : List Candidate) (hlength : (committee.length : Int) ≤ k) :
    ((selectGreedily constraints k committee candidates).length : Int) ≤ k := by
  induction candidates generalizing committee with
  | nil => exact hlength
  | cons candidate rest ih =>
    unfold selectGreedily
    split
    next => exact hlength
    next hopen =>
      split
      next =>
        apply ih
        simp only [List.length_append, List.length_singleton]
        omega
      next => exact ih hlength

end Fallback

section Draws

variable (random : Nat → Rat) (constraints : DiversityConstraints) (k : Int) (candidates : List Candidate)
  (weights : List Rat)

/-- The committee drawn in this attempt is diverse. -/
def Accepted (attempt : Nat) : Prop :=
  ∃ committee, Python.choices candidates weights (drawsOf random k attempt) k = .ok committee ∧
    enforceDiversity constraints committee = true

/-- No two draws of this attempt fall on one candidate's share of the weights. -/
def DrawnApart (attempt : Nat) : Prop :=
  ((List.range k.toNat).map fun i => Python.place weights (drawsOf random k attempt i)).Nodup

/-- The attempt that is accepted first, if any is, draws apart. -/
def FirstAcceptedApart : Prop :=
  ∀ attempt < maxAttempts, (∀ earlier < attempt, ¬Accepted random constraints k candidates weights earlier) →
    Accepted random constraints k candidates weights attempt → DrawnApart random k weights attempt

variable {random constraints k candidates weights}

theorem drawDiverse_some {attempt left : Nat} {committee : List Candidate}
    (h : drawDiverse random constraints k candidates weights attempt left = .ok (some committee)) :
    ∃ last, attempt ≤ last ∧ last < attempt + left ∧
      (∀ earlier, attempt ≤ earlier → earlier < last → ¬Accepted random constraints k candidates weights earlier) ∧
      Python.choices candidates weights (drawsOf random k last) k = .ok committee ∧
      enforceDiversity constraints committee = true := by
  induction left generalizing attempt with
  | zero => cases h
  | succ left ih =>
    unfold drawDiverse at h
    split at h
    next => cases h
    next drawn hdrawn =>
      split at h
      next hdiverse =>
        cases h
        exact ⟨attempt, le_rfl, by omega, fun earlier hfrom hto => by omega, hdrawn, hdiverse⟩
      next hdiverse =>
        obtain ⟨last, hfrom, hto, hrejected, hlast⟩ := ih h
        refine ⟨last, by omega, by omega, ?_, hlast⟩
        intro earlier hearlier hbefore
        by_cases hsame : earlier = attempt
        · subst hsame
          rintro ⟨other, hother, haccepted⟩
          cases hdrawn.symm.trans hother
          exact hdiverse haccepted
        · exact hrejected earlier (by omega) hbefore

theorem drawDiverse_none {attempt left : Nat}
    (h : drawDiverse random constraints k candidates weights attempt left = .ok none) :
    ∀ later, attempt ≤ later → later < attempt + left → ¬Accepted random constraints k candidates weights later := by
  induction left generalizing attempt with
  | zero => exact fun later hfrom hto => by omega
  | succ left ih =>
    unfold drawDiverse at h
    split at h
    next => cases h
    next drawn hdrawn =>
      split at h
      next => cases h
      next hdiverse =>
        intro later hfrom hto
        by_cases hsame : later = attempt
        · subst hsame
          rintro ⟨other, hother, haccepted⟩
          cases hdrawn.symm.trans hother
          exact hdiverse haccepted
        · exact ih h later (by omega) (by omega)

/-- The empty committee is diverse, so a draw is rejected only when it has members. -/
theorem pos_of_drawDiverse_none {attempt left : Nat}
    (h : drawDiverse random constraints k candidates weights attempt (left + 1) = .ok none) : 0 < k := by
  unfold drawDiverse at h
  split at h
  next => cases h
  next drawn hdrawn =>
    split at h
    next => cases h
    next hdiverse =>
      have hlength := Python.length_choices hdrawn
      have hne : drawn ≠ [] := by
        rintro rfl
        exact hdiverse rfl
      have hpositive := List.length_pos_iff.mpr hne
      omega

end Draws

/-- The committee of the fallback. -/
def fallback (constraints : DiversityConstraints) (k : Int) (candidates : List Candidate) (weights : List Rat) :
    List Candidate :=
  let sortedCandidates := (StableSort.sortOn (fun c => -c.2) (candidates.zip weights)).map Prod.fst
  let committee := selectGreedily constraints k [] sortedCandidates
  if committee.length < k then sliceTo k sortedCandidates else committee

section Fallback

variable {constraints : DiversityConstraints} {k : Int} {candidates : List Candidate} {weights : List Rat}

theorem sorted_perm (hlength : weights.length = candidates.length) :
    ((StableSort.sortOn (fun c => -c.2) (candidates.zip weights)).map Prod.fst).Perm candidates := by
  have hperm : (StableSort.sortOn (fun c : Candidate × Rat => -c.2) (candidates.zip weights)).Perm (candidates.zip weights) :=
    List.perm_insertionSort _ _
  have hfirst : (candidates.zip weights).map Prod.fst = candidates := List.map_fst_zip hlength.ge
  exact (hperm.map Prod.fst).trans (List.Perm.of_eq hfirst)

theorem fallback_sublist (constraints : DiversityConstraints) (k : Int) (candidates : List Candidate) (weights : List Rat) :
    (fallback constraints k candidates weights).Sublist
      ((StableSort.sortOn (fun c => -c.2) (candidates.zip weights)).map Prod.fst) := by
  unfold fallback
  dsimp only
  split
  next => exact List.take_sublist ..
  next => exact selectGreedily_sublist _ _ _

theorem length_fallback (hlength : weights.length = candidates.length) (enough : k ≤ candidates.length) (hk : 0 ≤ k) :
    (fallback constraints k candidates weights).length = k.toNat := by
  have hsorted := (sorted_perm hlength).length_eq
  unfold fallback
  dsimp only
  split
  next =>
    rw [sliceTo, if_neg (by omega), List.length_take]
    omega
  next hfull =>
    have hle : ((selectGreedily constraints k []
        ((StableSort.sortOn (fun c => -c.2) (candidates.zip weights)).map Prod.fst)).length : Int) ≤ k :=
      length_selectGreedily _ hk
    omega

end Fallback

structure SoundCommittee (k minStake : Int) (db : Db) (committee : List Candidate) : Prop where
  size : committee.length = k.toNat
  distinct : (committee.map Prod.fst).Nodup
  eligible : ∀ member ∈ committee, VerifierPool.Eligible minStake db member.1

section Selected

variable {sqrt decayFactor : Rat → Rat} {random : Nat → Rat} {k minStake : Int} {constraints : Option DiversityConstraints}
  {env : Env} {s s' : Session Db} {committee : List Candidate}

theorem selectCommittee_returns
    (h : selectCommittee sqrt decayFactor random k minStake constraints env s = (.returns committee, s')) :
    ∃ weights, calculateWeights sqrt decayFactor (VerifierPool.getActiveVerifiers minStake s.db) env s = (.returns weights, s') ∧
      k ≤ (VerifierPool.getActiveVerifiers minStake s.db).length ∧
      (drawDiverse random (constraints.getD {}) k (VerifierPool.getActiveVerifiers minStake s.db) weights 0 maxAttempts =
          .ok (some committee) ∨
        drawDiverse random (constraints.getD {}) k (VerifierPool.getActiveVerifiers minStake s.db) weights 0 maxAttempts =
          .ok none ∧
        committee = fallback (constraints.getD {}) k (VerifierPool.getActiveVerifiers minStake s.db) weights) := by
  obtain ⟨candidates, _, hquery, h⟩ := bind_returns.mp h
  cases hquery
  obtain ⟨_, s₁, hcheck, h⟩ := bind_returns.mp h
  obtain ⟨henough, hsame⟩ := raiseIf_returns.mp hcheck
  cases hsame.symm
  obtain ⟨weights, s₂, hrun, h⟩ := bind_returns.mp h
  have hweights := mapError_returns.mp hrun
  generalize hdraw : drawDiverse random (constraints.getD {}) k (VerifierPool.getActiveVerifiers minStake s.db) weights 0
    maxAttempts = result at h
  rcases result with error | _ | drawn
  · cases h
  · have hfallback : (committee, s') = (fallback (constraints.getD {}) k
        (VerifierPool.getActiveVerifiers minStake s.db) weights, s₂) := by
      unfold fallback
      dsimp only at h ⊢
      split at h
      next hshort =>
        cases h
        rw [if_pos hshort]
      next hfull =>
        cases h
        rw [if_neg hfull]
    cases hfallback
    exact ⟨weights, hweights, by omega, Or.inr ⟨hdraw, rfl⟩⟩
  · cases h
    exact ⟨weights, hweights, by omega, Or.inl hdraw⟩

theorem selectCommittee_of_drawn {weights : List Rat}
    (henough : k ≤ (VerifierPool.getActiveVerifiers minStake s.db).length)
    (hweights : calculateWeights sqrt decayFactor (VerifierPool.getActiveVerifiers minStake s.db) env s = (.returns weights, s'))
    (hdrawn : drawDiverse random (constraints.getD {}) k (VerifierPool.getActiveVerifiers minStake s.db) weights 0
      maxAttempts = .ok (some committee)) :
    selectCommittee sqrt decayFactor random k minStake constraints env s = (.returns committee, s') := by
  have hcheck : ¬((VerifierPool.getActiveVerifiers minStake s.db).length : Int) < k := by omega
  have hlifted : mapError SelectionError.economics (calculateWeights sqrt decayFactor
      (VerifierPool.getActiveVerifiers minStake s.db)) env s = (.returns weights, s') := mapError_returns.mpr hweights
  refine bind_returns.mpr ⟨_, s, rfl, bind_returns.mpr ⟨(), s, raiseIf_of_not hcheck, ?_⟩⟩
  refine bind_returns.mpr ⟨weights, s', hlifted, ?_⟩
  rw [hdrawn]
  rfl

/-- The weights that a call computes from here. -/
def weightsAt (sqrt decayFactor : Rat → Rat) (minStake : Int) (env : Env) (s : Session Db) : List Rat :=
  match calculateWeights sqrt decayFactor (VerifierPool.getActiveVerifiers minStake s.db) env s with
  | (.returns weights, _) => weights
  | _ => []

/-- The members of a committee are eligible and as many as asked for, and they are different verifiers
exactly when the first diverse draw, if there is one, draws apart. -/
theorem committee_of_distinct_verifiers
    (h : selectCommittee sqrt decayFactor random k minStake constraints env s = (.returns committee, s')) :
    SoundCommittee k minStake s'.db committee ↔
      FirstAcceptedApart random (constraints.getD {}) k (VerifierPool.getActiveVerifiers minStake s.db)
        (weightsAt sqrt decayFactor minStake env s) := by
  obtain ⟨weights, hweights, henough, hchosen⟩ := selectCommittee_returns h
  have hat : weightsAt sqrt decayFactor minStake env s = weights := by rw [weightsAt, hweights]
  have hdb : s'.db = s.db := ((readOnly_calculateWeights _ _ _).eq hweights).1
  have hdistinct := VerifierPool.nodup_getActiveVerifiers minStake s.db
  have heligible : ∀ member ∈ VerifierPool.getActiveVerifiers minStake s.db,
      VerifierPool.Eligible minStake s.db member.1 := fun member => VerifierPool.mem_getActiveVerifiers
  rw [hat, hdb]
  rcases hchosen with hdrawn | ⟨hnone, rfl⟩
  · obtain ⟨last, _, hlast, hrejected, hchoices, hdiverse⟩ := drawDiverse_some hdrawn
    have hnodup := Python.nodup_choices hdistinct hchoices
    constructor
    · intro hsound attempt hattempt hfirst haccepted
      have hsame : attempt = last := by
        rcases Nat.lt_trichotomy attempt last with hlt | heq | hgt
        · exact absurd haccepted (hrejected attempt (Nat.zero_le _) hlt)
        · exact heq
        · exact absurd ⟨committee, hchoices, hdiverse⟩ (hfirst last hgt)
      rw [hsame]
      exact hnodup.mp hsound.distinct
    · intro hapart
      refine ⟨Python.length_choices hchoices, ?_, fun member hm => heligible member (Python.mem_of_choices hchoices hm)⟩
      exact hnodup.mpr (hapart last (by omega) (fun earlier => hrejected earlier (Nat.zero_le _)) ⟨committee, hchoices, hdiverse⟩)
  · have hlength := length_calculateWeights hweights
    have hsub := fallback_sublist (constraints.getD {}) k (VerifierPool.getActiveVerifiers minStake s.db) weights
    constructor
    · intro _ attempt hattempt _ haccepted
      exact absurd haccepted (drawDiverse_none hnone attempt (Nat.zero_le _) (by omega))
    · intro _
      have hperm := sorted_perm hlength
      refine ⟨length_fallback hlength henough (pos_of_drawDiverse_none hnone).le, ?_, ?_⟩
      · exact ((hperm.map Prod.fst).nodup_iff.mpr hdistinct).sublist (hsub.map Prod.fst)
      · exact fun member hm => heligible member (hperm.mem_iff.mp (hsub.subset hm))

end Selected

section Samples

def sampleVerifier (org : String) : VerifierRecord := ⟨1, ["code_review"], ⟨org, org, org, 1, false⟩, 0, true⟩

def sampleAccount (balance locked unbonding : Nat) : Account :=
  ⟨balance, locked, unbonding, Int.natCast_nonneg balance, Int.natCast_nonneg locked, Int.natCast_nonneg unbonding⟩

/-- Two verifiers with a stake of one, registered at the time zero. -/
def sampleDb : Db := { Db.empty with
  accounts := (Table.empty.upsert "alice" (sampleAccount 0 1 0)).upsert "bob" (sampleAccount 0 1 0)
  verifiers := (Table.empty.upsert "alice" (sampleVerifier "a")).upsert "bob" (sampleVerifier "b") }

def sampleSession : Session Db := ⟨sampleDb, sampleDb, false, 0, 0⟩

/-- A clock that stands at zero. -/
def sampleEnv : Env := ⟨true, fun _ => 0, toString⟩

def sampleConstraints : DiversityConstraints := ⟨1, 1, 1⟩

theorem getReputation_sample {verifierId org : String} (found : sampleDb.verifiers.get? verifierId = some (sampleVerifier org))
    (draws ticks : Nat) :
    ReputationTracker.getReputation (fun _ => 1) verifierId sampleEnv ⟨sampleDb, sampleDb, false, draws, ticks⟩ =
      (.returns 1, ⟨sampleDb, sampleDb, false, draws, ticks + 1⟩) := by
  have hlast : ReputationTracker.lastActivity verifierId (sampleVerifier org) sampleDb = 0 := rfl
  have hactive : 0 ≤ Double.nearest (100⁻¹ : Rat) := Double.nearest_nonneg (by norm_num)
  simp only [ReputationTracker.getReputation, bind_apply, query_apply, VerifierPool.getVerifier, found, hlast, timeNs_apply,
    sampleEnv]
  simp [hactive.not_gt, sampleVerifier]

theorem calculateWeight_sample {verifierId org : String}
    (found : sampleDb.verifiers.get? verifierId = some (sampleVerifier org)) (draws ticks : Nat) :
    calculateWeight (fun _ => 1) (fun _ => 1) (verifierId, sampleVerifier org) sampleEnv
        ⟨sampleDb, sampleDb, false, draws, ticks⟩ =
      (.returns 1, ⟨sampleDb, sampleDb, false, draws, ticks + 2⟩) := by
  have hdecay : min 0 (Double.nearest (5⁻¹ : Rat)) = 0 := min_eq_left (Double.nearest_nonneg (by norm_num))
  have hcheck : ¬(sampleVerifier org).stake < 0 := Int.not_lt.mpr (Int.le_of_lt Int.one_pos)
  simp only [calculateWeight, bind_apply, raiseIf_of_not hcheck, getReputation_sample found, timeNs_apply, pure_apply]
  simp [sampleEnv, sampleVerifier, hdecay]

def samplePool : List Candidate := [("alice", sampleVerifier "a"), ("bob", sampleVerifier "b")]

theorem sample_pool : VerifierPool.getActiveVerifiers 1 sampleSession.db = samplePool := by decide

theorem sample_weights :
    calculateWeights (fun _ => 1) (fun _ => 1) (VerifierPool.getActiveVerifiers 1 sampleSession.db) sampleEnv sampleSession =
      (.returns [1, 1], ⟨sampleDb, sampleDb, false, 0, 4⟩) := by
  have halice : sampleDb.verifiers.get? "alice" = some (sampleVerifier "a") := rfl
  have hbob : sampleDb.verifiers.get? "bob" = some (sampleVerifier "b") := rfl
  rw [sample_pool]
  simp only [samplePool, calculateWeights, bind_apply, sampleSession, calculateWeight_sample halice,
    calculateWeight_sample hbob, pure_apply]

theorem sample_totals : Python.accumulate [1, 1] = [1, 2] := by
  have htwo : Double.nearest (1 + 1 : Rat) = 2 := by
    have hexact := Double.nearest_intCast (n := 2) (by norm_num)
    norm_num at hexact ⊢
    exact hexact
  simp [Python.accumulate, Python.accumulateFrom, htwo]

theorem place_first : Python.place [1, 1] 0 = 0 := by
  simp [Python.place, sample_totals, Python.bisect]

theorem place_second : Python.place [1, 1] (1 / 2) = 1 := by
  simp [Python.place, sample_totals, Python.bisect]

theorem choices_sample (random : Nat → Rat) {first second : Candidate}
    (hfirst : samplePool[Python.place [1, 1] (random 0)]? = some first)
    (hsecond : samplePool[Python.place [1, 1] (random 1)]? = some second) :
    Python.choices samplePool [1, 1] (drawsOf random 2 0) 2 = .ok [first, second] := by
  have hrange : List.range 2 = [0, 1] := rfl
  have htotal : ¬(2 : Rat) ≤ 0 := by norm_num
  have hlength : ([1, 1] : List Rat).length = samplePool.length := rfl
  simp [Python.choices, sample_totals, hlength, htotal, hrange, drawsOf, hfirst, hsecond]

/-- With shares of the whole every committee is diverse. -/
theorem diverse_sample (first second : Candidate) : enforceDiversity sampleConstraints [first, second] = true := by
  have hallowed : ⌈Double.scale (2 : Nat) 1⌉ = 2 := by
    have hexact := Double.nearest_intCast (n := 2) (by norm_num)
    norm_num at hexact
    simp [Double.scale, hexact]
  have hshare : ∀ field : VerifierMetadata → String, checkShare field [first, second] 1 = true := by
    intro field
    simp only [checkShare, List.all_eq_true, decide_eq_true_eq]
    intro value _
    have hcount : ([first, second].map fun v => field v.2.metadata).count value ≤ 2 := List.count_le_length
    change _ ≤ ⌈Double.scale (2 : Nat) 1⌉
    rw [hallowed]
    exact_mod_cast hcount
  simp [enforceDiversity, checkOrgDiversity, checkAsnDiversity, checkRegionDiversity, sampleConstraints, hshare]

theorem selectCommittee_sample (random : Nat → Rat) {first second : Candidate}
    (hfirst : samplePool[Python.place [1, 1] (random 0)]? = some first)
    (hsecond : samplePool[Python.place [1, 1] (random 1)]? = some second) :
    selectCommittee (fun _ => 1) (fun _ => 1) random 2 1 (some sampleConstraints) sampleEnv sampleSession =
      (.returns [first, second], ⟨sampleDb, sampleDb, false, 0, 4⟩) := by
  have hdrawn : drawDiverse random sampleConstraints 2 samplePool [1, 1] 0 maxAttempts = .ok (some [first, second]) := by
    rw [maxAttempts, drawDiverse, choices_sample random hfirst hsecond]
    simp [diverse_sample]
  apply selectCommittee_of_drawn _ sample_weights
  · rw [sample_pool]
    exact hdrawn
  · rw [sample_pool]
    decide

def sampleDraws (i : Nat) : Rat := if i = 0 then 0 else 1 / 2

/-- The numbers zero and one half draw alice and bob. -/
theorem committee_of_distinct_verifiers_sample :
    SoundCommittee 2 1 sampleDb [("alice", sampleVerifier "a"), ("bob", sampleVerifier "b")] := by
  have hfirst : Python.place [1, 1] (sampleDraws 0) = 0 := place_first
  have hsecond : Python.place [1, 1] (sampleDraws 1) = 1 := place_second
  have halice : samplePool[Python.place [1, 1] (sampleDraws 0)]? = some ("alice", sampleVerifier "a") := by
    rw [hfirst]
    rfl
  have hbob : samplePool[Python.place [1, 1] (sampleDraws 1)]? = some ("bob", sampleVerifier "b") := by
    rw [hsecond]
    rfl
  apply (committee_of_distinct_verifiers (selectCommittee_sample sampleDraws halice hbob)).mpr
  have hweights : weightsAt (fun _ => 1) (fun _ => 1) 1 sampleEnv sampleSession = [1, 1] := by rw [weightsAt, sample_weights]
  rw [hweights, sample_pool]
  have haccepted : Accepted sampleDraws sampleConstraints 2 samplePool [1, 1] 0 :=
    ⟨_, choices_sample sampleDraws halice hbob, diverse_sample _ _⟩
  intro attempt _ hfirstOne _
  have hzero : attempt = 0 := by
    by_contra hne
    exact hfirstOne 0 (by omega) haccepted
  subst hzero
  have hrange : List.range 2 = [0, 1] := rfl
  simp [DrawnApart, drawsOf, hrange, hfirst, hsecond]

/-- Both numbers are zero, and both draws fall on alice. -/
theorem drawn_twice : ∃ committee s',
    selectCommittee (fun _ => 1) (fun _ => 1) (fun _ => 0) 2 1 (some sampleConstraints) sampleEnv sampleSession =
      (.returns committee, s') ∧ ¬SoundCommittee 2 1 s'.db committee := by
  have hdrawn : samplePool[Python.place [1, 1] 0]? = some ("alice", sampleVerifier "a") := by
    rw [place_first]
    rfl
  refine ⟨_, _, selectCommittee_sample (fun _ => 0) hdrawn hdrawn, ?_⟩
  intro h
  exact absurd h.distinct (by decide)

end Samples

end VerifierSelector

end AgentNetwork
