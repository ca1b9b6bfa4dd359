import AgentNetwork.Sharding.EscrowHistory

namespace AgentNetwork.Sharding.EscrowHistory

open Relational Transition EscrowState EscrowManager

/-- An escrow that a sweep found overdue, or that some shard did not signal in
time, is not released. -/
def WithinTtl (h : EscrowHistory) : Prop :=
  ∀ id escrow, h.manager.getEscrow id = some escrow →
    (id ∈ h.overdue ∨ ∃ d ∈ escrow.shardDependencies, ∀ t, ⟨id, d, t⟩ ∈ h.signals → escrow.expiresAtNs ≤ t) →
    (h.manager.releaseEscrow id).1 = none

/-- No signal completes an escrow at or after its expiry, and no sweep comes
upon a READY escrow past its expiry. -/
def Timely (h : EscrowHistory) : Int × EscrowCall → Prop
  | (nowNs, .addReadyShard id shardId) => ∀ escrow, h.manager.getEscrow id = some escrow → escrow.state = .pending →
      (∀ d ∈ escrow.shardDependencies, d ∈ escrow.readyShards.add shardId) → nowNs < escrow.expiresAtNs
  | (nowNs, .checkExpirations currentTimeNs) => ∀ id escrow, h.manager.getEscrow id = some escrow →
      escrow.state = .ready → currentTimeNs.getD nowNs < escrow.expiresAtNs
  | _ => True

/-- A call under a fresh identifier, not before the one it follows. -/
def InOrder (h : EscrowHistory) (call : Int × EscrowCall) : Prop := h.Fresh call ∧ h.clock ≤ call.1

theorem withinTtl_iff {h : EscrowHistory} : h.WithinTtl ↔
    ∀ id escrow, h.manager.getEscrow id = some escrow → escrow.state = .ready →
      id ∉ h.overdue ∧ ∀ d ∈ escrow.shardDependencies, ∃ t, ⟨id, d, t⟩ ∈ h.signals ∧ t < escrow.expiresAtNs := by
  constructor
  · intro hw id escrow hget hready
    have hsome := (releaseEscrow_fst h.manager id).mpr ⟨escrow, hget, hready, rfl⟩
    constructor
    · intro hover
      rw [hw id escrow hget (Or.inl hover)] at hsome
      cases hsome
    · intro d hd
      by_contra hlate
      push Not at hlate
      rw [hw id escrow hget (Or.inr ⟨d, hd, hlate⟩)] at hsome
      cases hsome
  · intro hall id escrow hget hbad
    rw [Option.eq_none_iff_forall_ne_some]
    intro hash hrelease
    obtain ⟨escrow', hget', hready, _⟩ := (releaseEscrow_fst h.manager id).mp hrelease
    cases hget.symm.trans hget'
    obtain ⟨hnot, hsignals⟩ := hall id escrow hget hready
    rcases hbad with hover | ⟨d, hd, hlate⟩
    · exact hnot hover
    · obtain ⟨t, hsig, ht⟩ := hsignals d hd
      have := hlate t hsig
      omega

theorem mem_signalsOf {m : EscrowManager} {nowNs : Int} {c : EscrowCall} {id : String} {d t : Int} :
    ⟨id, d, t⟩ ∈ signalsOf m nowNs c ↔ c = .addReadyShard id d ∧ t = nowNs ∧ ∃ escrow, m.getEscrow id = some escrow := by
  cases c with
  | addReadyShard escrowId shardId =>
    dsimp only [signalsOf]
    rw [← Option.isSome_iff_exists]
    split
    next hsome =>
      simp only [List.mem_singleton, ReadySignal.mk.injEq, EscrowCall.addReadyShard.injEq]
      constructor
      · rintro ⟨rfl, rfl, rfl⟩
        exact ⟨⟨rfl, rfl⟩, rfl, hsome⟩
      · rintro ⟨⟨rfl, rfl⟩, rfl, _⟩
        exact ⟨rfl, rfl, rfl⟩
    next hnone =>
      simp only [List.not_mem_nil, EscrowCall.addReadyShard.injEq, false_iff]
      rintro ⟨⟨rfl, _⟩, _, hsome⟩
      exact hnone hsome
  | createEscrow | releaseEscrow | expireEscrow | cancelEscrow | checkExpirations | cleanupCompleted =>
    simp [signalsOf]

theorem mem_overdueAt {m : EscrowManager} {nowNs : Int} {c : EscrowCall} {id : String} :
    id ∈ overdueAt m nowNs c ↔ ∃ currentTimeNs, c = .checkExpirations currentTimeNs ∧
      ∃ escrow, m.getEscrow id = some escrow ∧ escrow.state ≠ .released ∧
        escrow.expiresAtNs ≤ currentTimeNs.getD nowNs := by
  cases c with
  | checkExpirations currentTimeNs =>
    simp only [overdueAt, List.mem_map, List.mem_filter, decide_eq_true_eq, EscrowArtifact.isExpired_iff]
    constructor
    · rintro ⟨⟨i, escrow⟩, ⟨hm, hdue⟩, rfl⟩
      exact ⟨_, rfl, escrow, Table.get?_eq_some_iff.mpr hm, hdue⟩
    · rintro ⟨_, hc, escrow, hget, hdue⟩
      cases hc
      exact ⟨(id, escrow), ⟨Table.get?_eq_some_iff.mp hget, hdue⟩, rfl⟩
  | createEscrow | addReadyShard | releaseEscrow | expireEscrow | cancelEscrow | cleanupCompleted =>
    simp [overdueAt]

/-- What a run keeps of the escrows still waiting, and of the times it has seen. -/
structure Waiting (h : EscrowHistory) : Prop where
  incomplete : ∀ id escrow, h.manager.getEscrow id = some escrow → escrow.state = .pending →
    ¬∀ d ∈ escrow.shardDependencies, d ∈ escrow.readyShards
  collected : ∀ id escrow, h.manager.getEscrow id = some escrow → escrow.state = .pending →
    ∀ d t, ⟨id, d, t⟩ ∈ h.signals → d ∈ escrow.readyShards
  notOverdue : ∀ id escrow, h.manager.getEscrow id = some escrow → escrow.state = .pending → id ∉ h.overdue
  signalsKnown : ∀ id d t, ⟨id, d, t⟩ ∈ h.signals → h.Known id ∧ t ≤ h.clock
  overdueKnown : ∀ id ∈ h.overdue, h.Known id

theorem start_waiting (clock : Int) : (start clock).Waiting := by
  constructor
  · intro id escrow h
    cases h
  · intro id escrow h
    cases h
  · intro id escrow h
    cases h
  · intro id d t h
    cases h
  · intro id h
    cases h

theorem signalled_pending {shardId : Int} {escrow : EscrowArtifact}
    (h : (signalled shardId escrow).state = .pending) :
    escrow.state = .pending ∧ (signalled shardId escrow).readyShards = escrow.readyShards.add shardId ∧
    ¬∀ d ∈ (signalled shardId escrow).shardDependencies, d ∈ (signalled shardId escrow).readyShards := by
  unfold signalled at h ⊢
  by_cases hstate : escrow.state ≠ .pending
  · rw [if_pos hstate] at h
    exact absurd h hstate
  · rw [if_neg hstate] at h ⊢
    by_cases hall : ∀ d ∈ escrow.shardDependencies, d ∈ escrow.readyShards.add shardId
    · rw [if_pos hall] at h
      cases h
    · rw [if_neg hall]
      exact ⟨not_not.mp hstate, rfl, hall⟩

theorem follows_pending {s : EscrowState} (h : Follows s .pending) : s = .pending := by
  rcases h with h | h
  · exact h.symm
  · cases h

theorem not_known_of_fresh {h : EscrowHistory} {nowNs : Int} {id artifactHash : String} {dependencies : List Int}
    {ttlNs : Int} {metadata : Option (List (String × Json))}
    (hfresh : h.Fresh (nowNs, .createEscrow id artifactHash dependencies ttlNs metadata)) : ¬h.Known id := by
  rintro ⟨deposit, hm, hid⟩
  exact hfresh _ (List.mem_singleton.mpr rfl) deposit hm hid

/-- Every escrow PENDING after a call: just created, just signalled, or left as it was. -/
theorem pending_cases {h : EscrowHistory} {nowNs : Int} {c : EscrowCall} {id : String} {escrow' : EscrowArtifact}
    (hget : (h.step nowNs c).manager.getEscrow id = some escrow') (hpending : escrow'.state = .pending) :
    (∃ artifactHash dependencies ttlNs metadata,
      c = .createEscrow id artifactHash dependencies ttlNs metadata ∧
      escrow' = newEscrow id nowNs artifactHash dependencies ttlNs metadata) ∨
    ∃ escrow, h.manager.getEscrow id = some escrow ∧ escrow.state = .pending ∧
      escrow'.shardDependencies = escrow.shardDependencies ∧
      ((∃ shardId, c = .addReadyShard id shardId ∧ escrow' = signalled shardId escrow) ∨
        ((∀ shardId, c ≠ .addReadyShard id shardId) ∧
          ∀ d, d ∈ escrow'.readyShards ↔ d ∈ escrow.readyShards)) := by
  have heffect := (getEscrow_call ..).symm.trans hget
  rcases call_cases hget with hnew | ⟨escrow, hold, ha⟩
  · exact Or.inl hnew
  · have hwas : escrow.state = .pending := follows_pending (hpending ▸ ha.follows)
    refine Or.inr ⟨escrow, hold, hwas, ha.shardDependencies, ?_⟩
    by_cases hc : ∃ shardId, c = .addReadyShard id shardId
    · obtain ⟨shardId, rfl⟩ := hc
      simp only [effect, hold, if_true, Option.map_some, Option.some.injEq] at heffect
      exact Or.inl ⟨shardId, rfl, heffect.symm⟩
    · refine Or.inr ⟨fun shardId hs => hc ⟨shardId, hs⟩, fun d => ?_⟩
      constructor
      · intro hd
        rcases ha.readyShards d hd with hwas | hs
        · exact hwas
        · exact absurd ⟨d, hs⟩ hc
      · exact ha.keepsReady d

theorem Waiting.step {h : EscrowHistory} (hw : h.Waiting) (hs : h.Sound) {nowNs : Int} {c : EscrowCall}
    (horder : h.InOrder (nowNs, c)) : (h.step nowNs c).Waiting := by
  constructor
  · intro id escrow' hget hpending hall
    rcases pending_cases hget hpending with ⟨_, dependencies, _, _, rfl, rfl⟩ |
      ⟨escrow, hold, hwas, hdeps, ⟨shardId, rfl, rfl⟩ | ⟨_, hready⟩⟩
    · by_cases hnone : dependencies = []
      · simp [newEscrow, hnone] at hpending
      · obtain ⟨d, hd⟩ := List.exists_mem_of_ne_nil _ hnone
        exact ListSet.not_mem_empty d (hall d hd)
    · exact (signalled_pending hpending).2.2 hall
    · rw [hdeps] at hall
      exact hw.incomplete id escrow hold hwas fun d hd => (hready d).mp (hall d hd)
  · intro id escrow' hget hpending d t hsig
    rcases pending_cases hget hpending with ⟨_, _, _, _, rfl, rfl⟩ |
      ⟨escrow, hold, hwas, _, ⟨shardId, rfl, rfl⟩ | ⟨hother, hready⟩⟩
    · rcases List.mem_append.mp hsig with hsig | hsig
      · exact absurd (hw.signalsKnown id d t hsig).1 (not_known_of_fresh horder.1)
      · cases (mem_signalsOf.mp hsig).1
    · rw [(signalled_pending hpending).2.1, ListSet.mem_add]
      rcases List.mem_append.mp hsig with hsig | hsig
      · exact Or.inr (hw.collected id escrow hold hwas d t hsig)
      · cases (mem_signalsOf.mp hsig).1
        exact Or.inl rfl
    · rcases List.mem_append.mp hsig with hsig | hsig
      · exact (hready d).mpr (hw.collected id escrow hold hwas d t hsig)
      · exact absurd (mem_signalsOf.mp hsig).1 (hother d)
  · intro id escrow' hget hpending hmem
    rcases List.mem_append.mp hmem with hover | hover
    · rcases pending_cases hget hpending with ⟨_, _, _, _, rfl, _⟩ | ⟨escrow, hold, hwas, _⟩
      · exact not_known_of_fresh horder.1 (hw.overdueKnown id hover)
      · exact hw.notOverdue id escrow hold hwas hover
    · -- a sweep that finds a PENDING escrow overdue expires it
      obtain ⟨currentTimeNs, rfl, escrow, hold, _, hdue⟩ := mem_overdueAt.mp hover
      have heffect := (getEscrow_call ..).symm.trans hget
      simp only [effect, hold, Option.map_some, Option.some.injEq] at heffect
      rw [← heffect] at hpending
      unfold swept at hpending
      split at hpending
      next => cases hpending
      next hnot => exact hnot ⟨hpending, hdue⟩
  · intro id d t hsig
    rcases List.mem_append.mp hsig with hsig | hsig
    · obtain ⟨hknown, ht⟩ := hw.signalsKnown id d t hsig
      exact ⟨hknown.step nowNs c, ht.trans horder.2⟩
    · obtain ⟨_, rfl, escrow, hget⟩ := mem_signalsOf.mp hsig
      exact ⟨Known.step ⟨_, hs.registered id escrow hget, rfl⟩ _ c, le_refl t⟩
  · intro id hover
    rcases List.mem_append.mp hover with hover | hover
    · exact (hw.overdueKnown id hover).step nowNs c
    · obtain ⟨_, _, escrow, hget, _⟩ := mem_overdueAt.mp hover
      exact Known.step ⟨_, hs.registered id escrow hget, rfl⟩ nowNs c

theorem WithinTtl.step {h : EscrowHistory} (hk : h.WithinTtl) (hw : h.Waiting) (hs : h.Sound) {nowNs : Int}
    {c : EscrowCall} (horder : h.InOrder (nowNs, c)) (htimely : h.Timely (nowNs, c)) :
    (h.step nowNs c).WithinTtl := by
  rw [withinTtl_iff] at hk ⊢
  intro id escrow' hget hready
  rcases call_cases hget with
    ⟨_, dependencies, _, _, rfl, rfl⟩ | ⟨escrow, hold, ha⟩
  · have hunknown := not_known_of_fresh horder.1
    constructor
    · intro hover
      rcases List.mem_append.mp hover with hover | hover
      · exact hunknown (hw.overdueKnown id hover)
      · obtain ⟨_, hc, _⟩ := mem_overdueAt.mp hover
        cases hc
    · intro d hd
      by_cases hnone : dependencies = []
      · simp [newEscrow, hnone] at hd
      · simp [newEscrow, hnone] at hready
  · rw [ha.shardDependencies, ha.expiresAtNs]
    rcases ha.complete hready with hwas | ⟨hwas, hall⟩
    · obtain ⟨hnot, hsignals⟩ := hk id escrow hold hwas
      constructor
      · intro hover
        rcases List.mem_append.mp hover with hover | hover
        · exact hnot hover
        · obtain ⟨currentTimeNs, rfl, escrow'', hold', _, hdue⟩ := mem_overdueAt.mp hover
          cases hold.symm.trans hold'
          have hbefore := htimely id escrow hold hwas
          omega
      · intro d hd
        obtain ⟨t, hsig, ht⟩ := hsignals d hd
        exact ⟨t, List.mem_append_left _ hsig, ht⟩
    · -- the call is the signal of a shard that was still missing
      rw [ha.shardDependencies] at hall
      have hmissing := hw.incomplete id escrow hold hwas
      push Not at hmissing
      obtain ⟨shardId, hdep, hnotReady⟩ := hmissing
      obtain rfl : c = .addReadyShard id shardId :=
        (ha.readyShards shardId (hall shardId hdep)).resolve_left hnotReady
      have hmem : ∀ d ∈ escrow.shardDependencies, d = shardId ∨ d ∈ escrow.readyShards := by
        intro d hd
        rcases ha.readyShards d (hall d hd) with hin | hc
        · exact Or.inr hin
        · cases hc
          exact Or.inl rfl
      have hnow : nowNs < escrow.expiresAtNs :=
        htimely escrow hold hwas fun d hd => ListSet.mem_add.mpr (hmem d hd)
      constructor
      · intro hover
        rcases List.mem_append.mp hover with hover | hover
        · exact hw.notOverdue id escrow hold hwas hover
        · obtain ⟨_, hc, _⟩ := mem_overdueAt.mp hover
          cases hc
      · intro d hd
        rcases hmem d hd with rfl | hin
        · exact ⟨nowNs, signal_recorded hold nowNs d, hnow⟩
        · obtain ⟨t, hsig⟩ := hs.signalled id escrow hold d hin
          have ht := (hw.signalsKnown id d t hsig).2
          have hclock := horder.2
          dsimp only at hclock
          exact ⟨t, List.mem_append_left _ hsig, by omega⟩

theorem timely_of_withinTtl {h : EscrowHistory} (hw : h.Waiting) {nowNs : Int} {c : EscrowCall}
    (hk : (h.step nowNs c).WithinTtl) : h.Timely (nowNs, c) := by
  rw [withinTtl_iff] at hk
  cases c with
  | addReadyShard id shardId =>
    intro escrow hold hwas hall
    have hmissing := hw.incomplete id escrow hold hwas
    push Not at hmissing
    obtain ⟨d, hdep, hnotReady⟩ := hmissing
    have hget : (h.step nowNs (.addReadyShard id shardId)).manager.getEscrow id = some (signalled shardId escrow) := by
      refine (getEscrow_call ..).trans ?_
      simp [effect, hold]
    have hsignalled : signalled shardId escrow =
        { escrow with readyShards := escrow.readyShards.add shardId, state := .ready } := by
      unfold signalled
      rw [if_neg (not_not.mpr hwas), if_pos hall]
    rw [hsignalled] at hget
    obtain ⟨_, hsignals⟩ := hk id _ hget rfl
    obtain ⟨t, hsig, ht⟩ := hsignals d hdep
    rcases List.mem_append.mp hsig with hsig | hsig
    · exact absurd (hw.collected id escrow hold hwas d t hsig) hnotReady
    · obtain ⟨_, rfl, _⟩ := mem_signalsOf.mp hsig
      exact ht
  | checkExpirations currentTimeNs =>
    intro id escrow hold hwas
    by_contra hdue
    have hget : (h.step nowNs (.checkExpirations currentTimeNs)).manager.getEscrow id = some escrow := by
      refine (getEscrow_call ..).trans ?_
      simp [effect, hold, swept, hwas]
    have hover : id ∈ overdueAt h.manager nowNs (.checkExpirations currentTimeNs) :=
      mem_overdueAt.mpr ⟨_, rfl, escrow, hold, by simp [hwas], by omega⟩
    exact (hk id escrow hget hwas).1 (List.mem_append_right _ hover)
  | createEscrow | releaseEscrow | expireEscrow | cancelEscrow | cleanupCompleted => trivial

theorem Reached.waiting {ok : EscrowHistory → Int × EscrowCall → Prop} {clock : Int} {h : EscrowHistory}
    (hrun : Reached (fun h call => h.InOrder call ∧ ok h call) clock h) : h.Sound ∧ h.Waiting := by
  apply Visits.invariant (I := fun h : EscrowHistory => h.Sound ∧ h.Waiting) hrun
  · exact ⟨start_sound clock, start_waiting clock⟩
  · rintro s call _ ⟨hs, hw⟩ ⟨horder, _⟩ rfl
    exact ⟨hs.step call.1 call.2, hw.step hs horder⟩

/-- No escrow outlives its TTL in a run of timely calls, and a call that is not
timely makes one that does. -/
theorem escrow_within_ttl_iff {clock : Int} {h : EscrowHistory}
    (hrun : Reached (fun h call => h.InOrder call ∧ h.Timely call) clock h) :
    h.WithinTtl ∧ ∀ call, h.InOrder call → ((h.step call.1 call.2).WithinTtl ↔ h.Timely call) := by
  have hkept : h.Sound ∧ h.Waiting ∧ h.WithinTtl := by
    apply Visits.invariant (I := fun h : EscrowHistory => h.Sound ∧ h.Waiting ∧ h.WithinTtl) hrun
    · refine ⟨start_sound clock, start_waiting clock, ?_⟩
      intro id escrow h
      cases h
    · rintro s call _ ⟨hs, hw, hk⟩ ⟨horder, htimely⟩ rfl
      exact ⟨hs.step call.1 call.2, hw.step hs horder, hk.step hw hs horder htimely⟩
  obtain ⟨hs, hw, hk⟩ := hkept
  refine ⟨hk, fun call horder => ?_⟩
  constructor
  · exact timely_of_withinTtl hw
  · exact hk.step hw hs horder

theorem inOrder_of_no_deposit {h : EscrowHistory} {nowNs : Int} {c : EscrowCall} (hc : deposits c = [])
    (hclock : h.clock ≤ nowNs) : h.InOrder (nowNs, c) := by
  refine ⟨fun deposit hd => ?_, hclock⟩
  rw [hc] at hd
  cases hd

theorem created_inOrder : (start 0).InOrder (0, .createEscrow "e" "artifact" [1] 10 none) := by
  refine ⟨fun deposit _ old hold => ?_, le_refl _⟩
  cases hold

def createdAtZero : EscrowHistory := (start 0).step 0 (.createEscrow "e" "artifact" [1] 10 none)

theorem escrow_within_ttl_iff_created : Reached (fun h call => h.InOrder call ∧ h.Timely call) 0 createdAtZero ∧
    createdAtZero.WithinTtl ∧ ¬(createdAtZero.step 10 (.addReadyShard "e" 1)).WithinTtl := by
  have hrun : Reached (fun h call => h.InOrder call ∧ h.Timely call) 0 createdAtZero :=
    .next .start ⟨created_inOrder, trivial⟩ rfl
  obtain ⟨hk, hiff⟩ := escrow_within_ttl_iff hrun
  refine ⟨hrun, hk, fun hlate => ?_⟩
  have htimely := (hiff (10, .addReadyShard "e" 1) (inOrder_of_no_deposit rfl (by decide))).mp hlate
  have hbefore := htimely (newEscrow "e" 0 "artifact" [1] 10 none) (by decide +kernel) rfl (by decide)
  revert hbefore
  decide

/-- The sweep at time 12 leaves an escrow that became READY at 5 alone, and the
artifact, due by 10, is still handed out. -/
theorem swept_ready_escrow_released : ∃ h, Reached InOrder 0 h ∧ "e" ∈ h.overdue ∧
    (h.manager.releaseEscrow "e").1 = some "artifact" ∧ ¬h.WithinTtl := by
  have hsignal : (createdAtZero.step 5 (.addReadyShard "e" 1)).manager.getEscrow "e" =
      some (signalled 1 (newEscrow "e" 0 "artifact" [1] 10 none)) := by decide +kernel
  have hrun : Reached InOrder 0 ((createdAtZero.step 5 (.addReadyShard "e" 1)).step 12 (.checkExpirations none)) :=
    .next (.next (.next .start created_inOrder rfl) (inOrder_of_no_deposit rfl (by decide)) rfl)
      (inOrder_of_no_deposit rfl (by decide)) rfl
  have hover : "e" ∈ ((createdAtZero.step 5 (.addReadyShard "e" 1)).step 12 (.checkExpirations none)).overdue := by
    decide +kernel
  have hrelease : (((createdAtZero.step 5 (.addReadyShard "e" 1)).step 12
      (.checkExpirations none)).manager.releaseEscrow "e").1 = some "artifact" := by decide +kernel
  refine ⟨_, hrun, hover, hrelease, fun hk => ?_⟩
  have hnone := hk "e" (signalled 1 (newEscrow "e" 0 "artifact" [1] 10 none)) (by decide +kernel) (Or.inl hover)
  rw [hrelease] at hnone
  cases hnone

end AgentNetwork.Sharding.EscrowHistory
