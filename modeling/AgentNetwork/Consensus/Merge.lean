import Mathlib.Data.Prod.Lex
import Mathlib.Data.String.Basic
import Mathlib.Order.OrderDual
import AgentNetwork.Consensus.Raft

namespace AgentNetwork.Consensus

open Relational Plan

inductive Winner
  | local
  | remote
  deriving DecidableEq

structure DecideConflict where
  needId : String
  localDecide : DecideDict
  remoteDecide : DecideDict
  winner : Winner
  reason : String
  deriving DecidableEq

namespace MergeHandler

/-- Highest epoch, then highest lamport, then lowest decider id. -/
def highestEpochWins (localDecide remoteDecide : DecideDict) : Winner :=
  let localEpoch := localDecide.epoch.getD 0
  let remoteEpoch := remoteDecide.epoch.getD 0
  if localEpoch ≠ remoteEpoch then (if localEpoch > remoteEpoch then .local else .remote)
  else
    let localLamport := localDecide.lamport.getD 0
    let remoteLamport := remoteDecide.lamport.getD 0
    if localLamport ≠ remoteLamport then (if localLamport > remoteLamport then .local else .remote)
    else
      let localId := localDecide.deciderId.getD ""
      let remoteId := remoteDecide.deciderId.getD ""
      if localId < remoteId then .local else .remote

/-- `{d["need_id"]: d for d in decides}`. -/
def byNeed : List DecideDict → Table String DecideDict → Except PlanError (Table String DecideDict)
  | [], table => .ok table
  | d :: rest, table => do
    let need ← field "need_id" d.needId
    byNeed rest (table.upsert need d)

/-- The conflict on one need, if the proposals differ. -/
def conflictOn (localByNeed remoteByNeed : Table String DecideDict) (needId : String) : Option DecideConflict :=
  match localByNeed.get? needId, remoteByNeed.get? needId with
  | some localD, some remoteD =>
    if localD.proposalId = remoteD.proposalId then none
    else
      some ⟨needId, localD, remoteD, highestEpochWins localD remoteD,
        s!"Epoch {localD.epoch.getD 0} vs {remoteD.epoch.getD 0}"⟩
  | _, _ => none

def mergeOnHeal (localDecides remoteDecides : List DecideDict) : Except PlanError (List DecideConflict) := do
  let localByNeed ← byNeed localDecides .empty
  let remoteByNeed ← byNeed remoteDecides .empty
  let both := localByNeed.keys.filter fun needId => remoteByNeed.contains needId
  .ok (both.filterMap (conflictOn localByNeed remoteByNeed))

end MergeHandler

/-- The record that the conflict leaves standing. -/
def DecideConflict.chosen (c : DecideConflict) : DecideDict :=
  match c.winner with
  | .local => c.localDecide
  | .remote => c.remoteDecide

end AgentNetwork.Consensus

namespace AgentNetwork.Consensus

open Relational Plan MergeHandler

/-- What the merge compares: a greater rank wins, the decider ids taken in reverse. -/
def DecideDict.rank (d : DecideDict) : Lex (Int × Lex (Int × OrderDual String)) :=
  toLex (d.epoch.getD 0, toLex (d.lamport.getD 0, OrderDual.toDual (d.deciderId.getD "")))

/-- The fields that settle a conflict. -/
def DecideDict.mergeKey (d : DecideDict) : Int × Int × String := (d.epoch.getD 0, d.lamport.getD 0, d.deciderId.getD "")

theorem rank_eq_iff {l r : DecideDict} : l.rank = r.rank ↔ l.mergeKey = r.mergeKey := Iff.rfl

/-- The three rules are one strict order. -/
theorem highestEpochWins_local {l r : DecideDict} : highestEpochWins l r = .local ↔ r.rank < l.rank := by
  simp only [DecideDict.rank, Prod.Lex.toLex_lt_toLex, OrderDual.toDual_lt_toDual]
  unfold highestEpochWins
  dsimp only
  by_cases hepoch : l.epoch.getD 0 = r.epoch.getD 0
  · rw [if_neg (not_not.mpr hepoch)]
    by_cases hlamport : l.lamport.getD 0 = r.lamport.getD 0
    · rw [if_neg (not_not.mpr hlamport)]
      simp [hepoch, hlamport]
    · rw [if_pos hlamport]
      simp [hepoch, Ne.symm hlamport]
  · rw [if_pos hepoch]
    simp [Ne.symm hepoch]

theorem highestEpochWins_remote {l r : DecideDict} : highestEpochWins l r = .remote ↔ ¬r.rank < l.rank := by
  rw [← highestEpochWins_local]
  cases highestEpochWins l r <;> simp

/-- At most one record for each need. -/
structure OneEach (decides : List DecideDict) : Prop where
  named : ∀ d ∈ decides, ∃ need, d.needId = some need
  distinct : (decides.map DecideDict.needId).Nodup

theorem byNeed_returns {decides : List DecideDict} (h : OneEach decides) (table : Table String DecideDict) :
    ∃ t, byNeed decides table = .ok t ∧ (∀ need d, d ∈ decides → d.needId = some need → t.get? need = some d) ∧
      ∀ need, (∀ d ∈ decides, d.needId ≠ some need) → t.get? need = table.get? need := by
  induction decides generalizing table with
  | nil => exact ⟨table, rfl, by simp, fun _ _ => rfl⟩
  | cons d rest ih =>
    obtain ⟨hnot, hdistinct⟩ := List.nodup_cons.mp h.distinct
    obtain ⟨need, hneed⟩ := h.named d List.mem_cons_self
    have hrest : OneEach rest := ⟨fun x hx => h.named x (List.mem_cons_of_mem d hx), hdistinct⟩
    obtain ⟨t, ht, hfound, hother⟩ := ih hrest (table.upsert need d)
    have hlater : ∀ x ∈ rest, x.needId ≠ some need := by
      intro x hx he
      exact hnot (List.mem_map.mpr ⟨x, hx, he.trans hneed.symm⟩)
    refine ⟨t, ?_, ?_, ?_⟩
    · rw [byNeed, hneed]
      exact ht
    · intro n x hx hn
      rcases List.mem_cons.mp hx with rfl | hx
      · have he : n = need := Option.some.inj (hn.symm.trans hneed)
        rw [he, hother need hlater, Table.get?_upsert, if_pos rfl]
      · exact hfound n x hx hn
    · intro n hn
      have hne : n ≠ need := by
        rintro rfl
        exact hn d List.mem_cons_self hneed
      rw [hother n fun x hx => hn x (List.mem_cons_of_mem d hx), Table.get?_upsert, if_neg hne]

/-- The index of a list holds its records and nothing else. -/
theorem byNeed_exact {decides : List DecideDict} (h : OneEach decides) :
    ∃ t, byNeed decides .empty = .ok t ∧ ∀ need d, t.get? need = some d ↔ d ∈ decides ∧ d.needId = some need := by
  obtain ⟨t, ht, hfound, hother⟩ := byNeed_returns h .empty
  refine ⟨t, ht, ?_⟩
  intro need d
  constructor
  · intro hd
    by_cases hsome : ∃ x ∈ decides, x.needId = some need
    · obtain ⟨x, hx, hneed⟩ := hsome
      have he : x = d := Option.some.inj ((hfound need x hx hneed).symm.trans hd)
      exact he ▸ ⟨hx, hneed⟩
    · have hnone := hother need fun x hx he => hsome ⟨x, hx, he⟩
      rw [hnone] at hd
      simp at hd
  · intro hd
    exact hfound need d hd.1 hd.2

/-- The record that healing leaves for a need, seen from the side of `l`. -/
def Chooses (l r : List DecideDict) (need : String) (d : DecideDict) : Prop :=
  ∃ conflicts c, mergeOnHeal l r = .ok conflicts ∧ c ∈ conflicts ∧ c.needId = need ∧ c.chosen = d

/-- On a need with two proposals the choice is that of the three rules. -/
theorem chooses_iff {l r : List DecideDict} (hl : OneEach l) (hr : OneEach r) {need : String} {a b : DecideDict}
    (ha : a ∈ l ∧ a.needId = some need) (hb : b ∈ r ∧ b.needId = some need) (hne : a.proposalId ≠ b.proposalId)
    (d : DecideDict) : Chooses l r need d ↔ d = if b.rank < a.rank then a else b := by
  obtain ⟨tl, htl, hfoundl⟩ := byNeed_exact hl
  obtain ⟨tr, htr, hfoundr⟩ := byNeed_exact hr
  have hgetl := (hfoundl need a).mpr ha
  have hgetr := (hfoundr need b).mpr hb
  have hmerge : mergeOnHeal l r =
      .ok ((tl.keys.filter fun needId => tr.contains needId).filterMap (conflictOn tl tr)) := by
    rw [mergeOnHeal, htl, htr]
    rfl
  have hconflict : conflictOn tl tr need = some ⟨need, a, b, highestEpochWins a b,
      s!"Epoch {a.epoch.getD 0} vs {b.epoch.getD 0}"⟩ := by
    rw [conflictOn, hgetl, hgetr]
    exact if_neg hne
  have hchosen : (DecideConflict.mk need a b (highestEpochWins a b)
      s!"Epoch {a.epoch.getD 0} vs {b.epoch.getD 0}").chosen = if b.rank < a.rank then a else b := by
    by_cases hlt : b.rank < a.rank
    · rw [DecideConflict.chosen, highestEpochWins_local.mpr hlt, if_pos hlt]
    · rw [DecideConflict.chosen, highestEpochWins_remote.mpr hlt, if_neg hlt]
  have hboth : need ∈ tl.keys.filter fun needId => tr.contains needId := by
    rw [List.mem_filter]
    refine ⟨?_, Table.contains_eq_true_iff.mpr ⟨b, hgetr⟩⟩
    by_contra hn
    rw [Table.get?_eq_none_iff.mpr hn] at hgetl
    simp at hgetl
  constructor
  · intro h
    obtain ⟨conflicts, c, hok, hc, hneed, rfl⟩ := h
    rw [hmerge] at hok
    rw [← Except.ok.inj hok] at hc
    obtain ⟨n, _, hn⟩ := List.mem_filterMap.mp hc
    have hsame : n = need := by
      rw [← hneed]
      unfold conflictOn at hn
      split at hn
      next =>
        split at hn
        next => simp at hn
        next => rw [← Option.some.inj hn]
      next => simp at hn
    rw [hsame, hconflict] at hn
    rw [← Option.some.inj hn]
    exact hchosen
  · intro h
    exact ⟨_, _, hmerge, List.mem_filterMap.mpr ⟨need, hboth, hconflict⟩, rfl, h ▸ hchosen⟩

/-- Both sides are left with one and the same record. -/
def SameChoice (l r : List DecideDict) (need : String) : Prop :=
  ∃ d, (∀ x, Chooses l r need x ↔ x = d) ∧ ∀ x, Chooses r l need x ↔ x = d

theorem sameChoice_iff {l r : List DecideDict} (hl : OneEach l) (hr : OneEach r) {need : String} {a b : DecideDict}
    (ha : a ∈ l ∧ a.needId = some need) (hb : b ∈ r ∧ b.needId = some need) (hne : a.proposalId ≠ b.proposalId) :
    SameChoice l r need ↔ a.mergeKey ≠ b.mergeKey := by
  have hab : a ≠ b := fun he => hne (congrArg DecideDict.proposalId he)
  have hlocal := chooses_iff hl hr ha hb hne
  have hremote := chooses_iff hr hl hb ha (Ne.symm hne)
  rw [ne_eq, ← rank_eq_iff]
  constructor
  · intro h he
    obtain ⟨d, hd, hd'⟩ := h
    have hb' := (hd b).mp ((hlocal b).mpr (by rw [he, if_neg (lt_irrefl _)]))
    have ha' := (hd' a).mp ((hremote a).mpr (by rw [he, if_neg (lt_irrefl _)]))
    exact hab (ha'.trans hb'.symm)
  · intro h
    rcases lt_or_gt_of_ne h with hlt | hlt
    · refine ⟨b, ?_, ?_⟩
      · intro x
        rw [hlocal, if_neg (not_lt.mpr hlt.le)]
      · intro x
        rw [hremote, if_pos hlt]
    · refine ⟨a, ?_, ?_⟩
      · intro x
        rw [hlocal, if_pos hlt]
      · intro x
        rw [hremote, if_neg (not_lt.mpr hlt.le)]

/-- A record that wins over one that wins over a third wins over the third. -/
theorem chooses_trans {x y z : List DecideDict} (hx : OneEach x) (hy : OneEach y) (hz : OneEach z) {need : String}
    {a b c : DecideDict} (ha : a ∈ x ∧ a.needId = some need) (hb : b ∈ y ∧ b.needId = some need)
    (hc : c ∈ z ∧ c.needId = some need) (hab : a.proposalId ≠ b.proposalId) (hbc : b.proposalId ≠ c.proposalId)
    (hac : a.proposalId ≠ c.proposalId) (h : Chooses x y need a) (h' : Chooses y z need b) : Chooses x z need a := by
  have hfirst : b.rank < a.rank := by
    have hchoice := (chooses_iff hx hy ha hb hab a).mp h
    by_contra hn
    rw [if_neg hn] at hchoice
    exact hab (congrArg DecideDict.proposalId hchoice)
  have hsecond : c.rank < b.rank := by
    have hchoice := (chooses_iff hy hz hb hc hbc b).mp h'
    by_contra hn
    rw [if_neg hn] at hchoice
    exact hbc (congrArg DecideDict.proposalId hchoice)
  rw [chooses_iff hx hz ha hc hac, if_pos (hsecond.trans hfirst)]

/-- Partitions that hold different proposals for a need agree pairwise on the
record that stays, and their choices are transitive, if and only if no two of the
records have the same epoch, lamport and decider. -/
theorem healing_agrees_iff {ι : Type} (partition : ι → List DecideDict) (hone : ∀ i, OneEach (partition i))
    (need : String) (decide : ι → DecideDict)
    (hdecide : ∀ i, decide i ∈ partition i ∧ (decide i).needId = some need)
    (hne : ∀ i j, i ≠ j → (decide i).proposalId ≠ (decide j).proposalId) :
    ((∀ i j, i ≠ j → SameChoice (partition i) (partition j) need) ∧
      ∀ i j k, i ≠ j → j ≠ k → i ≠ k → Chooses (partition i) (partition j) need (decide i) →
        Chooses (partition j) (partition k) need (decide j) → Chooses (partition i) (partition k) need (decide i)) ↔
      ∀ i j, i ≠ j → (decide i).mergeKey ≠ (decide j).mergeKey := by
  have hpair (i j : ι) (hij : i ≠ j) : SameChoice (partition i) (partition j) need ↔
      (decide i).mergeKey ≠ (decide j).mergeKey :=
    sameChoice_iff (hone i) (hone j) (hdecide i) (hdecide j) (hne i j hij)
  constructor
  · intro h i j hij
    exact (hpair i j hij).mp (h.1 i j hij)
  · intro h
    refine ⟨fun i j hij => (hpair i j hij).mpr (h i j hij), ?_⟩
    intro i j k hij hjk hik hi hj
    exact chooses_trans (hone i) (hone j) (hone k) (hdecide i) (hdecide j) (hdecide k) (hne i j hij) (hne j k hjk)
      (hne i k hik) hi hj

/-- The record of a quorum, as `handle_attest_plan` has it stored. -/
def quorumDecide (proposalId : String) (epoch lamport : Int) : DecideDict :=
  (DecideRecord.mk "need" proposalId epoch lamport 3 "quorum-system" 0).asdict

theorem oneEach_singleton (d : DecideDict) (h : d.needId = some "need") : OneEach [d] where
  named x hx := ⟨"need", by rw [List.mem_singleton.mp hx, h]⟩
  distinct := List.nodup_singleton _

def proposalOf : Fin 3 → String
  | 0 => "plan-a"
  | 1 => "plan-b"
  | 2 => "plan-c"

theorem healing_agrees_iff_three_lamports :
    (∀ i j : Fin 3, i ≠ j → SameChoice [quorumDecide (proposalOf i) 1 i] [quorumDecide (proposalOf j) 1 j] "need") ∧
      ∀ i j : Fin 3, i ≠ j → (quorumDecide (proposalOf i) 1 i).mergeKey ≠ (quorumDecide (proposalOf j) 1 j).mergeKey := by
  have h := healing_agrees_iff (fun i : Fin 3 => [quorumDecide (proposalOf i) 1 i])
    (fun i => oneEach_singleton _ rfl) "need" (fun i => quorumDecide (proposalOf i) 1 i)
    (fun i => ⟨List.mem_singleton_self _, rfl⟩) (by decide)
  have hkeys : ∀ i j : Fin 3, i ≠ j →
      (quorumDecide (proposalOf i) 1 i).mergeKey ≠ (quorumDecide (proposalOf j) 1 j).mergeKey := by decide
  exact ⟨(h.mpr hkeys).1, hkeys⟩

/-- Two quorums in one epoch at one lamport: each side gives up its own record. -/
theorem quorums_swap_decides : Chooses [quorumDecide "plan-a" 1 7] [quorumDecide "plan-b" 1 7] "need"
      (quorumDecide "plan-b" 1 7) ∧
    Chooses [quorumDecide "plan-b" 1 7] [quorumDecide "plan-a" 1 7] "need" (quorumDecide "plan-a" 1 7) ∧
    ¬SameChoice [quorumDecide "plan-a" 1 7] [quorumDecide "plan-b" 1 7] "need" := by
  have hne : (quorumDecide "plan-a" 1 7).proposalId ≠ (quorumDecide "plan-b" 1 7).proposalId := by decide
  refine ⟨⟨_, _, rfl, List.mem_singleton_self _, rfl, rfl⟩, ⟨_, _, rfl, List.mem_singleton_self _, rfl, rfl⟩, ?_⟩
  rw [sameChoice_iff (oneEach_singleton _ rfl) (oneEach_singleton _ rfl) ⟨List.mem_singleton_self _, rfl⟩
    ⟨List.mem_singleton_self _, rfl⟩ hne]
  exact fun h => h rfl

end AgentNetwork.Consensus
