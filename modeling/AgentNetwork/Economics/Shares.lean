import AgentNetwork.Economics.Payout

namespace AgentNetwork

open Relational Transactional

/-- What a map of recipients hands out. -/
def distributed (recipients : Table String Int) : Int := (recipients.entries.map Prod.snd).sum

theorem total_upsert_add (t : Table String Int) (k : String) (n : Int) :
    distributed (t.upsert k ((t.get? k).getD 0 + n)) = distributed t + n := by
  unfold Table.upsert
  split
  next h =>
    have hinsert := Table.total_insert h (r := (t.get? k).getD 0 + n) fun _ m => m
    simp only [h, Option.getD_none, zero_add] at hinsert ⊢
    exact hinsert
  next h =>
    obtain ⟨m, hm⟩ := Option.ne_none_iff_exists'.mp h
    have hset := Table.total_set hm (m + n) fun _ m => m
    simp only [hm, Option.getD_some]
    change distributed (t.set k (m + n)) + m = distributed t + (m + n) at hset
    omega

namespace PayoutDistributor

/-- The shares that are no burn. -/
def paidShares (shares : List PayoutShare) : List PayoutShare := shares.filter fun s => s.shareType ≠ .burn

theorem recipientsOf_eq (shares : List PayoutShare) (start : Table String Int) :
    shares.foldl addShare start = (paidShares shares).foldl addShare start := by
  induction shares generalizing start with
  | nil => rfl
  | cons s shares ih =>
    by_cases hs : s.shareType = .burn
    · have hskip : addShare start s = start := by rw [addShare, if_pos hs]
      have hdrop : paidShares (s :: shares) = paidShares shares := List.filter_cons_of_neg (by simp [hs])
      rw [List.foldl_cons, hskip, hdrop]
      exact ih start
    · have hkeep : paidShares (s :: shares) = s :: paidShares shares := List.filter_cons_of_pos (by simp [hs])
      rw [List.foldl_cons, hkeep, List.foldl_cons]
      exact ih _

theorem foldl_addShare_total {shares : List PayoutShare} (h : ∀ s ∈ shares, s.shareType ≠ .burn) (start : Table String Int) :
    distributed (shares.foldl addShare start) = distributed start + (shares.map PayoutShare.amount).sum := by
  induction shares generalizing start with
  | nil => simp
  | cons s shares ih =>
    have hs := h s List.mem_cons_self
    rw [List.foldl_cons, ih fun x hx => h x (List.mem_cons_of_mem s hx), addShare, if_neg hs, total_upsert_add,
      List.map_cons, List.sum_cons]
    omega

theorem distributed_recipientsOf (shares : List PayoutShare) :
    distributed (recipientsOf shares) = ((paidShares shares).map PayoutShare.amount).sum := by
  have hpaid : ∀ s ∈ paidShares shares, s.shareType ≠ .burn := by
    intro s hs
    simpa using (List.mem_filter.mp hs).2
  rw [recipientsOf, recipientsOf_eq, foldl_addShare_total hpaid]
  exact zero_add _

theorem foldl_addShare_nonneg {shares : List PayoutShare} (h : ∀ s ∈ shares, 0 ≤ s.amount) {start : Table String Int}
    (hstart : ∀ k n, start.get? k = some n → 0 ≤ n) {k : String} {n : Int}
    (hg : (shares.foldl addShare start).get? k = some n) : 0 ≤ n := by
  induction shares generalizing start with
  | nil => exact hstart k n hg
  | cons s shares ih =>
    refine ih (fun x hx => h x (List.mem_cons_of_mem s hx)) ?_ hg
    intro j m hj
    unfold addShare at hj
    split at hj
    · exact hstart j m hj
    · rw [Table.get?_upsert] at hj
      split at hj
      · cases Option.some.inj hj
        have hs := h s List.mem_cons_self
        cases hold : start.get? s.recipientId with
        | none => simpa using hs
        | some old =>
          have hle := hstart _ old hold
          simp only [Option.getD_some]
          omega
      · exact hstart j m hj

theorem recipientsOf_nonneg {shares : List PayoutShare} (h : ∀ s ∈ shares, 0 ≤ s.amount) :
    ∀ r ∈ (recipientsOf shares).entries, 0 ≤ r.2 := by
  intro r hr
  exact foldl_addShare_nonneg h (by simp) (Table.get?_eq_some_iff.mpr hr)

theorem foldl_addShare_contains {shares : List PayoutShare} {start : Table String Int} {k : String}
    (h : start.contains k = true) : (shares.foldl addShare start).contains k = true := by
  induction shares generalizing start with
  | nil => exact h
  | cons s shares ih =>
    refine ih ?_
    unfold addShare
    split
    · exact h
    · rw [Table.contains, Table.get?_upsert]
      split
      · rfl
      · exact h

/-- A share that is no burn makes its recipient one of the map. -/
theorem recipientsOf_contains {shares : List PayoutShare} {s : PayoutShare} (hs : s ∈ shares)
    (hpaid : s.shareType ≠ .burn) : (recipientsOf shares).contains s.recipientId = true := by
  obtain ⟨before, after, rfl⟩ := List.append_of_mem hs
  rw [recipientsOf, List.foldl_append, List.foldl_cons]
  refine foldl_addShare_contains ?_
  rw [addShare, if_neg hpaid, Table.contains, Table.get?_upsert, if_pos rfl]
  rfl

section Committee

variable {committee : List String} {total : Int}

/-- A member of the committee is given an equal share, the first one the rest as well. -/
theorem committeeShares_cases {s : PayoutShare} (hs : s ∈ committeeShares total committee) :
    s.shareType = .committee ∧ committee ≠ [] ∧
      (s.amount = total / committee.length + total % committee.length ∨ s.amount = total / committee.length) := by
  cases committee with
  | nil => simp [committeeShares] at hs
  | cons first rest =>
    simp only [committeeShares, List.mem_cons, List.mem_map] at hs
    obtain rfl | ⟨_, _, rfl⟩ := hs
    · exact ⟨rfl, List.cons_ne_nil _ _, .inl rfl⟩
    · exact ⟨rfl, List.cons_ne_nil _ _, .inr rfl⟩

theorem committeeShares_type {s : PayoutShare} (hs : s ∈ committeeShares total committee) : s.shareType = .committee :=
  (committeeShares_cases hs).1

/-- The shares of the committee add up to what it is given. -/
theorem committeeShares_sum (h : committee ≠ []) : ((committeeShares total committee).map PayoutShare.amount).sum = total := by
  cases committee with
  | nil => exact absurd rfl h
  | cons first rest =>
    simp only [committeeShares, List.map_cons, List.map_map, List.sum_cons, Function.comp_def, List.map_const',
      List.sum_replicate, nsmul_eq_mul, List.length_cons]
    have hdiv := Int.mul_ediv_add_emod total (rest.length + 1)
    push_cast
    linarith

theorem committeeShares_nonneg (h : 0 ≤ total) {s : PayoutShare} (hs : s ∈ committeeShares total committee) :
    0 ≤ s.amount := by
  have hshare : 0 ≤ total / committee.length := Int.ediv_nonneg h (by omega)
  obtain ⟨_, hne, hamount | hamount⟩ := committeeShares_cases hs
  · have hlength : (committee.length : Int) ≠ 0 := by
      exact_mod_cast mt List.length_eq_zero_iff.mp hne
    have hrest := Int.emod_nonneg total hlength
    omega
  · rw [hamount]
    exact hshare

end Committee

section Floats

variable {amount : Int}

theorem challengerAmount_nonneg (h : 0 ≤ amount) : 0 ≤ challengerAmount amount :=
  Double.trunc_nonneg (Double.scale_nonneg h (Double.nearest_nonneg (by norm_num)))

theorem verifierTotal_nonneg (h : 0 ≤ amount) : 0 ≤ verifierTotal amount :=
  Double.trunc_nonneg (Double.scale_nonneg h (Double.nearest_nonneg (by norm_num)))

/-- The roundings stay far below the tenth that is burned. -/
theorem challengerAmount_add_verifierTotal_le (h : 0 ≤ amount) :
    challengerAmount amount + verifierTotal amount ≤ amount := by
  have hn : (0 : ℚ) ≤ amount := by exact_mod_cast h
  have hpart {p : ℚ} (hp : 0 ≤ p) :
      (Double.trunc (Double.scale amount (Double.nearest p)) : ℚ) ≤ amount * (p * (1 + 2 ^ (-53 : ℤ)) ^ 3) := by
    have hnear := Double.nearest_nonneg hp
    have hscale := Double.scale_le h hnear
    have htrunc := Double.trunc_le (Double.scale_nonneg h hnear)
    have hround := mul_le_mul_of_nonneg_left (Double.nearest_le hp) hn
    have hfactor : (0 : ℚ) ≤ (1 + 2 ^ (-53 : ℤ)) ^ 2 := by positivity
    have hstep := mul_le_mul_of_nonneg_right hround hfactor
    calc (Double.trunc (Double.scale amount (Double.nearest p)) : ℚ) ≤ amount * Double.nearest p * (1 + 2 ^ (-53 : ℤ)) ^ 2 :=
          htrunc.trans hscale
      _ ≤ amount * (p * (1 + 2 ^ (-53 : ℤ))) * (1 + 2 ^ (-53 : ℤ)) ^ 2 := hstep
      _ = amount * (p * (1 + 2 ^ (-53 : ℤ)) ^ 3) := by ring
  have hhalf := hpart (p := 1 / 2) (by norm_num)
  have hfifths := hpart (p := 2 / 5) (by norm_num)
  have htenth : (1 / 2 : ℚ) * (1 + 2 ^ (-53 : ℤ)) ^ 3 + 2 / 5 * (1 + 2 ^ (-53 : ℤ)) ^ 3 ≤ 1 := by norm_num
  have hsum : ((challengerAmount amount + verifierTotal amount : ℤ) : ℚ) ≤ amount := by
    push_cast
    calc (challengerAmount amount : ℚ) + verifierTotal amount
        ≤ amount * (1 / 2 * (1 + 2 ^ (-53 : ℤ)) ^ 3) + amount * (2 / 5 * (1 + 2 ^ (-53 : ℤ)) ^ 3) := add_le_add hhalf hfifths
      _ = amount * (1 / 2 * (1 + 2 ^ (-53 : ℤ)) ^ 3 + 2 / 5 * (1 + 2 ^ (-53 : ℤ)) ^ 3) := by ring
      _ ≤ amount * 1 := mul_le_mul_of_nonneg_left htenth hn
      _ = amount := mul_one _
  exact_mod_cast hsum

end Floats

/-- The shares of a bounty: none is negative, those paid out are at most the
bounty, and the committee is among them. -/
theorem calculateShares_ok {amount : Int} {committee : List String} {challenger : Option String} {shares : List PayoutShare}
    (h0 : 0 ≤ amount) (h : calculateShares amount committee challenger = .ok shares) :
    (∀ s ∈ shares, 0 ≤ s.amount) ∧ ((paidShares shares).map PayoutShare.amount).sum ≤ amount ∧
      ∃ s ∈ shares, s.shareType ≠ .burn := by
  unfold calculateShares at h
  split at h
  next => cases h
  next hne =>
    have hpaid (total : Int) : paidShares (committeeShares total committee) = committeeShares total committee := by
      refine List.filter_eq_self.mpr ?_
      intro s hs
      simp [committeeShares_type hs]
    have hmember (total : Int) : ∃ s, s ∈ committeeShares total committee := by
      cases hc : committee with
      | nil => exact absurd hc hne
      | cons first rest => exact ⟨_, List.mem_cons_self⟩
    split at h
    next =>
      cases Except.ok.inj h
      obtain ⟨s, hs⟩ := hmember amount
      refine ⟨fun s hs => committeeShares_nonneg h0 hs, ?_, s, hs, by simp [committeeShares_type hs]⟩
      rw [hpaid, committeeShares_sum hne]
    next c _ =>
      split at h
      next => cases h
      next =>
        have hle := challengerAmount_add_verifierTotal_le h0
        cases Except.ok.inj h
        refine ⟨?_, ?_, ⟨c, challengerAmount amount, .challenger⟩, List.mem_cons_self, by simp⟩
        · intro s hs
          simp only [List.cons_append, List.mem_cons, List.mem_append] at hs
          obtain rfl | hs | hs := hs
          · exact challengerAmount_nonneg h0
          · exact committeeShares_nonneg (verifierTotal_nonneg h0) hs
          · split at hs
            · rw [List.mem_singleton.mp hs]
              show 0 ≤ _ - _
              omega
            · simp at hs
        · have hburn (p : Prop) [Decidable p] (n : Int) : paidShares (if p then [⟨"burn", n, .burn⟩] else []) = [] := by
            split <;> rfl
          have hshares : paidShares (⟨c, challengerAmount amount, .challenger⟩ :: committeeShares (verifierTotal amount) committee ++
              if amount - challengerAmount amount - verifierTotal amount > 0 then
                [⟨"burn", amount - challengerAmount amount - verifierTotal amount, .burn⟩] else []) =
              ⟨c, challengerAmount amount, .challenger⟩ :: committeeShares (verifierTotal amount) committee := by
            have hcommittee := hpaid (verifierTotal amount)
            unfold paidShares at hcommittee hburn ⊢
            rw [List.filter_append, hburn, List.append_nil, List.filter_cons_of_pos (by simp), hcommittee]
          rw [hshares, List.map_cons, List.sum_cons, committeeShares_sum hne]
          exact hle

end PayoutDistributor

end AgentNetwork
