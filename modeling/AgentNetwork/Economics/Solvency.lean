import AgentNetwork.Economics.Conservation
import AgentNetwork.Economics.Locks
import AgentNetwork.Economics.Payments

namespace AgentNetwork

open Relational Transactional Transactional.Prog

/-- What an account has locked. -/
def Db.lockedOf (a : String) (db : Db) : ℤ := (db.holdings a).2.1

/-- What an account has locked beyond its open escrows. -/
def Db.spare (a : String) (db : Db) : ℤ := db.lockedOf a - db.openEscrows a

/-- The locked funds of every account cover its open escrows. -/
def Solvent (db : Db) : Prop := ∀ a, db.openEscrows a ≤ db.lockedOf a

/-- The call takes no more stake than what the open escrows leave; an unstake of
more than everything locked is refused anyway. -/
def Call.LeavesEscrows (db : Db) : Call → Prop
  | .unstake a n => StakeManager.getStakedAmount a db < n ∨ n ≤ db.spare a
  | .executeSlash event => SlashingRules.taken event db ≤ db.spare event.accountId
  | _ => True

theorem getStakedAmount_eq (a : String) (db : Db) : StakeManager.getStakedAmount a db = db.lockedOf a := by
  unfold StakeManager.getStakedAmount CreditLedger.getAccount Db.lockedOf Db.holdings
  cases db.accounts.get? a <;> rfl

noncomputable def Books.spareAt (a : String) : Books →+ ℤ :=
  ((AddMonoidHom.fst ℤ ℤ).comp ((AddMonoidHom.snd ℤ (ℤ × ℤ)).comp (Books.heldAt a))) - Books.escrowedAt a

theorem spareAt_apply (a : String) (b : Books) : Books.spareAt a b = (Books.heldAt a b).2.1 - Books.escrowedAt a b := rfl

theorem spareAt_books (a : String) (db : Db) : Books.spareAt a db.books = db.spare a := by
  rw [spareAt_apply, heldAt_books, escrowedAt_books]
  rfl

theorem spareAt_booked (a b : String) (h : Holdings) : Books.spareAt a (booked b h) = if b = a then h.2.1 else 0 := by
  rw [spareAt_apply, booked, map_add, map_add]
  by_cases hb : b = a <;> simp [hb]

theorem spareAt_escrowed (a b : String) (n : ℤ) : Books.spareAt a (escrowed b n) = if b = a then -n else 0 := by
  rw [spareAt_apply]
  by_cases hb : b = a <;> simp [hb]

theorem spareAt_minted (a : String) (n : ℤ) : Books.spareAt a (minted n) = 0 := by
  simp [spareAt_apply]

/-- Only an unstake and a slash lower what is locked beyond the escrows. -/
theorem Posts.solvent {db db' : Db} {c : Call} {ms : List Movement} (h : Posts db c ms) (hs : Solvent db)
    (hleaves : c.LeavesEscrows db) (hb : db'.books = db.books + (ms.map Movement.entry).sum) : Solvent db' := by
  intro a
  have hspare : db'.spare a = db.spare a + Books.spareAt a (ms.map Movement.entry).sum := by
    rw [← spareAt_books, hb, map_add, spareAt_books]
  have hbefore : 0 ≤ db.spare a := sub_nonneg.mpr (hs a)
  suffices hafter : 0 ≤ db'.spare a from sub_nonneg.mp hafter
  rw [hspare]
  cases h with
  | unstake hn hstaked =>
    have hroom := hleaves.resolve_left (not_lt.mpr hstaked)
    simp only [List.map_cons, List.map_nil, List.sum_cons, List.sum_nil, add_zero, Movement.entry, spareAt_booked]
    split
    next ha =>
      subst ha
      omega
    next => omega
  | @slash event =>
    have hroom : SlashingRules.taken event db ≤ db.spare event.accountId := hleaves
    simp only [List.map_cons, List.map_nil, List.sum_cons, List.sum_nil, add_zero, Movement.entry, spareAt_booked]
    split
    next ha =>
      rw [← ha] at hbefore ⊢
      omega
    next => omega
  | nothing => simpa using hbefore
  | stake hn =>
    simp only [List.map_cons, List.map_nil, List.sum_cons, List.sum_nil, add_zero, Movement.entry, spareAt_booked]
    split_ifs <;> omega
  | _ =>
    simp only [List.map_cons, List.map_nil, List.sum_cons, List.sum_nil, add_zero, Movement.entry, map_add,
      spareAt_booked, spareAt_escrowed, spareAt_minted]
    split_ifs <;> omega

section Closing

variable {env : Env} {s : Session Db} {key : String} {e : Escrow} {account : Account}

/-- An open escrow is part of what its account has in escrows. -/
theorem amount_le_openEscrows {db : Db} (hl : Linked db) (hg : db.escrows.get? key = some e) (hr : e.released = false) :
    e.amount ≤ db.openEscrows e.accountId := by
  have hterms : ∀ k r, db.escrows.get? k = some r →
      0 ≤ if r.accountId = e.accountId ∧ r.released = false then r.amount else 0 := by
    intro k r hget
    obtain ⟨hpos, _⟩ := hl.escrows hget
    split
    · exact le_of_lt hpos
    · exact le_refl 0
  have hpart := Table.le_total hterms hg
  rw [if_pos ⟨rfl, hr⟩] at hpart
  exact hpart

theorem cancelEscrow_succeeds (hlock : s.held = false ∨ env.reentrant = true) (hg : s.db.escrows.get? key = some e)
    (hr : e.released = false) (hpos : 0 < e.amount) (ha : s.db.accounts.get? e.accountId = some account)
    (hcover : e.amount ≤ account.locked) (hfresh : s.db.operations.get? (env.uuid4 s.draws) = none) :
    ∃ s', CreditLedger.cancelEscrow (some key) env s = (.returns (), s') := by
  have hb := account.balance_nonneg
  have hu := account.unbonding_nonneg
  obtain ⟨d₁, hd₁⟩ := updateAccount_succeeds (b := e.amount) (l := -e.amount) (u := 0) ha (by omega) (by omega) (by omega)
  obtain ⟨_, _, _, hoperations₁⟩ := updateAccount_frame hd₁
  let d₂ : Db := { d₁ with escrows := d₁.escrows.modify key fun e' => { e' with released := true, releasedTo := some e.accountId } }
  have hfresh₂ : d₂.operations.get? (env.uuid4 s.draws) = none := hoperations₁ ▸ hfresh
  obtain ⟨d₃, hd₃⟩ := insertOperation_succeeds
    ⟨e.accountId, OpType.escrow.value, -e.amount, env.timeNs s.ticks, .cancel key⟩ hfresh₂
  refine ⟨_, withLock_returns.mpr ⟨hlock, _, bind_returns.mpr ⟨(key, e), _, CreditLedger.openEscrow_open hg hr,
    withConn_returns.mpr ⟨_, bind_returns.mpr ⟨(), _, execute_returns.mpr ⟨d₁, hd₁, rfl⟩,
      bind_returns.mpr ⟨(), _, execute_returns.mpr ⟨_, rfl, rfl⟩, bind_returns.mpr ⟨_, _, timeNs_apply,
        recordOperation_returns.mpr ⟨d₃, hd₃, rfl⟩⟩⟩⟩, rfl⟩⟩, rfl⟩⟩

/-- The account row behind an open escrow of a solvent ledger. -/
theorem covering_account {db : Db} (hl : Linked db) (hs : Solvent db) (hg : db.escrows.get? key = some e)
    (hr : e.released = false) :
    ∃ account, db.accounts.get? e.accountId = some account ∧ 0 < e.amount ∧ e.amount ≤ account.locked := by
  obtain ⟨hpos, hc⟩ := hl.escrows hg
  obtain ⟨account, ha⟩ := Table.contains_eq_true_iff.mp hc
  have hcover := (amount_le_openEscrows hl hg hr).trans (hs e.accountId)
  have hlocked : db.lockedOf e.accountId = account.locked := by simp [Db.lockedOf, Db.holdings, ha]
  exact ⟨account, ha, hpos, hlocked ▸ hcover⟩

end Closing

theorem settled_solvent {config : Config} {env : Env} {s : Session Db}
    (h : Run config env (fun s c => c.isTransaction ∧ c.LeavesEscrows s.db) s) :
    Settled (fun db => Linked db ∧ Solvent db) s := by
  have hempty : Solvent Db.empty := fun a => le_refl 0
  refine h.settled ⟨rfl, linked_empty, hempty⟩ ?_
  intro s c out s' hs hc hrun hout
  refine (Call.atomic_of_isTransaction config hc.1).settles hs hrun hout ?_
  intro u hu
  obtain ⟨_, hl, hsolvent⟩ := hs
  obtain ⟨hl', ms, hposts, hbooks⟩ := Call.posts hc.1 hl hu
  exact ⟨hl', hposts.solvent hsolvent hc.2 hbooks⟩

theorem lockSafe_of_isTransaction (config : Config) {c : Call} (h : c.isTransaction) : LockSafe (c.run config) := by
  apply Call.lockSafe_of_component
  · rintro hc
    rcases h with h | h | ⟨event, rfl⟩
    · cases hc.symm.trans h
    · cases hc.symm.trans h
    · cases hc
  · rintro hc
    rcases h with h | h | ⟨event, rfl⟩
    · cases hc.symm.trans h
    · cases hc.symm.trans h
    · cases hc

/-- While unstakes and slashes leave the open escrows alone, every account covers
its open escrows, and each can be released or returned. -/
theorem escrow_solvency (config : Config) (env : Env) {s : Session Db}
    (h : Run config env (fun s c => c.isTransaction ∧ c.LeavesEscrows s.db) s) :
    (∀ a, s.db.openEscrows a ≤ s.db.lockedOf a) ∧
      ∀ key e, s.db.escrows.get? key = some e → e.released = false →
        s.db.operations.get? (env.uuid4 s.draws) = none →
          (∀ t, isBlank t = false → ∃ s', CreditLedger.releaseEscrow (some key) t env s = (.returns (), s')) ∧
            ∃ s', CreditLedger.cancelEscrow (some key) env s = (.returns (), s') := by
  obtain ⟨_, hl, hsolvent⟩ := settled_solvent h
  have hfree : s.held = false := h.free rfl fun hc => lockSafe_of_isTransaction config hc.1
  refine ⟨hsolvent, ?_⟩
  intro key e hg hr hfresh
  obtain ⟨account, ha, hpos, hcover⟩ := covering_account hl hsolvent hg hr
  constructor
  · intro t ht
    obtain ⟨d, hrelease, _⟩ := CreditLedger.releaseEscrow_succeeds (Or.inl hfree) ht hg hr hpos ha hcover hfresh
    exact ⟨_, hrelease⟩
  · exact cancelEscrow_succeeds (Or.inl hfree) hg hr hpos ha hcover hfresh

/-- Sixty of the hundred locked are in an escrow; the other forty can be unstaked. -/
theorem escrow_solvency_partial_unstake :
    let s := runAll (countingEnv false) (Call.run sampleConfig)
      [.createAccount "alice" 100 none, .escrow "alice" 60 "job", .stake "alice" 40, .unstake "alice" 40] Session.empty
    (∀ a, s.db.openEscrows a ≤ s.db.lockedOf a) ∧ s.db.openEscrows "alice" = 60 :=
  ⟨(escrow_solvency sampleConfig (countingEnv false)
      (Reaches.start.runAll (by exact ⟨⟨Or.inl rfl, trivial⟩, by decide, ⟨Or.inl rfl, trivial⟩, by decide,
        ⟨Or.inr (Or.inl rfl), trivial⟩, by decide,
        ⟨Or.inr (Or.inl rfl), show _ < _ ∨ _ ≤ _ from Or.inr (by decide)⟩, by decide, trivial⟩))).1, by decide⟩

/-- An owner unstakes the whole escrow: nothing locked is left to release. -/
theorem unstake_takes_escrow :
    let s := runAll (countingEnv false) (Call.run sampleConfig)
      [.createAccount "alice" 100 none, .escrow "alice" 100 "job", .unstake "alice" 100] Session.empty
    Run sampleConfig (countingEnv false) (fun _ c => c.isTransaction) s ∧
      ¬s.db.openEscrows "alice" ≤ s.db.lockedOf "alice" ∧
      (CreditLedger.cancelEscrow (some "job") (countingEnv false) s).1 ≠ .returns () :=
  ⟨Reaches.start.runAll (by exact ⟨Or.inl rfl, by decide, Or.inl rfl, by decide, Or.inr (Or.inl rfl), by decide, trivial⟩),
    by decide, by decide⟩

end AgentNetwork
