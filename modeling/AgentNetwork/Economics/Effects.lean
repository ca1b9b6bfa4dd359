import AgentNetwork.Economics.Statements

namespace AgentNetwork

open Relational Transactional Transactional.Prog

variable {env : Env} {s s' : Session Db}

theorem recordOperation_returns {u : Unit} {accountId opType : String} {amount timestamp : Int} {m : Metadata} :
    recordOperation accountId opType amount timestamp m env s = (.returns u, s') ↔
      ∃ d, insertOperation (env.uuid4 s.draws) ⟨accountId, opType, amount, timestamp, m⟩ s.db = .ok d ∧
        s' = { s with db := d, draws := s.draws + 1 } := by
  simp [recordOperation]

theorem recordOperation_of_ok {accountId opType : String} {amount timestamp : Int} {m : Metadata} {d : Db}
    (h : insertOperation (env.uuid4 s.draws) ⟨accountId, opType, amount, timestamp, m⟩ s.db = .ok d) :
    recordOperation accountId opType amount timestamp m env s = (.returns (), { s with db := d, draws := s.draws + 1 }) :=
  recordOperation_returns.mpr ⟨d, h, rfl⟩

/-- A credit reaches the account whether or not it existed. -/
theorem creditAccount_books {u : Unit} {a : String} {n : Int} (hl : Linked s.db)
    (h : CreditLedger.creditAccount a n env s = (.returns u, s')) :
    s'.db.books = s.db.books + held a (n, 0, 0) ∧ Linked s'.db ∧ s'.db.escrows = s.db.escrows := by
  simp only [CreditLedger.creditAccount, bind_returns, query_apply, Prod.mk.injEq, Outcome.returns.injEq] at h
  obtain ⟨found, s₁, ⟨hfound, rfl⟩, h⟩ := h
  split at h
  next hc =>
    obtain ⟨d, hd, rfl⟩ := execute_returns.mp h
    exact ⟨updateAccount_books (by simpa [hfound] using hc) hd, updateAccount_linked hl hd, (updateAccount_frame hd).1⟩
  next hc =>
    obtain ⟨d, hd, rfl⟩ := execute_returns.mp h
    obtain ⟨account, _, fresh, hdb⟩ := insertAccount_ok.mp hd
    exact ⟨insertAccount_books hd, insertAccount_linked hl hd, by rw [hdb]⟩

namespace CreditLedger

theorem createAccount_effect {u : Unit} {a : String} {n : Int} {minter : Option String} (hl : Linked s.db)
    (h : createAccount a n minter env s = (.returns u, s')) :
    s'.db.books = s.db.books + Movement.entry (.mint a n) ∧ Linked s'.db ∧ 0 ≤ n ∧
      (0 < n → s.db.totalSupply + n ≤ maxSupply) := by
  simp [createAccount, validateAccountId, recordOperation_returns] at h
  obtain ⟨_, hn, _, _, s₁, ⟨_, hcap, d, hd, hrest⟩, rfl⟩ := h
  have hbooks := insertAccount_books hd
  have hlinked := insertAccount_linked hl hd
  rcases hrest with ⟨hpos, d₁, hd₁, d₂, hd₂, rfl⟩ | ⟨hzero, rfl⟩
  · refine ⟨?_, addSupply_linked (insertOperation_linked hlinked hd₁) hd₂, hn, hcap⟩
    rw [addSupply_books hd₂, insertOperation_books hd₁, hbooks, Operation.posting_single rfl, Movement.entry, booked]
    abel
  · refine ⟨?_, hlinked, hn, hcap⟩
    have hn0 : n = 0 := by omega
    have hentry : Movement.entry (.mint a 0) = 0 := by simp [Movement.entry, booked, held, recorded, minted]
    have hheld : held a (0, 0, 0) = 0 := by simp [held]
    rw [hn0] at hbooks ⊢
    rw [hentry, hbooks, hheld]

theorem transfer_effect {r : String} {f t : String} {n : Int} {allow : Bool} (hl : Linked s.db)
    (h : transfer f t n allow env s = (.returns r, s')) :
    s'.db.books = s.db.books + Movement.entry (.transfer f t n) ∧ Linked s'.db := by
  simp [transfer, validateAccountId, validateAmount, recordOperation_returns] at h
  obtain ⟨_, _, hn, _, s₀, d₁, _, s₁, d₂, d₃, ⟨hb, _, hopen, hd₁, hcredit, hd₂, hd₃, _⟩, rfl⟩ := h
  have hf := contains_of_balance hn hb
  -- the recipient opened outside the transaction starts with nothing
  have hopened : s₀.db.books = s.db.books ∧ Linked s₀.db ∧ s₀.db.accounts.contains f = true := by
    rcases hopen with ⟨_, d, hd, rfl⟩ | ⟨_, rfl⟩
    · have hbooks := insertAccount_books hd
      have hheld : held t (0, 0, 0) = 0 := by simp [held]
      rw [hheld, add_zero] at hbooks
      exact ⟨hbooks, insertAccount_linked hl hd, (insertAccount_keeps hd).1 f hf⟩
    · exact ⟨rfl, hl, hf⟩
  obtain ⟨hbooks₀, hl₀, hf₀⟩ := hopened
  have hbooks₁ := updateAccount_books hf₀ hd₁
  have hl₁ := updateAccount_linked hl₀ hd₁
  obtain ⟨hbooks₂, hl₂, _⟩ := creditAccount_books hl₁ hcredit
  refine ⟨?_, insertOperation_linked (insertOperation_linked hl₂ hd₂) hd₃⟩
  rw [insertOperation_books hd₃, insertOperation_books hd₂, hbooks₂, hbooks₁, hbooks₀, Operation.posting_single rfl,
    Operation.posting_single rfl, Movement.entry, booked, booked]
  abel

theorem escrow_effect {u : Unit} {a key : String} {n : Int} (hl : Linked s.db)
    (h : escrow a n key env s = (.returns u, s')) :
    s'.db.books = s.db.books + Movement.entry (.escrow a n) ∧ Linked s'.db := by
  simp [escrow, validateAccountId, validateAmount, recordOperation_returns] at h
  obtain ⟨_, hn, _, d₁, d₂, d₃, ⟨hb, hd₁, hd₂, hd₃⟩, rfl⟩ := h
  have ha := contains_of_balance hn hb
  have hl₁ := updateAccount_linked hl hd₁
  have ha₁ : d₁.accounts.contains a = true := (updateAccount_contains hd₁ a).trans ha
  refine ⟨?_, insertOperation_linked (insertEscrow_linked hl₁ hn ha₁ hd₂) hd₃⟩
  rw [insertOperation_books hd₃, insertEscrow_books hd₂, updateAccount_books ha hd₁, Operation.posting_single rfl,
    Escrow.outstanding_open rfl, Movement.entry, booked]
  abel

theorem openEscrow_returns {key : Option String} {row : String × Escrow} :
    openEscrow key env s = (.returns row, s') ↔
      key = some row.1 ∧ s.db.escrows.get? row.1 = some row.2 ∧ row.2.released = false ∧ s' = s := by
  obtain ⟨k, e⟩ := row
  cases key with
  | none => simp [openEscrow]
  | some j =>
    cases hg : s.db.escrows.get? j with
    | none =>
      simp only [openEscrow, bind_returns, query_apply, Option.bind_some, hg]
      simp
      intro hj
      simp [← hj, hg]
    | some e' =>
      cases hr : e'.released
      · simp [openEscrow, hg, hr]
        grind
      · simp [openEscrow, hg, hr]
        grind

theorem releaseEscrow_effect {u : Unit} {key : Option String} {t : String} (hl : Linked s.db)
    (h : releaseEscrow key t env s = (.returns u, s')) :
    ∃ k e, key = some k ∧ s.db.escrows.get? k = some e ∧ e.released = false ∧
      s'.db.books = s.db.books + Movement.entry (.release e.accountId t e.amount) ∧ Linked s'.db := by
  simp [releaseEscrow, validateAccountId, recordOperation_returns, openEscrow_returns] at h
  obtain ⟨_, _, k, e, d₁, _, s₁, d₂, d₃, ⟨⟨rfl, hg, hr⟩, hd₁, hcredit, hd₂, hd₃⟩, rfl⟩ := h
  refine ⟨k, e, rfl, hg, hr, ?_⟩
  obtain ⟨_, ha⟩ := hl.escrows hg
  have hbooks₁ := updateAccount_books ha hd₁
  have hl₁ := updateAccount_linked hl hd₁
  obtain ⟨hbooks₂, hl₂, hescrows⟩ := creditAccount_books hl₁ hcredit
  have hg₁ : s₁.db.escrows.get? k = some e := by
    rw [hescrows, (updateAccount_frame hd₁).1]
    exact hg
  refine ⟨?_, insertOperation_linked (markReleased_linked hl₂ hd₂) hd₃⟩
  rw [insertOperation_books hd₃, markReleased_books hg₁ hr hd₂, hbooks₂, hbooks₁, Operation.posting_pair rfl,
    Movement.entry, booked, booked]
  abel

theorem cancelEscrow_effect {u : Unit} {key : Option String} (hl : Linked s.db)
    (h : cancelEscrow key env s = (.returns u, s')) :
    ∃ k e, key = some k ∧ s.db.escrows.get? k = some e ∧ e.released = false ∧
      s'.db.books = s.db.books + Movement.entry (.cancel e.accountId e.amount) ∧ Linked s'.db := by
  simp [cancelEscrow, recordOperation_returns, openEscrow_returns] at h
  obtain ⟨_, k, e, d₁, d₂, d₃, ⟨⟨rfl, hg, hr⟩, hd₁, hd₂, hd₃⟩, rfl⟩ := h
  refine ⟨k, e, rfl, hg, hr, ?_⟩
  obtain ⟨_, ha⟩ := hl.escrows hg
  have hg₁ : d₁.escrows.get? k = some e := by
    rw [(updateAccount_frame hd₁).1]
    exact hg
  refine ⟨?_, insertOperation_linked (markReleased_linked (updateAccount_linked hl hd₁) hd₂) hd₃⟩
  rw [insertOperation_books hd₃, markReleased_books hg₁ hr hd₂, updateAccount_books ha hd₁, Operation.posting_single rfl,
    Movement.entry, booked]
  simp only [neg_neg]
  abel

end CreditLedger

namespace StakeManager

theorem stake_effect {u : Unit} {a : String} {n : Int} (hl : Linked s.db) (h : stake a n env s = (.returns u, s')) :
    0 < n ∧ n ≤ CreditLedger.getBalance a s.db ∧ s'.db.books = s.db.books + Movement.entry (.stake a n) ∧ Linked s'.db := by
  simp [stake, recordOperation_returns] at h
  obtain ⟨hn, _, d₁, d₂, ⟨hb, hd₁, hd₂⟩, rfl⟩ := h
  have ha := contains_of_balance hn hb
  refine ⟨hn, hb, ?_, insertOperation_linked (updateAccount_linked hl hd₁) hd₂⟩
  rw [insertOperation_books hd₂, updateAccount_books ha hd₁, Operation.posting_single rfl, Movement.entry, booked]
  abel

theorem unstake_effect {period : Int} {a r : String} {n : Int} (hl : Linked s.db)
    (h : unstake period a n env s = (.returns r, s')) :
    0 < n ∧ n ≤ getStakedAmount a s.db ∧
      s'.db.books = s.db.books + Movement.entry (.unstake a n) ∧ Linked s'.db := by
  simp [unstake, recordOperation_returns] at h
  obtain ⟨hn, _, d₁, d₂, d₃, ⟨hb, ⟨hd₁, hd₂, hd₃⟩, _⟩, rfl⟩ := h
  have ha := contains_of_stake hn hb
  have hl₁ := updateAccount_linked hl hd₁
  have ha₁ : d₁.accounts.contains a = true := (updateAccount_contains hd₁ a).trans ha
  refine ⟨hn, hb, ?_, insertOperation_linked (insertUnbonding_linked hl₁ ha₁ hd₂) hd₃⟩
  rw [insertOperation_books hd₃, insertUnbonding_books hd₂, updateAccount_books ha hd₁, Operation.posting_single rfl,
    Movement.entry, booked]
  abel

/-- The records of one completion post their sum. -/
theorem completeEach_effect {u : Unit} {a : String} {currentTime : Int} {records : List (String × Int)}
    (hl : Linked s.db)
    (h : forEach records (fun record => do
      execute (markCompleted record.1)
      recordOperation a "COMPLETE_UNBONDING" record.2 currentTime (.completeUnbonding record.1)) env s =
        (.returns u, s')) :
    s'.db.books = s.db.books + recorded a ((records.map Prod.snd).sum, 0, -(records.map Prod.snd).sum) ∧
      Linked s'.db := by
  induction records generalizing s with
  | nil =>
    obtain ⟨_, rfl⟩ := Prod.mk.inj h
    refine ⟨?_, hl⟩
    have hzero : ((([] : List (String × Int)).map Prod.snd).sum, (0 : ℤ),
        -((([] : List (String × Int)).map Prod.snd).sum)) = (0 : Holdings) := by simp
    rw [hzero, recorded_zero, add_zero]
  | cons record rest ih =>
    rw [forEach_cons] at h
    obtain ⟨_, s₁, hfirst, hrest⟩ := bind_returns.mp h
    simp [recordOperation_returns] at hfirst
    obtain ⟨d₁, hd₁, d₂, hd₂, rfl⟩ := hfirst
    have hl₂ := insertOperation_linked (markCompleted_linked hl hd₁) hd₂
    obtain ⟨hbooks, hlinked⟩ := ih hl₂ hrest
    refine ⟨?_, hlinked⟩
    have hsum : (((record :: rest).map Prod.snd).sum, (0 : ℤ), -((record :: rest).map Prod.snd).sum) =
        (record.2, 0, -record.2) + ((rest.map Prod.snd).sum, 0, -(rest.map Prod.snd).sum) := by
      simp only [List.map_cons, List.sum_cons, Prod.mk_add_mk, add_zero, neg_add]
    rw [hbooks, insertOperation_books hd₂, markCompleted_books hd₁, hsum, recorded_add, Operation.posting_single rfl]
    abel

theorem eligibleRecords_contains {a : String} {currentTime : Int} {db : Db} (hl : Linked db)
    (h : eligibleRecords a currentTime db ≠ []) : db.accounts.contains a = true := by
  obtain ⟨record, hrecord⟩ := List.exists_mem_of_ne_nil _ h
  simp only [eligibleRecords, List.mem_map, List.mem_filter, Bool.and_eq_true, decide_eq_true_eq] at hrecord
  obtain ⟨⟨key, r⟩, ⟨hm, ⟨ha, _⟩, _⟩, _⟩ := hrecord
  have hg : db.unbonding.get? key = some r := Table.get?_eq_some_iff.mpr hm
  have hc := hl.unbonding hg
  rwa [ha] at hc

theorem completeUnbonding_effect {a : String} {n : Int} (hl : Linked s.db)
    (h : completeUnbonding a env s = (.returns n, s')) :
    s'.db.books = s.db.books + Movement.entry (.completeUnbonding a n) ∧ Linked s'.db := by
  simp only [completeUnbonding, withLock_returns, bind_returns, timeNs_apply, query_apply, Prod.mk.injEq,
    Outcome.returns.injEq] at h
  obtain ⟨_, s₁, ⟨currentTime, s₂, ⟨rfl, rfl⟩, records, s₃, ⟨hrecords, rfl⟩, h⟩, rfl⟩ := h
  split at h
  next hnone =>
    obtain ⟨hn, rfl⟩ := Prod.mk.inj h
    cases Outcome.returns.inj hn
    refine ⟨?_, hl⟩
    have hzero : Movement.entry (.completeUnbonding a 0) = 0 := by simp [Movement.entry, booked, held, recorded]
    rw [hzero, add_zero]
  next hsome =>
    simp only [bind_returns, withConn_returns, execute_returns, pure_apply, Prod.mk.injEq, Outcome.returns.injEq] at h
    obtain ⟨_, _, ⟨s₄, ⟨_, _, ⟨d, hd, rfl⟩, heach⟩, rfl⟩, rfl, rfl⟩ := h
    have hne : eligibleRecords a (env.timeNs s.ticks) s.db ≠ [] := by
      rw [hrecords]
      simpa using hsome
    have ha := eligibleRecords_contains hl hne
    obtain ⟨hbooks, hlinked⟩ := completeEach_effect (updateAccount_linked hl hd) heach
    refine ⟨?_, hlinked⟩
    have hpaid := updateAccount_books ha hd
    simp only [hbooks, hpaid, Movement.entry, booked]
    abel

end StakeManager

namespace SlashingRules

/-- What a slash takes: at most the stake, and nothing for an amount that is not positive. -/
def taken (event : SlashEvent) (db : Db) : Int :=
  max 0 (min (StakeManager.getStakedAmount event.accountId db) event.amount)

theorem executeSlash_effect {u : Unit} {event : SlashEvent} (h : executeSlash event env s = (.returns u, s')) :
    s'.db.books = s.db.books + Movement.entry (.slash event.accountId (taken event s.db)) ∧
      (Linked s.db → Linked s'.db) ∧ ∀ j, s'.db.accounts.contains j = s.db.accounts.contains j := by
  simp only [executeSlash, withLock_returns, bind_returns, query_apply, withConn_returns, runIf_returns,
    recordOperation_returns, execute_returns, Prod.mk.injEq, Outcome.returns.injEq] at h
  obtain ⟨_, s₁, ⟨staked, s₂, ⟨rfl, rfl⟩, s₃, ⟨_, s₄, hslash, d₃, hd₃, rfl⟩, rfl⟩, rfl⟩ := h
  obtain ⟨hbooks₃, hlinked₃, haccounts₃⟩ := insertSlashEvent_frame hd₃
  rcases hslash with ⟨hpos, _, _, ⟨d₁, hd₁, rfl⟩, d₂, hd₂, rfl⟩ | ⟨hnone, rfl⟩
  · have htaken : taken event s.db = min (StakeManager.getStakedAmount event.accountId s.db) event.amount :=
      max_eq_right (le_of_lt hpos)
    have ha := contains_of_stake hpos (min_le_left _ _)
    refine ⟨?_, fun hl => hlinked₃ (insertOperation_linked (updateAccount_linked hl hd₁) hd₂), ?_⟩
    · rw [hbooks₃, insertOperation_books hd₂, updateAccount_books ha hd₁, htaken, Operation.posting_single rfl,
        Movement.entry, booked]
      abel
    · intro j
      rw [haccounts₃, insertOperation_accounts hd₂]
      exact updateAccount_contains hd₁ j
  · have htaken : taken event s.db = 0 := max_eq_left (not_lt.mp hnone)
    have hzero : Movement.entry (.slash event.accountId 0) = 0 := by simp [Movement.entry, booked, held, recorded]
    refine ⟨?_, hlinked₃, fun j => by rw [haccounts₃]⟩
    rw [hbooks₃, htaken, hzero, add_zero]

/-- A reward reaches the account only if it exists; it is recorded either way. -/
theorem payReward_effect {u : Unit} {reason evidence a : String} {timestamp n : Int}
    (h : payReward reason evidence timestamp (a, n) env s = (.returns u, s')) :
    s'.db.books = s.db.books +
        Movement.entry (if s.db.accounts.contains a then .reward a n else .lostReward a n) ∧
      (Linked s.db → Linked s'.db) ∧ ∀ j, s'.db.accounts.contains j = s.db.accounts.contains j := by
  simp only [payReward, bind_returns, execute_returns, recordOperation_returns] at h
  obtain ⟨_, _, ⟨d₁, hd₁, rfl⟩, d₂, hd₂, rfl⟩ := h
  refine ⟨?_, fun hl => insertOperation_linked (updateAccount_linked hl hd₁) hd₂, ?_⟩
  · rw [insertOperation_books hd₂, Operation.posting_single rfl]
    cases hc : s.db.accounts.contains a with
    | true =>
      rw [updateAccount_books hc hd₁]
      simp only [if_true, Movement.entry, booked]
      abel
    | false =>
      rw [updateAccount_missing hc hd₁]
      rfl
  · intro j
    rw [insertOperation_accounts hd₂]
    exact updateAccount_contains hd₁ j

end SlashingRules

end AgentNetwork
