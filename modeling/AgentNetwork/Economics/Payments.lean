import AgentNetwork.Economics.Effects

namespace AgentNetwork

open Relational Transactional Transactional.Prog

/-- The names that are still to be drawn are in no row of `operations`. -/
def Fresh (env : Env) (draws : Nat) (db : Db) : Prop := ∀ n, draws ≤ n → db.operations.get? (env.uuid4 n) = none

/-- Only `accounts` and `operations` differ. -/
def KeepsRest (db db' : Db) : Prop := ∃ accounts operations, db' = { db with accounts := accounts, operations := operations }

theorem KeepsRest.trans {db db' db'' : Db} (h : KeepsRest db db') (h' : KeepsRest db' db'') : KeepsRest db db'' := by
  obtain ⟨_, _, rfl⟩ := h
  obtain ⟨accounts, operations, rfl⟩ := h'
  exact ⟨accounts, operations, rfl⟩

/-- One account gained `n`, another, if any, is new and the rest is the same. -/
structure Credited (a : String) (n : Int) (db db' : Db) : Prop where
  balance : ∀ j, CreditLedger.getBalance j db' = CreditLedger.getBalance j db + if j = a then n else 0
  contains : ∀ j, db'.accounts.contains j = true ↔ db.accounts.contains j = true ∨ j = a
  rest : ∃ accounts, db' = { db with accounts := accounts }

/-- `n` credits went from one account to the other, both of which exist. -/
structure Paid (f t : String) (n : Int) (db db' : Db) : Prop where
  balance : ∀ j, CreditLedger.getBalance j db' =
    CreditLedger.getBalance j db + (if j = t then n else 0) - if j = f then n else 0
  contains : ∀ j, db'.accounts.contains j = db.accounts.contains j
  rest : KeepsRest db db'

theorem Credited.keepsRest {a : String} {n : Int} {db db' : Db} (h : Credited a n db db') : KeepsRest db db' := by
  obtain ⟨accounts, rfl⟩ := h.rest
  exact ⟨accounts, db.operations, rfl⟩

theorem Credited.operations {a : String} {n : Int} {db db' : Db} (h : Credited a n db db') :
    db'.operations = db.operations := by
  obtain ⟨accounts, rfl⟩ := h.rest
  rfl

theorem getBalance_of_get? {db : Db} {a : String} {account : Account} (h : db.accounts.get? a = some account) :
    CreditLedger.getBalance a db = account.balance := by
  rw [CreditLedger.getBalance, h]

theorem getBalance_of_missing {db : Db} {a : String} (h : db.accounts.get? a = none) :
    CreditLedger.getBalance a db = 0 := by
  rw [CreditLedger.getBalance, h]

section Balances

variable {db db' : Db} {a : String}

theorem insertAccount_credited {n : Int} (h : insertAccount a n db = .ok db') : Credited a n db db' := by
  obtain ⟨account, ⟨hb, _, _⟩, fresh, rfl⟩ := insertAccount_ok.mp h
  refine ⟨?_, ?_, ⟨_, rfl⟩⟩
  · intro j
    by_cases hj : j = a
    · subst hj
      have hnew : (db.accounts.insert j account fresh).get? j = some account := by simp
      rw [CreditLedger.getBalance, hnew, getBalance_of_missing fresh, if_pos rfl, ← hb]
      simp
    · simp [CreditLedger.getBalance, hj]
  · intro j
    rw [Table.contains_insert]
    simp [or_comm]

theorem updateAccount_credited {b l u : Int} (hc : db.accounts.contains a = true)
    (h : updateAccount a b l u db = .ok db') : Credited a b db db' := by
  obtain ⟨_, hg⟩ := Table.contains_eq_true_iff.mp hc
  have hcontains := updateAccount_contains h
  obtain ⟨hnone, _⟩ | ⟨account, account', hg, hb, _, _, rfl⟩ := updateAccount_ok.mp h
  · simp [hnone] at hg
  · refine ⟨?_, ?_, ⟨_, rfl⟩⟩
    · intro j
      by_cases hj : j = a
      · subst hj
        have hnew : (db.accounts.set j account').get? j = some account' := by simp [Table.get?_set, hg]
        rw [CreditLedger.getBalance, hnew, getBalance_of_get? hg, if_pos rfl]
        exact hb
      · simp [CreditLedger.getBalance, Table.get?_set, hj]
    · intro j
      rw [hcontains]
      constructor
      · exact Or.inl
      · rintro (hj | rfl)
        · exact hj
        · exact hc

theorem creditAccount_credited (env : Env) (s : Session Db) (a : String) {n : Int} (hn : 0 ≤ n) :
    ∃ d, CreditLedger.creditAccount a n env s = (.returns (), { s with db := d }) ∧ Credited a n s.db d := by
  rw [CreditLedger.creditAccount, bind_of_returns (query_apply _)]
  split
  next hc =>
    obtain ⟨account, hg⟩ := Table.contains_eq_true_iff.mp hc
    have hb := account.balance_nonneg
    have hl := account.locked_nonneg
    have hu := account.unbonding_nonneg
    obtain ⟨d, hd⟩ := updateAccount_succeeds (b := n) (l := 0) (u := 0) hg (by omega) (by omega) (by omega)
    exact ⟨d, execute_of_ok hd, updateAccount_credited hc hd⟩
  next hc =>
    have hg := Table.contains_eq_false_iff.mp (by simpa using hc)
    have hd := insertAccount_ok.mpr ⟨⟨n, 0, 0, hn, le_refl 0, le_refl 0⟩, ⟨rfl, rfl, rfl⟩, hg, rfl⟩
    exact ⟨_, execute_of_ok hd, insertAccount_credited hd⟩

end Balances

theorem recordOperation_fresh {env : Env} {s : Session Db} (hnew : s.db.operations.get? (env.uuid4 s.draws) = none)
    (accountId opType : String) (amount timestamp : Int) (m : Metadata) :
    recordOperation accountId opType amount timestamp m env s =
      (.returns (), { s with
        db := { s.db with operations := s.db.operations.insert (env.uuid4 s.draws) ⟨accountId, opType, amount, timestamp, m⟩ hnew }
        draws := s.draws + 1 }) :=
  recordOperation_of_ok (insertRow_ok.mpr ⟨hnew, rfl⟩)

theorem Fresh.insert {env : Env} {n : Nat} {db : Db} (h : Fresh env n db) (hinj : Function.Injective env.uuid4)
    (op : Operation) (hnew : db.operations.get? (env.uuid4 n) = none) :
    Fresh env (n + 1) { db with operations := db.operations.insert (env.uuid4 n) op hnew } := by
  intro m hm
  have hne : env.uuid4 m ≠ env.uuid4 n := by
    intro he
    have heq := hinj he
    omega
  simp only [Table.get?_insert, if_neg hne]
  exact h m (by omega)

theorem Fresh.mono {env : Env} {n m : Nat} {db : Db} (h : Fresh env n db) (hle : n ≤ m) : Fresh env m db :=
  fun k hk => h k (hle.trans hk)

theorem Fresh.of_operations {env : Env} {n : Nat} {db db' : Db} (h : Fresh env n db)
    (heq : db'.operations = db.operations) : Fresh env n db' := by
  intro k hk
  rw [heq]
  exact h k hk

namespace CreditLedger

variable {env : Env} {s : Session Db} {f t : String} {n : Int}

/-- What `transfer` checks before it writes. -/
structure Transferable (f t : String) (n : Int) (db : Db) : Prop where
  fromId : isBlank f = false
  toId : isBlank t = false
  amount : 0 < n
  balance : n ≤ getBalance f db
  recipient : db.accounts.contains t = true

theorem transfer_succeeds (hlock : s.held = false ∨ env.reentrant = true) (hinj : Function.Injective env.uuid4)
    (hfresh : Fresh env s.draws s.db) (h : Transferable f t n s.db) :
    ∃ opId d, transfer f t n false env s = (.returns opId, ⟨d, d, s.held, s.draws + 3, s.ticks + 1⟩) ∧
      Paid f t n s.db d ∧ Fresh env (s.draws + 3) d := by
  obtain ⟨hf, ht, hn, hbal, hc⟩ := h
  have hfc := contains_of_balance hn hbal
  obtain ⟨account, hg⟩ := Table.contains_eq_true_iff.mp hfc
  have hl := account.locked_nonneg
  have hu := account.unbonding_nonneg
  rw [getBalance_of_get? hg] at hbal
  obtain ⟨d₁, hd₁⟩ := updateAccount_succeeds (b := -n) (l := 0) (u := 0) hg (by omega) (by omega) (by omega)
  have hcredited₁ := updateAccount_credited hfc hd₁
  obtain ⟨d₂, hd₂, hcredited₂⟩ := creditAccount_credited env { s with db := d₁, held := true } t (le_of_lt hn)
  have hops : d₂.operations = s.db.operations := hcredited₂.operations.trans hcredited₁.operations
  let s₂ : Session Db := ⟨d₂, s.committed, true, s.draws + 1, s.ticks + 1⟩
  have hfresh₂ : Fresh env s₂.draws s₂.db := (hfresh.mono (Nat.le_succ _)).of_operations hops
  have hrecord₃ := recordOperation_fresh (hfresh₂ s₂.draws (le_refl _)) f OpType.transfer.value (-n)
    (env.timeNs s.ticks) (.transferTo t (env.uuid4 s.draws))
  have hfresh₃ := hfresh₂.insert hinj
    ⟨f, OpType.transfer.value, -n, env.timeNs s.ticks, .transferTo t (env.uuid4 s.draws)⟩ (hfresh₂ s₂.draws (le_refl _))
  have hrecord₄ := recordOperation_fresh (s := ⟨_, s.committed, true, s.draws + 2, s.ticks + 1⟩)
    (hfresh₃ (s.draws + 2) (le_refl _)) t OpType.transfer.value n (env.timeNs s.ticks) (.transferFrom f (env.uuid4 s.draws))
  have hfresh₄ := hfresh₃.insert hinj
    ⟨t, OpType.transfer.value, n, env.timeNs s.ticks, .transferFrom f (env.uuid4 s.draws)⟩ (hfresh₃ (s.draws + 2) (le_refl _))
  refine ⟨env.uuid4 s.draws, _, ?_, ⟨?_, ?_, ?_⟩, hfresh₄⟩
  · refine bind_returns.mpr ⟨(), s, raiseIf_returns.mpr ⟨by simpa using hf, rfl⟩,
      bind_returns.mpr ⟨(), s, raiseIf_returns.mpr ⟨by simpa using ht, rfl⟩,
        bind_returns.mpr ⟨(), s, raiseIf_returns.mpr ⟨by omega, rfl⟩, withLock_returns.mpr ⟨hlock,
          ⟨_, _, true, s.draws + 3, s.ticks + 1⟩, ?_, rfl⟩⟩⟩⟩
    rw [bind_of_returns (query_apply _), getBalance_of_get? hg, bind_of_returns (raiseIf_of_not (by omega)),
      bind_of_returns (query_apply _), hc, bind_of_returns (raiseIf_of_not (by simp))]
    have hopened : runIf ((true : Bool) = false) (execute (insertAccount t 0)) env { s with held := true } =
        (.returns (), { s with held := true }) := rfl
    rw [bind_of_returns hopened]
    refine withConn_returns.mpr ⟨⟨_, s.committed, true, s.draws + 3, s.ticks + 1⟩, ?_, rfl⟩
    rw [bind_of_returns (execute_of_ok (s := { s with held := true }) hd₁), bind_of_returns hd₂,
      bind_of_returns uuid4_apply, bind_of_returns timeNs_apply, bind_of_returns hrecord₃, bind_of_returns hrecord₄]
    rfl
  · intro j
    have hj₁ := hcredited₁.balance j
    have hj₂ := hcredited₂.balance j
    show getBalance j d₂ = _
    rw [hj₂]
    show getBalance j d₁ + _ = _
    rw [hj₁]
    split_ifs <;> omega
  · intro j
    have hj : d₂.accounts.contains j = true ↔ s.db.accounts.contains j = true := by
      rw [hcredited₂.contains]
      show d₁.accounts.contains j = true ∨ j = t ↔ _
      rw [hcredited₁.contains]
      constructor
      · rintro ((hj | rfl) | rfl)
        · exact hj
        · exact hfc
        · exact hc
      · exact fun hj => Or.inl (Or.inl hj)
    exact Bool.eq_iff_iff.mpr hj
  · exact (hcredited₁.keepsRest.trans hcredited₂.keepsRest).trans ⟨d₂.accounts, _, rfl⟩

/-- Whatever `transfer` refuses, it refuses before it writes. -/
theorem transfer_refuses (hlock : s.held = false ∨ env.reentrant = true) (h : ¬Transferable f t n s.db) :
    ∃ e, transfer f t n false env s = (.raises e, s) := by
  by_cases hf : isBlank f = true
  · exact ⟨_, bind_of_raises (raiseIf_of hf)⟩
  by_cases ht : isBlank t = true
  · exact ⟨_, by rw [transfer, validateAccountId, bind_of_returns (raiseIf_of_not hf)]; exact bind_of_raises (raiseIf_of ht)⟩
  by_cases hn : n ≤ 0
  · refine ⟨.valueError s!"Amount must be positive, got {n}", ?_⟩
    rw [transfer, validateAccountId, bind_of_returns (raiseIf_of_not hf), validateAccountId,
      bind_of_returns (raiseIf_of_not ht)]
    exact bind_of_raises (raiseIf_of hn)
  have hbody : ∃ e, transfer f t n false env s = withLock (raise e) env s := by
    rw [transfer, validateAccountId, bind_of_returns (raiseIf_of_not hf), validateAccountId,
      bind_of_returns (raiseIf_of_not ht), validateAmount, bind_of_returns (raiseIf_of_not hn)]
    by_cases hbal : getBalance f s.db < n
    · refine ⟨.insufficientBalance s!"Insufficient balance: {getBalance f s.db} < {n}", ?_⟩
      rw [withLock_apply _ hlock, withLock_apply _ hlock, bind_of_returns (query_apply _), bind_of_raises (raiseIf_of hbal)]
      rfl
    · have hc : s.db.accounts.contains t = false := by
        rw [Bool.eq_false_iff]
        exact fun hc => h ⟨by simpa using hf, by simpa using ht, by omega, by omega, hc⟩
      refine ⟨.valueError s!"Recipient account does not exist: {t}. Create account first or use allow_create_recipient=True", ?_⟩
      rw [withLock_apply _ hlock, withLock_apply _ hlock, bind_of_returns (query_apply _),
        bind_of_returns (raiseIf_of_not hbal), bind_of_returns (query_apply _), bind_of_raises (raiseIf_of ⟨hc, rfl⟩)]
      rfl
  obtain ⟨e, he⟩ := hbody
  exact ⟨e, he.trans (by rw [withLock_apply _ hlock]; rfl)⟩

theorem openEscrow_open {key : String} {e : Escrow} (hg : s.db.escrows.get? key = some e) (hr : e.released = false) :
    openEscrow (some key) env s = (.returns (key, e), s) :=
  openEscrow_returns.mpr ⟨rfl, hg, hr, rfl⟩

/-- The escrow went to the account `t`. -/
structure Released (key : String) (e : Escrow) (t : String) (db db' : Db) : Prop where
  balance : ∀ j, getBalance j db' = getBalance j db + if j = t then e.amount else 0
  contains : ∀ j, db'.accounts.contains j = true ↔ db.accounts.contains j = true ∨ j = t
  closed : db'.escrows.get? key = some { e with released := true, releasedTo := some t }
  bounties : db'.bounties = db.bounties

theorem releaseEscrow_succeeds (hlock : s.held = false ∨ env.reentrant = true) {key : String} {e : Escrow}
    {account : Account} (ht : isBlank t = false) (hg : s.db.escrows.get? key = some e) (hr : e.released = false)
    (hpos : 0 < e.amount) (ha : s.db.accounts.get? e.accountId = some account) (hcover : e.amount ≤ account.locked)
    (hnew : s.db.operations.get? (env.uuid4 s.draws) = none) :
    ∃ d, releaseEscrow (some key) t env s = (.returns (), ⟨d, d, s.held, s.draws + 1, s.ticks + 1⟩) ∧
      Released key e t s.db d ∧ (Function.Injective env.uuid4 → Fresh env s.draws s.db → Fresh env (s.draws + 1) d) := by
  have hb := account.balance_nonneg
  have hu := account.unbonding_nonneg
  have hc := Table.contains_eq_true_iff.mpr ⟨account, ha⟩
  obtain ⟨d₁, hd₁⟩ := updateAccount_succeeds (b := 0) (l := -e.amount) (u := 0) ha (by omega) (by omega) (by omega)
  have hcredited₁ := updateAccount_credited hc hd₁
  obtain ⟨d₂, hd₂, hcredited₂⟩ := creditAccount_credited env { s with db := d₁, held := true } t (le_of_lt hpos)
  have hops : d₂.operations = s.db.operations := hcredited₂.operations.trans hcredited₁.operations
  obtain ⟨accounts₁, hrest₁⟩ := hcredited₁.rest
  obtain ⟨accounts₂, hrest₂⟩ := hcredited₂.rest
  let d₃ : Db := { d₂ with escrows := d₂.escrows.modify key fun e => { e with released := true, releasedTo := some t } }
  have hnew₃ : d₃.operations.get? (env.uuid4 s.draws) = none := by
    show d₂.operations.get? _ = none
    rw [hops]
    exact hnew
  have hrecord := recordOperation_fresh (s := ⟨d₃, s.committed, true, s.draws, s.ticks + 1⟩) hnew₃ t
    OpType.release.value e.amount (env.timeNs s.ticks) (.release key e.accountId)
  let row : Operation := ⟨t, OpType.release.value, e.amount, env.timeNs s.ticks, .release key e.accountId⟩
  let d₄ : Db := { d₃ with operations := d₃.operations.insert (env.uuid4 s.draws) row hnew₃ }
  refine ⟨d₄, bind_returns.mpr ⟨(), s, raiseIf_returns.mpr ⟨by simpa using ht, rfl⟩, withLock_returns.mpr ⟨hlock,
    ⟨d₄, d₄, true, s.draws + 1, s.ticks + 1⟩, withConn_returns.mpr ⟨⟨d₄, s.committed, true, s.draws + 1, s.ticks + 1⟩, ?_, rfl⟩,
    rfl⟩⟩, ⟨?_, ?_, ?_, ?_⟩, ?_⟩
  · refine bind_returns.mpr ⟨(key, e), { s with held := true }, openEscrow_open hg hr, ?_⟩
    dsimp only
    rw [bind_of_returns (execute_of_ok (s := { s with held := true }) hd₁), bind_of_returns hd₂,
      bind_of_returns (execute_of_ok (s := { s with db := d₂, held := true }) (d := d₃) rfl), bind_of_returns timeNs_apply]
    exact hrecord
  · intro j
    have hj₁ := hcredited₁.balance j
    have hj₂ := hcredited₂.balance j
    show getBalance j d₂ = _
    rw [hj₂]
    show getBalance j d₁ + _ = _
    rw [hj₁]
    simp
  · intro j
    show d₂.accounts.contains j = true ↔ _
    rw [hcredited₂.contains]
    show d₁.accounts.contains j = true ∨ j = t ↔ _
    rw [hcredited₁.contains]
    constructor
    · rintro ((hj | rfl) | hj)
      · exact Or.inl hj
      · exact Or.inl hc
      · exact Or.inr hj
    · rintro (hj | hj)
      · exact Or.inl (Or.inl hj)
      · exact Or.inr hj
  · have hkey : d₂.escrows.get? key = some e := by
      rw [hrest₂]
      show d₁.escrows.get? key = some e
      rw [hrest₁]
      exact hg
    show d₃.escrows.get? key = _
    simp [d₃, hkey]
  · show d₂.bounties = _
    rw [hrest₂]
    show d₁.bounties = _
    rw [hrest₁]
  · intro hinj hfresh
    have hfresh₃ : Fresh env s.draws d₃ := hfresh.of_operations hops
    exact hfresh₃.insert hinj row hnew₃

end CreditLedger

end AgentNetwork
