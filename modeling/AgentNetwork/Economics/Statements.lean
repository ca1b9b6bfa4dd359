import Mathlib.Data.Finsupp.Single
import Mathlib.Algebra.Group.Finsupp
import Mathlib.Algebra.BigOperators.Finsupp.Basic
import Mathlib.Algebra.Group.Prod
import Mathlib.Tactic.Abel
import AgentNetwork.Economics.Slashing

namespace AgentNetwork

open Relational

/-- Credits of one account: available, locked, unbonding. -/
abbrev Holdings := ℤ × ℤ × ℤ

/-- What one recorded operation says about the accounts. -/
def Operation.effect (op : Operation) : List (String × Holdings) :=
  match op.opType with
  | "MINT" => [(op.accountId, (op.amount, 0, 0))]
  | "TRANSFER" => [(op.accountId, (op.amount, 0, 0))]
  | "ESCROW" => [(op.accountId, (-op.amount, op.amount, 0))]
  | "RELEASE" =>
    match op.metadata with
    | .release _ fromAccount => [(op.accountId, (op.amount, 0, 0)), (fromAccount, (0, -op.amount, 0))]
    | _ => [(op.accountId, (op.amount, 0, 0))]
  | "STAKE" => [(op.accountId, (-op.amount, op.amount, 0))]
  | "UNSTAKE" => [(op.accountId, (0, -op.amount, op.amount))]
  | "COMPLETE_UNBONDING" => [(op.accountId, (op.amount, 0, -op.amount))]
  | "SLASH" => [(op.accountId, (0, -op.amount, 0))]
  | "SLASH_REWARD" => [(op.accountId, (op.amount, 0, 0))]
  | _ => []

def postEntry (books : String → Holdings) (entry : String × Holdings) : String → Holdings :=
  Function.update books entry.1 (books entry.1 + entry.2)

/-- The accounts as the audit trail tells them, folded from empty. -/
def replay (ops : List Operation) : String → Holdings :=
  ops.foldl (fun books op => op.effect.foldl postEntry books) fun _ => 0

/-- The books of the whole system: what every account holds, what each has in
open escrows, the supply, and what the audit trail says every account holds.
They form a group and every call adds a fixed entry to them. -/
abbrev Books := (String →₀ Holdings) × (String →₀ ℤ) × ℤ × (String →₀ Holdings)

noncomputable section

def held (accountId : String) (h : Holdings) : Books := (Finsupp.single accountId h, 0, 0, 0)

def escrowed (accountId : String) (amount : ℤ) : Books := (0, Finsupp.single accountId amount, 0, 0)

def minted (amount : ℤ) : Books := (0, 0, amount, 0)

def recorded (accountId : String) (h : Holdings) : Books := (0, 0, 0, Finsupp.single accountId h)

def Account.held (accountId : String) (account : Account) : Books :=
  AgentNetwork.held accountId (account.balance, account.locked, account.unbonding)

def Escrow.outstanding (e : Escrow) : Books := if e.released then 0 else escrowed e.accountId e.amount

def Operation.posting (op : Operation) : Books := (op.effect.map fun entry => recorded entry.1 entry.2).sum

def Db.books (db : Db) : Books :=
  db.accounts.total Account.held + db.escrows.total (fun _ e => e.outstanding) + minted db.totalSupply +
    db.operations.total fun _ op => op.posting

/-- What a call does to the books. -/
inductive Movement
  | mint (accountId : String) (amount : ℤ)
  | transfer (fromId toId : String) (amount : ℤ)
  | escrow (accountId : String) (amount : ℤ)
  | release (fromId toId : String) (amount : ℤ)
  | cancel (accountId : String) (amount : ℤ)
  | stake (accountId : String) (amount : ℤ)
  | unstake (accountId : String) (amount : ℤ)
  | completeUnbonding (accountId : String) (amount : ℤ)
  | slash (accountId : String) (amount : ℤ)
  | reward (accountId : String) (amount : ℤ)
  | lostReward (accountId : String) (amount : ℤ)

/-- A change of an account that the audit trail records as it is. -/
def booked (accountId : String) (h : Holdings) : Books := held accountId h + recorded accountId h

def Movement.entry : Movement → Books
  | .mint a n => booked a (n, 0, 0) + minted n
  | .transfer f t n => booked f (-n, 0, 0) + booked t (n, 0, 0)
  | .escrow a n => booked a (-n, n, 0) + escrowed a n
  | .release f t n => booked f (0, -n, 0) + booked t (n, 0, 0) + escrowed f (-n)
  | .cancel a n => booked a (n, -n, 0) + escrowed a (-n)
  | .stake a n => booked a (-n, n, 0)
  | .unstake a n => booked a (0, -n, n)
  | .completeUnbonding a n => booked a (n, 0, -n)
  | .slash a n => booked a (0, -n, 0)
  | .reward a n => booked a (n, 0, 0)
  | .lostReward a n => recorded a (n, 0, 0)

end

end AgentNetwork

namespace AgentNetwork

open Relational Transactional Transactional.Prog

/-- Every escrow and every unbonding record belongs to an account, and escrows
are of a positive amount. -/
structure Linked (db : Db) : Prop where
  escrows : ∀ {key e}, db.escrows.get? key = some e → 0 < e.amount ∧ db.accounts.contains e.accountId = true
  unbonding : ∀ {key r}, db.unbonding.get? key = some r → db.accounts.contains r.accountId = true

theorem linked_empty : Linked Db.empty := ⟨nofun, nofun⟩

/-- Accounts are never deleted. -/
def KeepsAccounts (db db' : Db) : Prop := ∀ a, db.accounts.contains a = true → db'.accounts.contains a = true

theorem Linked.mono {db db' : Db} (h : Linked db) (keeps : KeepsAccounts db db')
    (he : db'.escrows = db.escrows) (hu : db'.unbonding = db.unbonding) : Linked db' where
  escrows hg := ⟨(h.escrows (he ▸ hg)).1, keeps _ (h.escrows (he ▸ hg)).2⟩
  unbonding hg := keeps _ (h.unbonding (hu ▸ hg))

theorem held_add (a : String) (h h' : Holdings) : held a (h + h') = held a h + held a h' := by
  simp [held, Finsupp.single_add]

theorem recorded_add (a : String) (h h' : Holdings) : recorded a (h + h') = recorded a h + recorded a h' := by
  simp [recorded, Finsupp.single_add]

theorem escrowed_add (a : String) (n n' : ℤ) : escrowed a (n + n') = escrowed a n + escrowed a n' := by
  simp [escrowed, Finsupp.single_add]

theorem minted_add (n n' : ℤ) : minted (n + n') = minted n + minted n' := by
  simp [minted]

@[simp] theorem recorded_zero (a : String) : recorded a 0 = 0 := by
  simp [recorded]

section Books

variable {db db' : Db}

theorem insertAccount_books {a : String} {n : Int} (h : insertAccount a n db = .ok db') :
    db'.books = db.books + held a (n, 0, 0) := by
  obtain ⟨account, ⟨hb, hl, hu⟩, fresh, rfl⟩ := insertAccount_ok.mp h
  simp only [Db.books, Table.total_insert, Account.held, hb, hl, hu]
  abel

theorem updateAccount_books {a : String} {b l u : Int} (hc : db.accounts.contains a = true)
    (h : updateAccount a b l u db = .ok db') : db'.books = db.books + held a (b, l, u) := by
  obtain ⟨_, hg⟩ := Table.contains_eq_true_iff.mp hc
  rcases updateAccount_ok.mp h with ⟨hnone, _⟩ | ⟨account, account', hg, hb, hl, hu, rfl⟩
  · simp [hnone] at hg
  · have hnew : account'.held a = account.held a + held a (b, l, u) := by
      rw [Account.held, Account.held, ← held_add, hb, hl, hu]
      rfl
    have htotal : (db.accounts.set a account').total Account.held = db.accounts.total Account.held + held a (b, l, u) := by
      have hset := Table.total_set hg account' Account.held
      rw [hnew] at hset
      apply add_right_cancel (b := account.held a)
      rw [hset]
      abel
    simp only [Db.books, htotal]
    abel

/-- An `UPDATE` that matches no row changes nothing. -/
theorem updateAccount_missing {a : String} {b l u : Int} (hc : db.accounts.contains a = false)
    (h : updateAccount a b l u db = .ok db') : db' = db := by
  rcases updateAccount_ok.mp h with ⟨_, hd⟩ | ⟨account, _, hg, _⟩
  · exact hd
  · simp [Table.contains_eq_false_iff.mp hc] at hg

theorem Operation.posting_single {op : Operation} {a : String} {h : Holdings} (he : op.effect = [(a, h)]) :
    op.posting = recorded a h := by
  rw [Operation.posting, he]
  exact add_zero _

theorem Operation.posting_pair {op : Operation} {a b : String} {h g : Holdings} (he : op.effect = [(a, h), (b, g)]) :
    op.posting = recorded a h + recorded b g := by
  rw [Operation.posting, he]
  exact congrArg (recorded a h + ·) (add_zero _)

theorem Escrow.outstanding_open {e : Escrow} (h : e.released = false) : e.outstanding = escrowed e.accountId e.amount := by
  rw [Escrow.outstanding, h]
  rfl

theorem insertOperation_books {opId : String} {op : Operation} (h : insertOperation opId op db = .ok db') :
    db'.books = db.books + op.posting := by
  obtain ⟨fresh, rfl⟩ := insertRow_ok.mp h
  simp only [Db.books, Table.total_insert]
  abel

theorem insertEscrow_books {key : String} {e : Escrow} (h : insertEscrow key e db = .ok db') :
    db'.books = db.books + e.outstanding := by
  obtain ⟨fresh, rfl⟩ := insertRow_ok.mp h
  simp only [Db.books, Table.total_insert]
  abel

theorem markReleased_books {key toId : String} {e : Escrow} (hg : db.escrows.get? key = some e) (hr : e.released = false)
    (h : markReleased key toId db = .ok db') : db'.books = db.books + escrowed e.accountId (-e.amount) := by
  obtain rfl := Except.ok.inj h
  rw [Db.books, Db.books]
  have hset := Table.total_set hg { e with released := true, releasedTo := some toId } fun _ e => e.outstanding
  have hold : e.outstanding = escrowed e.accountId e.amount := by simp [Escrow.outstanding, hr]
  have hzero : (0 : Books) = escrowed e.accountId e.amount + escrowed e.accountId (-e.amount) := by
    rw [← escrowed_add, add_neg_cancel, escrowed, Finsupp.single_zero]
    rfl
  have hnew : (Escrow.outstanding { e with released := true, releasedTo := some toId }) = 0 := by
    simp [Escrow.outstanding]
  have htotal : ((db.escrows.modify key fun e => { e with released := true, releasedTo := some toId }).total
      fun _ e => e.outstanding) = (db.escrows.total fun _ e => e.outstanding) + escrowed e.accountId (-e.amount) := by
    rw [Table.modify_of_get? hg]
    apply add_right_cancel (b := e.outstanding)
    rw [hset, hnew, hold, hzero]
    abel
  simp only [htotal]
  abel

theorem addSupply_books {n : Int} (h : addSupply n db = .ok db') : db'.books = db.books + minted n := by
  unfold addSupply at h
  split at h
  · obtain rfl := Except.ok.inj h
    simp only [Db.books, minted_add]
    abel
  · simp at h

end Books

section Frames

variable {db db' : Db}

theorem insertAccount_keeps {a : String} {n : Int} (h : insertAccount a n db = .ok db') :
    KeepsAccounts db db' ∧ db'.accounts.contains a = true := by
  obtain ⟨account, _, fresh, rfl⟩ := insertAccount_ok.mp h
  constructor
  · intro j hj
    simp [Table.contains_insert, hj]
  · simp [Table.contains_insert]

theorem insertAccount_linked {a : String} {n : Int} (hl : Linked db) (h : insertAccount a n db = .ok db') :
    Linked db' := by
  have hk := (insertAccount_keeps h).1
  obtain ⟨account, _, fresh, rfl⟩ := insertAccount_ok.mp h
  exact hl.mono hk rfl rfl

theorem updateAccount_contains {a : String} {b l u : Int} (h : updateAccount a b l u db = .ok db') (j : String) :
    db'.accounts.contains j = db.accounts.contains j := by
  rcases updateAccount_ok.mp h with ⟨_, rfl⟩ | ⟨account, account', _, _, _, _, rfl⟩
  · rfl
  · exact Table.contains_set db.accounts a j account'

theorem updateAccount_frame {a : String} {b l u : Int} (h : updateAccount a b l u db = .ok db') :
    db'.escrows = db.escrows ∧ db'.unbonding = db.unbonding ∧ db'.totalSupply = db.totalSupply ∧
      db'.operations = db.operations := by
  rcases updateAccount_ok.mp h with ⟨_, rfl⟩ | ⟨account, account', _, _, _, _, rfl⟩
  · exact ⟨rfl, rfl, rfl, rfl⟩
  · exact ⟨rfl, rfl, rfl, rfl⟩

theorem updateAccount_linked {a : String} {b l u : Int} (hl : Linked db) (h : updateAccount a b l u db = .ok db') :
    Linked db' := by
  have hc := updateAccount_contains h
  obtain ⟨he, hu, _⟩ := updateAccount_frame h
  exact hl.mono (fun j hj => (hc j).trans hj) he hu

theorem insertOperation_linked {opId : String} {op : Operation} (hl : Linked db)
    (h : insertOperation opId op db = .ok db') : Linked db' := by
  obtain ⟨fresh, rfl⟩ := insertRow_ok.mp h
  exact hl.mono (fun _ hj => hj) rfl rfl

theorem insertOperation_accounts {opId : String} {op : Operation} (h : insertOperation opId op db = .ok db') :
    db'.accounts = db.accounts := by
  obtain ⟨fresh, rfl⟩ := insertRow_ok.mp h
  rfl

theorem insertEscrow_linked {key : String} {e : Escrow} (hl : Linked db) (hn : 0 < e.amount)
    (ha : db.accounts.contains e.accountId = true) (h : insertEscrow key e db = .ok db') : Linked db' := by
  obtain ⟨fresh, rfl⟩ := insertRow_ok.mp h
  refine ⟨?_, hl.unbonding⟩
  intro j e' hg
  simp only [Table.get?_insert] at hg
  split at hg
  · cases Option.some.inj hg
    exact ⟨hn, ha⟩
  · exact hl.escrows hg

theorem markReleased_linked {key toId : String} (hl : Linked db) (h : markReleased key toId db = .ok db') :
    Linked db' := by
  obtain rfl := Except.ok.inj h
  refine ⟨?_, hl.unbonding⟩
  intro j e' hg
  simp only [Table.get?_modify] at hg
  split at hg
  · obtain ⟨e, hge, rfl⟩ := Option.map_eq_some_iff.mp hg
    have hc := hl.escrows hge
    exact hc
  · exact hl.escrows hg

theorem addSupply_linked {n : Int} (hl : Linked db) (h : addSupply n db = .ok db') : Linked db' := by
  unfold addSupply at h
  split at h
  · obtain rfl := Except.ok.inj h
    exact hl.mono (fun _ hj => hj) rfl rfl
  · simp at h

theorem insertUnbonding_linked {key : String} {r : UnbondingRecord} (hl : Linked db)
    (ha : db.accounts.contains r.accountId = true) (h : insertUnbonding key r db = .ok db') : Linked db' := by
  obtain ⟨fresh, rfl⟩ := insertRow_ok.mp h
  refine ⟨hl.escrows, ?_⟩
  intro j r' hg
  simp only [Table.get?_insert] at hg
  split at hg
  · cases Option.some.inj hg
    exact ha
  · exact hl.unbonding hg

theorem markCompleted_books {key : String} (h : markCompleted key db = .ok db') : db'.books = db.books := by
  obtain rfl := Except.ok.inj h
  rfl

theorem insertUnbonding_books {key : String} {r : UnbondingRecord} (h : insertUnbonding key r db = .ok db') :
    db'.books = db.books := by
  obtain ⟨fresh, rfl⟩ := insertRow_ok.mp h
  rfl

theorem markCompleted_linked {key : String} (hl : Linked db) (h : markCompleted key db = .ok db') : Linked db' := by
  obtain rfl := Except.ok.inj h
  refine ⟨hl.escrows, ?_⟩
  intro j r' hg
  simp only [Table.get?_modify] at hg
  split at hg
  · obtain ⟨r, hgr, rfl⟩ := Option.map_eq_some_iff.mp hg
    have hc := hl.unbonding hgr
    exact hc
  · exact hl.unbonding hg

theorem insertSlashEvent_frame {key : String} {row : SlashRow} (h : insertSlashEvent key row db = .ok db') :
    db'.books = db.books ∧ (Linked db → Linked db') ∧ db'.accounts = db.accounts := by
  obtain ⟨fresh, rfl⟩ := insertRow_ok.mp h
  exact ⟨rfl, fun hl => hl.mono (fun _ hj => hj) rfl rfl, rfl⟩

/-- A positive amount is only available in an account that exists. -/
theorem contains_of_balance {a : String} {n : Int} (hn : 0 < n) (hb : n ≤ CreditLedger.getBalance a db) :
    db.accounts.contains a = true := by
  unfold CreditLedger.getBalance at hb
  cases hg : db.accounts.get? a with
  | none =>
    simp only [hg] at hb
    omega
  | some account => exact Table.contains_eq_true_iff.mpr ⟨account, hg⟩

theorem contains_of_stake {a : String} {n : Int} (hn : 0 < n) (hb : n ≤ StakeManager.getStakedAmount a db) :
    db.accounts.contains a = true := by
  unfold StakeManager.getStakedAmount CreditLedger.getAccount at hb
  cases hg : db.accounts.get? a with
  | none =>
    simp only [hg] at hb
    omega
  | some account => exact Table.contains_eq_true_iff.mpr ⟨account, hg⟩

end Frames

section Progress

variable {db : Db}

/-- Reading the clock changes no data. -/
theorem timestampOr_returns (timestampNs : Option Int) (env : Env) (s : Session Db) :
    ∃ t s₁, timestampOr timestampNs env s = (.returns t, s₁) ∧ s₁.db = s.db ∧ s₁.committed = s.committed := by
  cases timestampNs with
  | none => exact ⟨_, _, timeNs_apply, rfl, rfl⟩
  | some t => exact ⟨t, s, rfl, rfl, rfl⟩

theorem updateAccount_succeeds {a : String} {b l u : Int} {account : Account} (hg : db.accounts.get? a = some account)
    (hb : 0 ≤ account.balance + b) (hl : 0 ≤ account.locked + l) (hu : 0 ≤ account.unbonding + u) :
    ∃ db', updateAccount a b l u db = .ok db' := by
  let account' : Account := ⟨account.balance + b, account.locked + l, account.unbonding + u, hb, hl, hu⟩
  exact ⟨_, updateAccount_ok.mpr (Or.inr ⟨account, account', hg, rfl, rfl, rfl, rfl⟩)⟩

theorem insertOperation_succeeds {opId : String} (op : Operation) (fresh : db.operations.get? opId = none) :
    ∃ db', insertOperation opId op db = .ok db' := ⟨_, insertRow_ok.mpr ⟨fresh, rfl⟩⟩

end Progress

end AgentNetwork
