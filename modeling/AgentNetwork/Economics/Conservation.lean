import Mathlib.Algebra.BigOperators.Finsupp.Basic
import AgentNetwork.Economics.Statements
import AgentNetwork.Economics.Transactions
import AgentNetwork.Economics.Effects

namespace AgentNetwork

open Relational

noncomputable section

/-- Balance, locked and unbonding together. -/
def Holdings.credits : Holdings →+ ℤ :=
  AddMonoidHom.fst ℤ (ℤ × ℤ) + (AddMonoidHom.fst ℤ ℤ + AddMonoidHom.snd ℤ ℤ).comp (AddMonoidHom.snd ℤ (ℤ × ℤ))

namespace Books

/-- All credits of all accounts. -/
def credits : Books →+ ℤ := (Finsupp.liftAddHom fun _ => Holdings.credits).comp (AddMonoidHom.fst _ _)

/-- What one account holds. -/
def heldAt (a : String) : Books →+ Holdings := (Finsupp.applyAddHom a).comp (AddMonoidHom.fst _ _)

/-- What one account has in open escrows. -/
def escrowedAt (a : String) : Books →+ ℤ :=
  (Finsupp.applyAddHom a).comp ((AddMonoidHom.fst _ _).comp (AddMonoidHom.snd _ _))

def supply : Books →+ ℤ :=
  (AddMonoidHom.fst _ _).comp ((AddMonoidHom.snd _ _).comp (AddMonoidHom.snd _ _))

/-- What the audit trail says one account holds. -/
def recordedAt (a : String) : Books →+ Holdings :=
  (Finsupp.applyAddHom a).comp ((AddMonoidHom.snd _ _).comp ((AddMonoidHom.snd _ _).comp (AddMonoidHom.snd _ _)))

end Books

end

@[simp] theorem Holdings.credits_apply (h : Holdings) : Holdings.credits h = h.1 + (h.2.1 + h.2.2) := rfl

section Entries

variable (a b : String) (h : Holdings) (n : ℤ)

@[simp] theorem credits_held : Books.credits (held a h) = h.1 + (h.2.1 + h.2.2) := by
  simp [Books.credits, held]

@[simp] theorem credits_escrowed : Books.credits (escrowed a n) = 0 := by
  simp [Books.credits, escrowed]

@[simp] theorem credits_minted : Books.credits (minted n) = 0 := by
  simp [Books.credits, minted]

@[simp] theorem credits_recorded : Books.credits (recorded a h) = 0 := by
  simp [Books.credits, recorded]

@[simp] theorem heldAt_held : Books.heldAt b (held a h) = if a = b then h else 0 := by
  simp [Books.heldAt, held, Finsupp.single_apply]

@[simp] theorem heldAt_escrowed : Books.heldAt b (escrowed a n) = 0 := by
  simp [Books.heldAt, escrowed]

@[simp] theorem heldAt_minted : Books.heldAt b (minted n) = 0 := by
  simp [Books.heldAt, minted]

@[simp] theorem heldAt_recorded : Books.heldAt b (recorded a h) = 0 := by
  simp [Books.heldAt, recorded]

@[simp] theorem escrowedAt_held : Books.escrowedAt b (held a h) = 0 := by
  simp [Books.escrowedAt, held]

@[simp] theorem escrowedAt_escrowed : Books.escrowedAt b (escrowed a n) = if a = b then n else 0 := by
  simp [Books.escrowedAt, escrowed, Finsupp.single_apply]

@[simp] theorem escrowedAt_minted : Books.escrowedAt b (minted n) = 0 := by
  simp [Books.escrowedAt, minted]

@[simp] theorem escrowedAt_recorded : Books.escrowedAt b (recorded a h) = 0 := by
  simp [Books.escrowedAt, recorded]

@[simp] theorem supply_held : Books.supply (held a h) = 0 := by
  simp [Books.supply, held]

@[simp] theorem supply_escrowed : Books.supply (escrowed a n) = 0 := by
  simp [Books.supply, escrowed]

@[simp] theorem supply_minted : Books.supply (minted n) = n := by
  simp [Books.supply, minted]

@[simp] theorem supply_recorded : Books.supply (recorded a h) = 0 := by
  simp [Books.supply, recorded]

@[simp] theorem recordedAt_held : Books.recordedAt b (held a h) = 0 := by
  simp [Books.recordedAt, held]

@[simp] theorem recordedAt_escrowed : Books.recordedAt b (escrowed a n) = 0 := by
  simp [Books.recordedAt, escrowed]

@[simp] theorem recordedAt_minted : Books.recordedAt b (minted n) = 0 := by
  simp [Books.recordedAt, minted]

@[simp] theorem recordedAt_recorded : Books.recordedAt b (recorded a h) = if a = b then h else 0 := by
  simp [Books.recordedAt, recorded, Finsupp.single_apply]

end Entries

/-- The holdings in an account row; none for an account that is not there. -/
def Db.holdings (a : String) (db : Db) : Holdings :=
  match db.accounts.get? a with
  | some account => (account.balance, account.locked, account.unbonding)
  | none => 0

/-- The credits of all rows of `accounts`. -/
def Db.credits (db : Db) : ℤ := db.accounts.total fun _ account => account.balance + account.locked + account.unbonding

/-- The amounts of the account's escrows that are not released. -/
def Db.openEscrows (a : String) (db : Db) : ℤ :=
  db.escrows.total fun _ e => if e.accountId = a ∧ e.released = false then e.amount else 0

section Readings

variable {M : Type} [AddCommMonoid M]

theorem map_books (φ : Books →+ M) (db : Db) :
    φ db.books = (db.accounts.total fun a account => φ (account.held a)) +
      (db.escrows.total fun _ e => φ e.outstanding) + φ (minted db.totalSupply) +
      db.operations.total fun _ op => φ op.posting := by
  simp only [Db.books, map_add, Table.map_total]

/-- A reading that ignores the audit trail ignores what an operation posts. -/
theorem map_posting_zero {φ : Books →+ M} (h : ∀ a g, φ (recorded a g) = 0) (op : Operation) : φ op.posting = 0 := by
  rw [Operation.posting, map_list_sum, List.map_map]
  apply List.sum_eq_zero
  intro n hn
  obtain ⟨entry, _, rfl⟩ := List.mem_map.mp hn
  exact h entry.1 entry.2

theorem credits_books (db : Db) : Books.credits db.books = db.credits := by
  have hescrow (e : Escrow) : Books.credits e.outstanding = 0 := by
    unfold Escrow.outstanding
    split <;> simp
  rw [map_books]
  simp only [Account.held, credits_held, hescrow, credits_minted, map_posting_zero credits_recorded, Table.total_zero,
    add_zero, Db.credits, add_assoc]

theorem supply_books (db : Db) : Books.supply db.books = db.totalSupply := by
  have hescrow (e : Escrow) : Books.supply e.outstanding = 0 := by
    unfold Escrow.outstanding
    split <;> simp
  rw [map_books]
  simp only [Account.held, supply_held, hescrow, supply_minted, map_posting_zero supply_recorded, Table.total_zero,
    add_zero, zero_add]

theorem heldAt_books (a : String) (db : Db) : Books.heldAt a db.books = db.holdings a := by
  have hescrow (e : Escrow) : Books.heldAt a e.outstanding = 0 := by
    unfold Escrow.outstanding
    split <;> simp
  rw [map_books]
  simp only [Account.held, heldAt_held, hescrow, heldAt_minted, map_posting_zero (fun b => heldAt_recorded b a),
    Table.total_zero, add_zero]
  rw [Table.total_ite_key db.accounts a fun account => ((account.balance, account.locked, account.unbonding) : Holdings)]
  unfold Db.holdings
  cases db.accounts.get? a <;> rfl

theorem escrowedAt_books (a : String) (db : Db) : Books.escrowedAt a db.books = db.openEscrows a := by
  have hescrow (e : Escrow) :
      Books.escrowedAt a e.outstanding = if e.accountId = a ∧ e.released = false then e.amount else 0 := by
    unfold Escrow.outstanding
    cases e.released <;> simp
  rw [map_books]
  simp only [Account.held, escrowedAt_held, hescrow, escrowedAt_minted,
    map_posting_zero (fun b => escrowedAt_recorded b a), Table.total_zero, add_zero, zero_add, Db.openEscrows]

theorem postEntries_apply (a : String) (entries : List (String × Holdings)) (books : String → Holdings) :
    entries.foldl postEntry books a =
      books a + Books.recordedAt a (entries.map fun entry => recorded entry.1 entry.2).sum := by
  induction entries generalizing books with
  | nil => simp
  | cons entry rest ih =>
    have hentry : postEntry books entry a = books a + Books.recordedAt a (recorded entry.1 entry.2) := by
      by_cases h : entry.1 = a
      · subst h
        simp [postEntry]
      · simp [postEntry, Function.update_of_ne (Ne.symm h), h]
    rw [List.foldl_cons, ih, hentry, List.map_cons, List.sum_cons, map_add, add_assoc]

theorem replay_apply (a : String) (ops : List Operation) :
    replay ops a = Books.recordedAt a (ops.map Operation.posting).sum := by
  have hfold (books : String → Holdings) : ops.foldl (fun books op => op.effect.foldl postEntry books) books a =
      books a + Books.recordedAt a (ops.map Operation.posting).sum := by
    induction ops generalizing books with
    | nil => simp
    | cons op rest ih =>
      rw [List.foldl_cons, ih, postEntries_apply, List.map_cons, List.sum_cons, map_add, add_assoc]
      rfl
  exact (hfold _).trans (zero_add _)

/-- The operations in the order they were written. -/
def Db.trail (db : Db) : List Operation := db.operations.entries.map Prod.snd

theorem recordedAt_books (a : String) (db : Db) : Books.recordedAt a db.books = replay db.trail a := by
  have hescrow (e : Escrow) : Books.recordedAt a e.outstanding = 0 := by
    unfold Escrow.outstanding
    split <;> simp
  rw [map_books]
  simp only [Account.held, recordedAt_held, hescrow, recordedAt_minted, Table.total_zero, add_zero, zero_add]
  rw [replay_apply, ← Table.map_total, Table.total, Db.trail, List.map_map]
  rfl

end Readings

end AgentNetwork

namespace AgentNetwork

open Relational Transactional Transactional.Prog

/-- The movements a successful call may post to the books, and what its checks
have found before. -/
inductive Posts (db : Db) : Call → List Movement → Prop
  | nothing {c : Call} : Posts db c []
  | mint {a : String} {n : Int} {minter : Option String} : 0 ≤ n →
      (0 < n → db.totalSupply + n ≤ CreditLedger.maxSupply) → Posts db (.createAccount a n minter) [.mint a n]
  | transfer {f t : String} {n : Int} {allow : Bool} : Posts db (.transfer f t n allow) [.transfer f t n]
  | escrow {a key : String} {n : Int} : Posts db (.escrow a n key) [.escrow a n]
  | release {key : Option String} {t : String} {e : Escrow} : Posts db (.releaseEscrow key t) [.release e.accountId t e.amount]
  | cancel {key : Option String} {e : Escrow} : Posts db (.cancelEscrow key) [.cancel e.accountId e.amount]
  | stake {a : String} {n : Int} : 0 < n → Posts db (.stake a n) [.stake a n]
  | unstake {a : String} {n : Int} : 0 < n → n ≤ StakeManager.getStakedAmount a db → Posts db (.unstake a n) [.unstake a n]
  | completeUnbonding {a : String} {n : Int} : Posts db (.completeUnbonding a) [.completeUnbonding a n]
  | slash {event : SlashEvent} :
      Posts db (.executeSlash event) [.slash event.accountId (SlashingRules.taken event db)]

theorem Call.posts {config : Config} {env : Env} {s s' : Session Db} {u : Unit} {c : Call} (hc : c.isTransaction)
    (hl : Linked s.db) (h : c.run config env s = (.returns u, s')) :
    Linked s'.db ∧ ∃ ms, Posts s.db c ms ∧ s'.db.books = s.db.books + (ms.map Movement.entry).sum := by
  have hreading {p : Econ Unit} (hp : ReadOnly p) (h : p env s = (.returns u, s')) :
      Linked s'.db ∧ ∃ ms, Posts s.db c ms ∧ s'.db.books = s.db.books + (ms.map Movement.entry).sum := by
    have hdb := (hp.eq h).1
    rw [hdb]
    exact ⟨hl, [], .nothing, by simp⟩
  have hsingle {m : Movement} (hp : Posts s.db c [m]) (hb : s'.db.books = s.db.books + m.entry) :
      ∃ ms, Posts s.db c ms ∧ s'.db.books = s.db.books + (ms.map Movement.entry).sum :=
    ⟨[m], hp, by simpa using hb⟩
  cases c with
  | createAccount a n minter =>
    obtain ⟨hb, hl', hn, hcap⟩ := CreditLedger.createAccount_effect hl h
    exact ⟨hl', hsingle (.mint hn hcap) hb⟩
  | getBalance a => exact hreading (readOnly_forEffect (ReadOnly.query _)) h
  | getAccount a => exact hreading (readOnly_forEffect (ReadOnly.query _)) h
  | getTotalSupply =>
    obtain ⟨n, hn⟩ := forEffect_returns.mp h
    obtain ⟨_, s₁, hq, rfl⟩ := withLock_returns.mp hn
    obtain ⟨_, rfl⟩ := Prod.mk.inj hq
    exact ⟨hl, [], .nothing, by simp⟩
  | transfer f t n allow =>
    obtain ⟨r, hr⟩ := forEffect_returns.mp h
    obtain ⟨hb, hl'⟩ := CreditLedger.transfer_effect hl hr
    exact ⟨hl', hsingle .transfer hb⟩
  | escrow a n key =>
    obtain ⟨hb, hl'⟩ := CreditLedger.escrow_effect hl h
    exact ⟨hl', hsingle .escrow hb⟩
  | releaseEscrow key t =>
    obtain ⟨_, e, _, _, _, hb, hl'⟩ := CreditLedger.releaseEscrow_effect hl h
    exact ⟨hl', hsingle (.release (e := e)) hb⟩
  | cancelEscrow key =>
    obtain ⟨_, e, _, _, _, hb, hl'⟩ := CreditLedger.cancelEscrow_effect hl h
    exact ⟨hl', hsingle (.cancel (e := e)) hb⟩
  | getAuditTrail a limit => exact hreading (readOnly_attempt _) h
  | stake a n =>
    obtain ⟨hn, _, hb, hl'⟩ := StakeManager.stake_effect hl h
    exact ⟨hl', hsingle (.stake hn) hb⟩
  | unstake a n =>
    obtain ⟨r, hr⟩ := forEffect_returns.mp h
    obtain ⟨hn, hstaked, hb, hl'⟩ := StakeManager.unstake_effect hl hr
    exact ⟨hl', hsingle (.unstake hn hstaked) hb⟩
  | completeUnbonding a =>
    obtain ⟨n, hn⟩ := forEffect_returns.mp h
    obtain ⟨hb, hl'⟩ := StakeManager.completeUnbonding_effect hl hn
    exact ⟨hl', hsingle .completeUnbonding hb⟩
  | getStakedAmount a => exact hreading (readOnly_forEffect (ReadOnly.query _)) h
  | getUnbondingAmount a => exact hreading (readOnly_forEffect (ReadOnly.query _)) h
  | getUnbondingRecords a includeCompleted => exact hreading (readOnly_forEffect (ReadOnly.query _)) h
  | executeSlash event =>
    obtain ⟨hb, hl', _⟩ := SlashingRules.executeSlash_effect h
    exact ⟨hl' hl, hsingle .slash hb⟩
  | _ => simp [Call.isTransaction, Call.component] at hc

/-- Everything minted is held by some account, and no more than the cap. -/
structure Conserved (db : Db) : Prop where
  linked : Linked db
  credits : db.credits = db.totalSupply
  capped : db.totalSupply ≤ CreditLedger.maxSupply

theorem conserved_empty : Conserved Db.empty := ⟨linked_empty, rfl, by decide⟩

theorem Posts.conserves {db db' : Db} {c : Call} {ms : List Movement} (hc : c.component = .ledger ∨ c.component = .stake)
    (h : Posts db c ms) (hb : db'.books = db.books + (ms.map Movement.entry).sum) :
    db'.credits - db'.totalSupply = db.credits - db.totalSupply ∧
      (db.totalSupply ≤ CreditLedger.maxSupply → db'.totalSupply ≤ CreditLedger.maxSupply) := by
  rw [← credits_books, ← supply_books db', hb, map_add, map_add, credits_books, supply_books]
  cases h with
  | slash => simp [Call.component] at hc
  | mint hn hcap =>
    simp only [List.map_cons, List.map_nil, List.sum_cons, List.sum_nil, add_zero, Movement.entry, booked, map_add,
      credits_held, credits_recorded, credits_minted, supply_held, supply_recorded, supply_minted]
    omega
  | _ => simp [Movement.entry, booked]

/-- Ledger and stake calls keep the books balanced and the cap respected. -/
theorem settled_conserved {config : Config} {env : Env} {s : Session Db}
    (h : Run config env (fun _ c => c.component = .ledger ∨ c.component = .stake) s) : Settled Conserved s := by
  refine h.settled ⟨rfl, conserved_empty⟩ ?_
  intro s c out s' hs hc hrun hout
  have htransaction := Call.isTransaction_of_component hc
  refine (Call.atomic_of_isTransaction config htransaction).settles hs hrun hout ?_
  intro u hu
  obtain ⟨_, hI⟩ := hs
  obtain ⟨hl', ms, hposts, hbooks⟩ := Call.posts htransaction hI.linked hu
  obtain ⟨hdiff, hcap⟩ := hposts.conserves hc hbooks
  have hcredits := hI.credits
  exact ⟨hl', by omega, hcap hI.capped⟩

theorem ledger_conservation (config : Config) (env : Env) {s : Session Db}
    (h : Run config env (fun _ c => c.component = .ledger ∨ c.component = .stake) s) :
    s.db.credits = s.db.totalSupply ∧ s.db.totalSupply ≤ CreditLedger.maxSupply ∧
      (∀ a account, s.db.accounts.get? a = some account →
        0 ≤ account.balance ∧ 0 ≤ account.locked ∧ 0 ≤ account.unbonding) ∧
      ∀ (c : Call) (e : LedgerError) (s' : Session Db), (c.component = .ledger ∨ c.component = .stake) →
        c.run config env s = (.raises e, s') →
          s'.db.accounts = s.db.accounts ∧ s'.db.escrows = s.db.escrows ∧ s'.db.unbonding = s.db.unbonding ∧
            s'.db.operations = s.db.operations ∧ s'.db.totalSupply = s.db.totalSupply := by
  obtain ⟨hclean, hI⟩ := settled_conserved h
  refine ⟨hI.credits, hI.capped, ?_, ?_⟩
  · intro a account _
    exact ⟨account.balance_nonneg, account.locked_nonneg, account.unbonding_nonneg⟩
  · intro c e s' hc hrun
    have htransaction := Call.isTransaction_of_component hc
    obtain ⟨hdb, _⟩ := (Call.atomic_of_isTransaction config htransaction).raised hclean hrun
    rw [hdb]
    exact ⟨rfl, rfl, rfl, rfl, rfl⟩

/-- An account opened with credits, then a stake: the books balance. -/
theorem ledger_conservation_opened_and_staked :
    let s := runAll (countingEnv false) (Call.run sampleConfig)
      [.createAccount "alice" 100 none, .stake "alice" 60] Session.empty
    s.db.credits = s.db.totalSupply ∧ s.db.totalSupply = 100 :=
  ⟨(ledger_conservation sampleConfig (countingEnv false)
      (Reaches.start.runAll (by exact ⟨Or.inl rfl, by decide, Or.inr rfl, by decide, trivial⟩))).1, by decide⟩

end AgentNetwork
