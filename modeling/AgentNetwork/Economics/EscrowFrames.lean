import AgentNetwork.Economics.Effects
import AgentNetwork.Economics.Transactions

namespace AgentNetwork

open Relational Transactional Transactional.Prog

/-- A property that the escrows alone decide. -/
def OnEscrows (I : Db → Prop) : Prop := ∀ db db' : Db, db'.escrows = db.escrows → I db → I db'

theorem insertAccount_escrows {a : String} {n : Int} {db db' : Db} (h : insertAccount a n db = .ok db') :
    db'.escrows = db.escrows := by
  obtain ⟨_, _, _, rfl⟩ := insertAccount_ok.mp h
  rfl

namespace OnEscrows

variable {I : Db → Prop} (hI : OnEscrows I)

include hI

/-- A statement on another table. -/
theorem statement {f : Db → Except LedgerError Db} (h : ∀ {db db'}, f db = .ok db' → db'.escrows = db.escrows) :
    Preserves I (execute f) := .execute fun hdb hf => hI _ _ (h hf) hdb

theorem updateAccount (a : String) (b l u : Int) : Preserves I (execute (updateAccount a b l u)) :=
  hI.statement fun h => (updateAccount_frame h).1

theorem recordOperation (a opType : String) (n t : Int) (m : Metadata) : Preserves I (recordOperation a opType n t m) := by
  refine Preserves.bind (.readOnly ReadOnly.uuid4) fun _ => hI.statement ?_
  intro db db' h
  obtain ⟨_, rfl⟩ := insertRow_ok.mp h
  rfl

theorem creditAccount (a : String) (n : Int) : Preserves I (CreditLedger.creditAccount a n) := by
  refine Preserves.bind (.readOnly (ReadOnly.query _)) fun found => ?_
  split
  · exact hI.updateAccount _ _ _ _
  · exact hI.statement insertAccount_escrows

theorem createAccount (a : String) (n : Int) (minter : Option String) : Preserves I (CreditLedger.createAccount a n minter) := by
  refine Preserves.bind (.readOnly (readOnly_validateAccountId a)) fun _ => ?_
  refine Preserves.bind (.readOnly (ReadOnly.raiseIf _ _)) fun _ => Preserves.bind (.readOnly (ReadOnly.raiseIf _ _)) fun _ => ?_
  refine .withLock (Preserves.bind (.readOnly (ReadOnly.query _)) fun _ => ?_)
  refine Preserves.bind (.readOnly (ReadOnly.raiseIf _ _)) fun _ => Preserves.bind (.readOnly (ReadOnly.query _)) fun _ => ?_
  refine Preserves.bind (.readOnly (ReadOnly.raiseIf _ _)) fun _ => .withConn ?_
  refine Preserves.bind (hI.statement insertAccount_escrows) fun _ => .runIf ?_
  refine Preserves.bind (.readOnly ReadOnly.timeNs) fun _ => Preserves.bind (hI.recordOperation _ _ _ _ _) fun _ => ?_
  refine hI.statement ?_
  intro db db' h
  unfold addSupply at h
  split at h
  · obtain rfl := Except.ok.inj h
    rfl
  · cases h

theorem transfer (f t : String) (n : Int) (allow : Bool) : Preserves I (CreditLedger.transfer f t n allow) := by
  refine Preserves.bind (.readOnly (readOnly_validateAccountId f)) fun _ => ?_
  refine Preserves.bind (.readOnly (readOnly_validateAccountId t)) fun _ => ?_
  refine Preserves.bind (.readOnly (readOnly_validateAmount n)) fun _ => .withLock ?_
  refine Preserves.bind (.readOnly (ReadOnly.query _)) fun _ => Preserves.bind (.readOnly (ReadOnly.raiseIf _ _)) fun _ => ?_
  refine Preserves.bind (.readOnly (ReadOnly.query _)) fun _ => Preserves.bind (.readOnly (ReadOnly.raiseIf _ _)) fun _ => ?_
  refine Preserves.bind (.runIf (hI.statement insertAccount_escrows)) fun _ => .withConn ?_
  refine Preserves.bind (hI.updateAccount _ _ _ _) fun _ => Preserves.bind (hI.creditAccount t n) fun _ => ?_
  refine Preserves.bind (.readOnly ReadOnly.uuid4) fun _ => Preserves.bind (.readOnly ReadOnly.timeNs) fun _ => ?_
  refine Preserves.bind (hI.recordOperation _ _ _ _ _) fun _ => ?_
  exact Preserves.bind (hI.recordOperation _ _ _ _ _) fun _ => .readOnly (ReadOnly.pure _)

/-- An escrow adds a row. -/
theorem escrow (a : String) (n : Int) (key : String)
    (hinsert : ∀ row db db', insertEscrow key row db = .ok db' → I db → I db') : Preserves I (CreditLedger.escrow a n key) := by
  refine Preserves.bind (.readOnly (readOnly_validateAccountId a)) fun _ => ?_
  refine Preserves.bind (.readOnly (readOnly_validateAmount n)) fun _ => .withLock ?_
  refine Preserves.bind (.readOnly (ReadOnly.query _)) fun _ => Preserves.bind (.readOnly (ReadOnly.raiseIf _ _)) fun _ => ?_
  refine .withConn (Preserves.bind (hI.updateAccount _ _ _ _) fun _ => Preserves.bind (.readOnly ReadOnly.timeNs) fun _ => ?_)
  refine Preserves.bind (.execute fun hdb h => hinsert _ _ _ h hdb) fun _ => ?_
  exact Preserves.bind (.readOnly ReadOnly.timeNs) fun _ => hI.recordOperation _ _ _ _ _

/-- A release marks the row of the key. -/
theorem releaseEscrow (key : Option String) (t : String)
    (hmark : ∀ k, key = some k → ∀ db db', markReleased k t db = .ok db' → I db → I db') :
    Preserves I (CreditLedger.releaseEscrow key t) := by
  refine Preserves.bind (.readOnly (readOnly_validateAccountId t)) fun _ => .withLock (.withConn ?_)
  intro env s u s' hdb h
  obtain ⟨⟨k, e⟩, s₁, hopen, hrest⟩ := bind_returns.mp h
  obtain ⟨hkey, _, _, hsame⟩ := CreditLedger.openEscrow_returns.mp hopen
  have hbody : Preserves I (do
      execute (AgentNetwork.updateAccount e.accountId 0 (-e.amount) 0)
      CreditLedger.creditAccount t e.amount
      execute (markReleased k t)
      let timestamp ← timeNs
      AgentNetwork.recordOperation t OpType.release.value e.amount timestamp (.release k e.accountId) : Econ Unit) := by
    refine Preserves.bind (hI.updateAccount _ _ _ _) fun _ => Preserves.bind (hI.creditAccount _ _) fun _ => ?_
    refine Preserves.bind (.execute fun hdb h => hmark k hkey _ _ h hdb) fun _ => ?_
    exact Preserves.bind (.readOnly ReadOnly.timeNs) fun _ => hI.recordOperation _ _ _ _ _
  exact hbody env s₁ u s' (hsame ▸ hdb) hrest

theorem cancelEscrow (key : Option String)
    (hmark : ∀ k, key = some k → ∀ t db db', markReleased k t db = .ok db' → I db → I db') :
    Preserves I (CreditLedger.cancelEscrow key) := by
  refine .withLock ?_
  intro env s u s' hdb h
  obtain ⟨⟨k, e⟩, s₁, hopen, hrest⟩ := bind_returns.mp h
  obtain ⟨hkey, _, _, hsame⟩ := CreditLedger.openEscrow_returns.mp hopen
  have hbody : Preserves I (withConn do
      execute (AgentNetwork.updateAccount e.accountId e.amount (-e.amount) 0)
      execute (markReleased k e.accountId)
      let timestamp ← timeNs
      AgentNetwork.recordOperation e.accountId OpType.escrow.value (-e.amount) timestamp (.cancel k) : Econ Unit) := by
    refine .withConn (Preserves.bind (hI.updateAccount _ _ _ _) fun _ => ?_)
    refine Preserves.bind (.execute fun hdb h => hmark k hkey _ _ _ h hdb) fun _ => ?_
    exact Preserves.bind (.readOnly ReadOnly.timeNs) fun _ => hI.recordOperation _ _ _ _ _
  exact hbody env s₁ u s' (hsame ▸ hdb) hrest

theorem stake (a : String) (n : Int) : Preserves I (StakeManager.stake a n) := by
  refine Preserves.bind (.readOnly (ReadOnly.raiseIf _ _)) fun _ => .withLock ?_
  refine Preserves.bind (.readOnly (ReadOnly.query _)) fun _ => Preserves.bind (.readOnly (ReadOnly.raiseIf _ _)) fun _ => ?_
  refine .withConn (Preserves.bind (hI.updateAccount _ _ _ _) fun _ => ?_)
  exact Preserves.bind (.readOnly ReadOnly.timeNs) fun _ => hI.recordOperation _ _ _ _ _

theorem unstake (period : Int) (a : String) (n : Int) : Preserves I (StakeManager.unstake period a n) := by
  refine Preserves.bind (.readOnly (ReadOnly.raiseIf _ _)) fun _ => .withLock ?_
  refine Preserves.bind (.readOnly (ReadOnly.query _)) fun _ => Preserves.bind (.readOnly (ReadOnly.raiseIf _ _)) fun _ => ?_
  refine Preserves.bind (.readOnly ReadOnly.timeNs) fun _ => Preserves.bind (.readOnly ReadOnly.uuid4) fun _ => ?_
  refine Preserves.bind (.withConn ?_) fun _ => .readOnly (ReadOnly.pure _)
  refine Preserves.bind (hI.updateAccount _ _ _ _) fun _ => Preserves.bind (hI.statement ?_) fun _ => hI.recordOperation _ _ _ _ _
  intro db db' h
  obtain ⟨_, rfl⟩ := insertRow_ok.mp h
  rfl

theorem completeUnbonding (a : String) : Preserves I (StakeManager.completeUnbonding a) := by
  refine .withLock (Preserves.bind (.readOnly ReadOnly.timeNs) fun _ => Preserves.bind (.readOnly (ReadOnly.query _)) fun records => ?_)
  split
  · exact .readOnly (ReadOnly.pure _)
  · refine Preserves.bind (.withConn ?_) fun _ => .readOnly (ReadOnly.pure _)
    refine Preserves.bind (hI.updateAccount _ _ _ _) fun _ => .forEach _ fun record => ?_
    refine Preserves.bind (hI.statement ?_) fun _ => hI.recordOperation _ _ _ _ _
    intro db db' h
    obtain rfl := Except.ok.inj h
    rfl

theorem executeSlash (event : SlashEvent) : Preserves I (SlashingRules.executeSlash event) := by
  refine .withLock (Preserves.bind (.readOnly (ReadOnly.query _)) fun _ => .withConn ?_)
  refine Preserves.bind (.runIf ?_) fun _ => hI.statement ?_
  · exact Preserves.bind (hI.updateAccount _ _ _ _) fun _ => hI.recordOperation _ _ _ _ _
  · intro db db' h
    obtain ⟨_, rfl⟩ := insertRow_ok.mp h
    rfl

end OnEscrows

end AgentNetwork
