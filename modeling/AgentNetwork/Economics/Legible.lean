import AgentNetwork.Economics.Transactions
import AgentNetwork.Economics.Effects

namespace AgentNetwork

open Relational Transactional Transactional.Prog

/-- The text of the column is JSON. -/
def Metadata.Readable (m : Metadata) : Prop := (Json.loads m.text).isSome = true

instance (m : Metadata) : Decidable m.Readable := inferInstanceAs (Decidable (_ = true))

/-- A row that `get_audit_trail` can read back. -/
def Operation.Readable (op : Operation) : Prop := (∃ kind, OpType.ofValue op.opType = .ok kind) ∧ op.metadata.Readable

/-- Every row of `operations` can be read back and nothing is unbonding. -/
structure Legible (db : Db) : Prop where
  rows : ∀ r ∈ db.operations.entries, r.2.Readable
  unbonding : db.unbonding = .empty

theorem legible_empty : Legible Db.empty := ⟨nofun, rfl⟩

theorem ofValue_value (kind : OpType) : OpType.ofValue kind.value = .ok kind := by
  cases kind <;> rfl

/-- What is written through `json.dumps` under one of the five types is readable. -/
theorem readable_of_dumps {a : String} {kind : OpType} {n t : Int} {m : Metadata} {fields : List (String × String)}
    (h : m.text = Json.dumps fields) : Operation.Readable ⟨a, kind.value, n, t, m⟩ := by
  refine ⟨⟨kind, ofValue_value kind⟩, ?_⟩
  show (Json.loads m.text).isSome = true
  rw [h, Json.loads_dumps]
  rfl

section Reading

open CreditLedger

theorem readRow_succeeds {r : String × Operation} (h : r.2.Readable) : ∃ op, readRow r = .ok op := by
  obtain ⟨⟨kind, hkind⟩, htext⟩ := h
  obtain ⟨metadata, hmetadata⟩ := Option.isSome_iff_exists.mp htext
  refine ⟨⟨r.1, r.2.accountId, kind, r.2.amount, r.2.timestampNs, metadata⟩, ?_⟩
  rw [readRow, hkind, hmetadata]
  rfl

theorem readRows_succeed {rows : List (String × Operation)} (h : ∀ r ∈ rows, r.2.Readable) :
    ∃ ops, rows.mapM readRow = .ok ops := by
  induction rows with
  | nil => exact ⟨[], rfl⟩
  | cons r rest ih =>
    obtain ⟨op, hop⟩ := readRow_succeeds (h r List.mem_cons_self)
    obtain ⟨ops, hops⟩ := ih fun x hx => h x (List.mem_cons_of_mem r hx)
    refine ⟨op :: ops, ?_⟩
    rw [List.mapM_cons, hop, hops]
    rfl

theorem mem_sqlLimit {α : Type} {limit : Int} {rows : List α} {r : α} (h : r ∈ sqlLimit limit rows) : r ∈ rows := by
  unfold sqlLimit at h
  split at h
  · exact h
  · exact List.mem_of_mem_take h

theorem auditRows_subset {accountId : Option String} {limit : Int} {db : Db} {r : String × Operation}
    (h : r ∈ auditRows accountId limit db) : r ∈ db.operations.entries := by
  have hsorted := (List.mem_insertionSort _).mp (mem_sqlLimit h)
  split at hsorted
  · exact (List.mem_filter.mp hsorted).1
  · exact hsorted

/-- A legible trail can be read under every filter and every limit. -/
theorem Legible.auditTrail {db : Db} (h : Legible db) (accountId : Option String) (limit : Int) :
    ∃ ops, getAuditTrail accountId limit db = .ok ops :=
  readRows_succeed fun r hr => h.rows r (auditRows_subset hr)

end Reading

section Statements

variable {db db' : Db}

theorem Legible.of_same (h : Legible db) (ho : db'.operations = db.operations) (hu : db'.unbonding = db.unbonding) :
    Legible db' := ⟨by rw [ho]; exact h.rows, hu.trans h.unbonding⟩

theorem insertAccount_legible {a : String} {n : Int} (h : Legible db) (hd : insertAccount a n db = .ok db') : Legible db' := by
  obtain ⟨_, _, _, rfl⟩ := insertAccount_ok.mp hd
  exact h.of_same rfl rfl

theorem updateAccount_legible {a : String} {b l u : Int} (h : Legible db) (hd : updateAccount a b l u db = .ok db') :
    Legible db' := by
  obtain ⟨_, hu, _, ho⟩ := updateAccount_frame hd
  exact h.of_same ho hu

theorem addSupply_legible {n : Int} (h : Legible db) (hd : addSupply n db = .ok db') : Legible db' := by
  unfold addSupply at hd
  split at hd
  · obtain rfl := Except.ok.inj hd
    exact h.of_same rfl rfl
  · simp at hd

theorem insertEscrow_legible {key : String} {e : Escrow} (h : Legible db) (hd : insertEscrow key e db = .ok db') :
    Legible db' := by
  obtain ⟨_, rfl⟩ := insertRow_ok.mp hd
  exact h.of_same rfl rfl

theorem markReleased_legible {key t : String} (h : Legible db) (hd : markReleased key t db = .ok db') : Legible db' := by
  obtain rfl := Except.ok.inj hd
  exact h.of_same rfl rfl

theorem insertSlashEvent_legible {key : String} {row : SlashRow} (h : Legible db) (hd : insertSlashEvent key row db = .ok db') :
    Legible db' := by
  obtain ⟨_, rfl⟩ := insertRow_ok.mp hd
  exact h.of_same rfl rfl

theorem insertOperation_legible {opId : String} {op : Operation} (hop : op.Readable) (h : Legible db)
    (hd : insertOperation opId op db = .ok db') : Legible db' := by
  obtain ⟨_, rfl⟩ := insertRow_ok.mp hd
  refine ⟨?_, h.unbonding⟩
  intro r hr
  obtain hr | hr := List.mem_append.mp hr
  · exact h.rows r hr
  · rw [List.mem_singleton.mp hr]
    exact hop

theorem recordOperation_legible {a opType : String} {n t : Int} {m : Metadata}
    (hop : Operation.Readable ⟨a, opType, n, t, m⟩) : Preserves Legible (recordOperation a opType n t m) :=
  (Preserves.readOnly ReadOnly.uuid4).bind fun _ => .execute (insertOperation_legible hop)

end Statements

namespace CreditLedger

theorem creditAccount_legible (a : String) (n : Int) : Preserves Legible (creditAccount a n) := by
  refine (Preserves.readOnly (ReadOnly.query _)).bind ?_
  intro found
  split
  · exact .execute updateAccount_legible
  · exact .execute insertAccount_legible

theorem createAccount_legible (a : String) (n : Int) (minter : Option String) : Preserves Legible (createAccount a n minter) := by
  refine (Preserves.readOnly (readOnly_validateAccountId a)).bind fun _ => ?_
  refine (Preserves.readOnly (ReadOnly.raiseIf _ _)).bind fun _ => ?_
  refine (Preserves.readOnly (ReadOnly.raiseIf _ _)).bind fun _ => ?_
  refine .withLock ((Preserves.readOnly (ReadOnly.query _)).bind fun _ => ?_)
  refine (Preserves.readOnly (ReadOnly.raiseIf _ _)).bind fun _ => ?_
  refine (Preserves.readOnly (ReadOnly.query _)).bind fun _ => ?_
  refine (Preserves.readOnly (ReadOnly.raiseIf _ _)).bind fun _ => .withConn ?_
  refine (Preserves.execute insertAccount_legible).bind fun _ => .runIf ?_
  refine (Preserves.readOnly ReadOnly.timeNs).bind fun _ => ?_
  exact (recordOperation_legible (readable_of_dumps rfl)).bind fun _ => .execute addSupply_legible

theorem transfer_legible (f t : String) (n : Int) (allow : Bool) : Preserves Legible (transfer f t n allow) := by
  refine (Preserves.readOnly (readOnly_validateAccountId f)).bind fun _ => ?_
  refine (Preserves.readOnly (readOnly_validateAccountId t)).bind fun _ => ?_
  refine (Preserves.readOnly (readOnly_validateAmount n)).bind fun _ => ?_
  refine .withLock ((Preserves.readOnly (ReadOnly.query _)).bind fun _ => ?_)
  refine (Preserves.readOnly (ReadOnly.raiseIf _ _)).bind fun _ => ?_
  refine (Preserves.readOnly (ReadOnly.query _)).bind fun _ => ?_
  refine (Preserves.readOnly (ReadOnly.raiseIf _ _)).bind fun _ => ?_
  refine (Preserves.runIf (.execute insertAccount_legible)).bind fun _ => .withConn ?_
  refine (Preserves.execute updateAccount_legible).bind fun _ => (creditAccount_legible t n).bind fun _ => ?_
  refine (Preserves.readOnly ReadOnly.uuid4).bind fun _ => (Preserves.readOnly ReadOnly.timeNs).bind fun _ => ?_
  refine (recordOperation_legible (readable_of_dumps rfl)).bind fun _ => ?_
  exact (recordOperation_legible (readable_of_dumps rfl)).bind fun _ => .readOnly (ReadOnly.pure _)

theorem escrow_legible (a : String) (n : Int) (key : String) : Preserves Legible (escrow a n key) := by
  refine (Preserves.readOnly (readOnly_validateAccountId a)).bind fun _ => ?_
  refine (Preserves.readOnly (readOnly_validateAmount n)).bind fun _ => ?_
  refine .withLock ((Preserves.readOnly (ReadOnly.query _)).bind fun _ => ?_)
  refine (Preserves.readOnly (ReadOnly.raiseIf _ _)).bind fun _ => .withConn ?_
  refine (Preserves.execute updateAccount_legible).bind fun _ => (Preserves.readOnly ReadOnly.timeNs).bind fun _ => ?_
  refine (Preserves.execute insertEscrow_legible).bind fun _ => (Preserves.readOnly ReadOnly.timeNs).bind fun _ => ?_
  exact recordOperation_legible (readable_of_dumps rfl)

theorem releaseEscrow_legible (key : Option String) (t : String) : Preserves Legible (releaseEscrow key t) := by
  refine (Preserves.readOnly (readOnly_validateAccountId t)).bind fun _ => .withLock (.withConn ?_)
  refine (Preserves.readOnly (readOnly_openEscrow key)).bind fun _ => ?_
  refine (Preserves.execute updateAccount_legible).bind fun _ => (creditAccount_legible _ _).bind fun _ => ?_
  refine (Preserves.execute markReleased_legible).bind fun _ => (Preserves.readOnly ReadOnly.timeNs).bind fun _ => ?_
  exact recordOperation_legible (readable_of_dumps rfl)

theorem cancelEscrow_legible (key : Option String) : Preserves Legible (cancelEscrow key) := by
  refine .withLock ((Preserves.readOnly (readOnly_openEscrow key)).bind fun _ => .withConn ?_)
  refine (Preserves.execute updateAccount_legible).bind fun _ => (Preserves.execute markReleased_legible).bind fun _ => ?_
  refine (Preserves.readOnly ReadOnly.timeNs).bind fun _ => ?_
  exact recordOperation_legible (readable_of_dumps rfl)

end CreditLedger

/-- Where nothing is unbonding a completion changes nothing. -/
theorem completeUnbonding_legible (a : String) : Preserves Legible (StakeManager.completeUnbonding a) := by
  intro env s n s' hI h
  obtain ⟨_, s₁, hbody, rfl⟩ := withLock_returns.mp h
  obtain ⟨now, _, htick, hbody⟩ := bind_returns.mp hbody
  obtain ⟨_, rfl⟩ := Prod.mk.inj htick
  obtain ⟨records, _, hquery, hbody⟩ := bind_returns.mp hbody
  obtain ⟨hrecords, rfl⟩ := Prod.mk.inj hquery
  have hnone : records = [] := by
    rw [← Outcome.returns.inj hrecords]
    show StakeManager.eligibleRecords a now s.db = []
    rw [StakeManager.eligibleRecords, hI.unbonding]
    rfl
  rw [hnone] at hbody
  obtain ⟨_, rfl⟩ := Prod.mk.inj hbody
  exact hI

/-- What a slash writes beside its account and amount. -/
def SlashEvent.row (event : SlashEvent) : Metadata :=
  .slash event.eventId event.reason.value event.severity event.evidenceHash

/-- A slash that takes nothing writes no operation. -/
theorem executeSlash_legible {env : Env} {s s' : Session Db} {u : Unit} {event : SlashEvent} (hI : Legible s.db)
    (hread : 0 < SlashingRules.taken event s.db → event.row.Readable)
    (h : SlashingRules.executeSlash event env s = (.returns u, s')) : Legible s'.db := by
  obtain ⟨_, s₁, hbody, hs'⟩ := withLock_returns.mp h
  obtain ⟨staked, _, hquery, hbody⟩ := bind_returns.mp hbody
  obtain ⟨hstaked, rfl⟩ := Prod.mk.inj hquery
  obtain ⟨s₂, hconn, hs₁⟩ := withConn_returns.mp hbody
  obtain ⟨_, s₃, hslash, hstore⟩ := bind_returns.mp hconn
  obtain ⟨d, hd, hs₂⟩ := execute_returns.mp hstore
  rw [hs', hs₁, hs₂]
  refine insertSlashEvent_legible ?_ hd
  obtain ⟨hpos, hrun⟩ | ⟨_, rfl⟩ := runIf_returns.mp hslash
  · have htaken : 0 < SlashingRules.taken event s.db := by
      rw [← Outcome.returns.inj hstaked] at hpos
      exact lt_max_of_lt_right hpos
    have hp : Preserves Legible (do
        execute (updateAccount event.accountId 0 (-(min staked event.amount)) 0)
        recordOperation event.accountId "SLASH" (min staked event.amount) event.timestamp
          (.slash event.eventId event.reason.value event.severity event.evidenceHash) : Econ Unit) :=
      (Preserves.execute updateAccount_legible).bind fun _ => recordOperation_legible ⟨⟨.slash, rfl⟩, hread htaken⟩
    exact hp _ { s with held := true } _ _ hI hrun
  · exact hI

end AgentNetwork
