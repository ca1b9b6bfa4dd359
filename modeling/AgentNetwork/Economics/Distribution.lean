import AgentNetwork.Economics.Lifecycle
import AgentNetwork.Economics.Shares

namespace AgentNetwork

open Relational Transactional Transactional.Prog

/-- The distribution completes, or raises and leaves accounts, escrows,
operations and bounties as they were. -/
structure AllOrNothing (env : Env) (bountyId : String) (recipients : Table String Int) (s : Session Db) : Prop where
  completes : ∀ s', BountyManager.distributeBounty bountyId recipients env s = (.returns (), s') →
    ∃ bounty, s'.db.bounties.get? bountyId = some bounty ∧ bounty.status = .distributed
  undone : ∀ e s', BountyManager.distributeBounty bountyId recipients env s = (.raises e, s') →
    s'.db.accounts = s.db.accounts ∧ s'.db.escrows = s.db.escrows ∧ s'.db.operations = s.db.operations ∧
      s'.db.bounties = s.db.bounties
  ends : (BountyManager.distributeBounty bountyId recipients env s).1 ≠ .blocks

section Outcomes

variable {env : Env} {bountyId : String} {recipients : Table String Int} {s s' : Session Db}

theorem allOrNothing_of_returns (h : BountyManager.distributeBounty bountyId recipients env s = (.returns (), s'))
    (hdone : ∃ bounty, s'.db.bounties.get? bountyId = some bounty ∧ bounty.status = .distributed) :
    AllOrNothing env bountyId recipients s where
  completes s'' h' := by
    cases (Prod.mk.inj (h.symm.trans h')).2
    exact hdone
  undone e s'' h' := nomatch h.symm.trans h'
  ends := by simp [h]

theorem allOrNothing_of_raises {e : LedgerError}
    (h : BountyManager.distributeBounty bountyId recipients env s = (.raises e, s')) (hdb : s'.db = s.db) :
    AllOrNothing env bountyId recipients s where
  completes s'' h' := nomatch h.symm.trans h'
  undone e' s'' h' := by
    cases (Prod.mk.inj (h.symm.trans h')).2
    rw [hdb]
    exact ⟨rfl, rfl, rfl, rfl⟩
  ends := by simp [h]

/-- The same, computed from the run. -/
def completesOrUndoes (env : Env) (bountyId : String) (recipients : Table String Int) (s : Session Db) : Bool :=
  match BountyManager.distributeBounty bountyId recipients env s with
  | (.returns _, s') => (s'.db.bounties.get? bountyId).any fun bounty => bounty.status = .distributed
  | (.raises _, s') => s'.db.accounts = s.db.accounts ∧ s'.db.escrows = s.db.escrows ∧
      s'.db.operations = s.db.operations ∧ s'.db.bounties = s.db.bounties
  | (.blocks, _) => false

theorem completesOrUndoes_iff : completesOrUndoes env bountyId recipients s = true ↔ AllOrNothing env bountyId recipients s := by
  unfold completesOrUndoes
  cases hrun : BountyManager.distributeBounty bountyId recipients env s with
  | mk out s' =>
    cases out with
    | returns u =>
      rw [Option.any_eq_true]
      constructor
      · rintro ⟨bounty, hg, hstatus⟩
        exact allOrNothing_of_returns hrun ⟨bounty, hg, by simpa using hstatus⟩
      · intro h
        obtain ⟨bounty, hg, hstatus⟩ := h.completes _ hrun
        exact ⟨bounty, hg, by simpa using hstatus⟩
    | raises e =>
      rw [decide_eq_true_iff]
      constructor
      · intro h
        refine ⟨fun _ h' => (by cases hrun.symm.trans h'), fun _ _ h' => ?_, by simp [hrun]⟩
        cases (Prod.mk.inj (hrun.symm.trans h')).2
        exact h
      · exact fun h => h.undone _ _ hrun
    | blocks => simpa using fun h : AllOrNothing env bountyId recipients s => h.ends (by rw [hrun])

instance : Decidable (AllOrNothing env bountyId recipients s) := decidable_of_iff _ completesOrUndoes_iff

end Outcomes

/-- A bounty in escrow, with locked funds of its creator behind it. -/
structure InEscrow (bountyId : String) (bounty : Bounty) (db : Db) : Prop where
  row : db.bounties.get? bountyId = some bounty
  status : bounty.status = .escrowed
  positive : 0 < bounty.amount
  backed : ∃ key e account, bounty.escrowId = some key ∧ db.escrows.get? key = some e ∧ e.released = false ∧
    e.amount = bounty.amount ∧ e.accountId = bounty.creatorId ∧ db.accounts.get? bounty.creatorId = some account ∧
      bounty.amount ≤ account.locked

/-- The account can be paid `r.2` credits by the first recipient. -/
def Payee (first : String) (db : Db) (r : String × Int) : Prop :=
  isBlank r.1 = false ∧ 0 < r.2 ∧ (db.accounts.contains r.1 = true ∨ r.1 = first)

/-- What goes on from the first recipient: the other shares, then the burn. -/
def onward (amount : Int) (recipients : Table String Int) (rest : List (String × Int)) : List (String × Int) :=
  rest ++ if 0 < amount - distributed recipients then [("burn", amount - distributed recipients)] else []

/-- The release is refused, or each payment that follows it goes through. -/
def Distributable (amount : Int) (recipients : Table String Int) (db : Db) : Prop :=
  ∀ first n rest, recipients.entries = (first, n) :: rest →
    isBlank first = true ∨ ∀ r ∈ onward amount recipients rest, Payee first db r

/-- Between the release and the end: the first recipient still has what is to
be passed on and the escrow is closed. -/
structure Underway (first key : String) (left : Int) (env : Env) (start : Db) (s : Session Db) : Prop where
  clean : s.db = s.committed
  funds : left ≤ CreditLedger.getBalance first s.db
  accounts : ∀ j, s.db.accounts.contains j = true ↔ start.accounts.contains j = true ∨ j = first
  closed : ∃ e, s.db.escrows.get? key = some e ∧ e.released = true
  bounties : s.db.bounties = start.bounties
  fresh : Fresh env s.draws s.db

section Payments

variable {env : Env} {first key : String} {left : Int} {start : Db} {s : Session Db}

/-- One payment on: it goes through to a payee and else is refused. -/
theorem Underway.transfer {r : String × Int} (h : Underway first key (r.2 + left) env start s) (hlock : env.reentrant = true)
    (hinj : Function.Injective env.uuid4) (hfirst : isBlank first = false) (hleft : 0 ≤ left) :
    (Payee first start r ∧ ∃ opId s', CreditLedger.transfer first r.1 r.2 false env s = (.returns opId, s') ∧
      Underway first key left env start s') ∨
    (¬Payee first start r ∧ ∃ e, CreditLedger.transfer first r.1 r.2 false env s = (.raises e, s)) := by
  by_cases hp : Payee first start r
  · refine Or.inl ⟨hp, ?_⟩
    obtain ⟨hblank, hpos, hexists⟩ := hp
    have hfunds := h.funds
    have hready : CreditLedger.Transferable first r.1 r.2 s.db :=
      ⟨hfirst, hblank, hpos, by omega, (h.accounts r.1).mpr hexists⟩
    obtain ⟨opId, d, hrun, hpaid, hfresh⟩ := CreditLedger.transfer_succeeds (Or.inr hlock) hinj h.fresh hready
    obtain ⟨accounts, operations, hrest⟩ := hpaid.rest
    refine ⟨opId, _, hrun, rfl, ?_, ?_, ?_, ?_, hfresh⟩
    · show left ≤ CreditLedger.getBalance first d
      rw [hpaid.balance]
      split_ifs <;> omega
    · intro j
      show d.accounts.contains j = true ↔ _
      rw [hpaid.contains]
      exact h.accounts j
    · show ∃ e, d.escrows.get? key = some e ∧ e.released = true
      rw [hrest]
      exact h.closed
    · show d.bounties = _
      rw [hrest]
      exact h.bounties
  · refine Or.inr ⟨hp, CreditLedger.transfer_refuses (Or.inr hlock) ?_⟩
    intro hready
    exact hp ⟨hready.toId, hready.amount, (h.accounts r.1).mp hready.recipient⟩

/-- The loop of transfers goes through exactly when all are to payees; where it
raises, the escrow stays closed. -/
theorem Underway.transfers {rest : List (String × Int)} (h : Underway first key ((rest.map Prod.snd).sum + left) env start s)
    (hlock : env.reentrant = true) (hinj : Function.Injective env.uuid4) (hfirst : isBlank first = false)
    (hleft : 0 ≤ left) (hrest : ∀ r ∈ rest, 0 ≤ r.2) :
    ((∀ r ∈ rest, Payee first start r) ∧ ∃ s', forEach rest (fun r => do
        let _ ← CreditLedger.transfer first r.1 r.2 false
        pure ()) env s = (.returns (), s') ∧ Underway first key left env start s') ∨
    ((¬∀ r ∈ rest, Payee first start r) ∧ ∃ e s', forEach rest (fun r => do
        let _ ← CreditLedger.transfer first r.1 r.2 false
        pure ()) env s = (.raises e, s') ∧ ∃ e, s'.db.escrows.get? key = some e ∧ e.released = true) := by
  induction rest generalizing s with
  | nil =>
    refine Or.inl ⟨by simp, s, rfl, ?_⟩
    simpa using h
  | cons r rest ih =>
    have hrest' : ∀ x ∈ rest, 0 ≤ x.2 := fun x hx => hrest x (List.mem_cons_of_mem r hx)
    have hsum : 0 ≤ (rest.map Prod.snd).sum := by
      refine List.sum_nonneg ?_
      intro n hn
      obtain ⟨x, hx, rfl⟩ := List.mem_map.mp hn
      exact hrest' x hx
    rw [List.map_cons, List.sum_cons, add_assoc] at h
    rw [forEach_cons]
    obtain ⟨hp, opId, s₁, hrun, hunder⟩ | ⟨hp, e, hrun⟩ := h.transfer hlock hinj hfirst (by omega)
    · have hfirstRun : (do
          let _ ← CreditLedger.transfer first r.1 r.2 false
          pure () : Econ Unit) env s = (.returns (), s₁) := by rw [bind_of_returns hrun]; rfl
      rw [bind_of_returns hfirstRun]
      obtain ⟨hall, hloop⟩ | ⟨hsome, hloop⟩ := ih hunder hrest'
      · exact Or.inl ⟨List.forall_mem_cons.mpr ⟨hp, hall⟩, hloop⟩
      · refine Or.inr ⟨?_, hloop⟩
        exact fun hall => hsome fun x hx => hall x (List.mem_cons_of_mem r hx)
    · refine Or.inr ⟨fun hall => hp (hall r List.mem_cons_self), e, s, ?_, h.closed⟩
      rw [bind_of_raises (bind_of_raises hrun)]

end Payments

namespace BountyManager

variable {env : Env} {s : Session Db} {bountyId : String} {bounty : Bounty} {recipients : Table String Int}

/-- The other recipients are those after the first. -/
theorem filter_ne_first {first : String} {n : Int} {rest : List (String × Int)} (h : recipients.entries = (first, n) :: rest) :
    (recipients.entries.filter fun r => r.1 ≠ first) = rest := by
  have hnodup := recipients.keysNodup
  rw [h, List.map_cons, List.nodup_cons] at hnodup
  rw [h, List.filter_cons_of_neg (by simp), List.filter_eq_self]
  intro r hr
  have hne : r.1 ≠ first := fun he => hnodup.1 (List.mem_map.mpr ⟨r, hr, he⟩)
  simpa using hne

/-- What the ledger calls of a distribution come to after a release. -/
theorem payRecipients_cases (hlock : env.reentrant = true) (hinj : Function.Injective env.uuid4)
    (hfresh : Fresh env s.draws s.db) {key first : String} {e : Escrow} {account : Account} {n : Int}
    {rest : List (String × Int)} (hentries : recipients.entries = (first, n) :: rest) (hfirst : isBlank first = false)
    (hg : s.db.escrows.get? key = some e) (hr : e.released = false) (hpos : 0 < e.amount)
    (ha : s.db.accounts.get? e.accountId = some account) (hcover : e.amount ≤ account.locked)
    (hnonneg : ∀ r ∈ recipients.entries, 0 ≤ r.2) (htotal : distributed recipients ≤ e.amount) :
    ((∀ r ∈ onward e.amount recipients rest, Payee first s.db r) ∧ ∃ s',
      payRecipients (some key) e.amount recipients env s = (.returns (), s') ∧ s'.db.bounties = s.db.bounties) ∨
    ((¬∀ r ∈ onward e.amount recipients rest, Payee first s.db r) ∧ ∃ error s',
      payRecipients (some key) e.amount recipients env s = (.raises error, s') ∧
        ∃ e, s'.db.escrows.get? key = some e ∧ e.released = true) := by
  obtain ⟨d, hrelease, hreleased, hfresh'⟩ := CreditLedger.releaseEscrow_succeeds (Or.inr hlock) hfirst hg hr hpos ha hcover
    (hfresh s.draws (le_refl _))
  have hrest : ∀ r ∈ rest, 0 ≤ r.2 := fun r hr => hnonneg r (hentries ▸ List.mem_cons_of_mem _ hr)
  have hn : 0 ≤ n := hnonneg (first, n) (hentries ▸ List.mem_cons_self)
  have hsum : distributed recipients = n + (rest.map Prod.snd).sum := by
    rw [distributed, hentries, List.map_cons, List.sum_cons]
  have hbalance : 0 ≤ CreditLedger.getBalance first s.db := by
    cases hacc : s.db.accounts.get? first with
    | none => rw [getBalance_of_missing hacc]
    | some row =>
      rw [getBalance_of_get? hacc]
      exact row.balance_nonneg
  let burnAmount := e.amount - distributed recipients
  have hburn0 : 0 ≤ burnAmount := by
    show 0 ≤ e.amount - _
    omega
  have hunder : Underway first key ((rest.map Prod.snd).sum + burnAmount) env s.db
      ⟨d, d, s.held, s.draws + 1, s.ticks + 1⟩ := by
    refine ⟨rfl, ?_, hreleased.contains, ⟨_, hreleased.closed, rfl⟩, hreleased.bounties, hfresh' hinj hfresh⟩
    show _ ≤ CreditLedger.getBalance first d
    rw [hreleased.balance, if_pos rfl]
    show _ + (e.amount - _) ≤ _
    omega
  have hprog : payRecipients (some key) e.amount recipients env s = (do
      forEach rest fun r => do
        let _ ← CreditLedger.transfer first r.1 r.2 false
        pure ()
      runIf (burnAmount > 0) do
        let _ ← query (CreditLedger.getAccount "burn")
        let _ ← CreditLedger.transfer first "burn" burnAmount false
        pure () : Econ Unit) env ⟨d, d, s.held, s.draws + 1, s.ticks + 1⟩ := by
    have hothers := filter_ne_first hentries
    unfold payRecipients
    simp only [hentries]
    rw [bind_of_returns hrelease, ← hentries, hothers]
    rfl
  rw [hprog]
  obtain ⟨hall, s₁, hloop, hunder₁⟩ | ⟨hsome, error, s₁, hloop, hclosed⟩ :=
    hunder.transfers hlock hinj hfirst hburn0 hrest
  · rw [bind_of_returns hloop, runIf_apply]
    by_cases hburn : burnAmount > 0
    · rw [if_pos hburn, bind_of_returns (query_apply _)]
      have honward : onward e.amount recipients rest = rest ++ [("burn", burnAmount)] := by
        rw [onward, if_pos hburn]
      have hunder₂ : Underway first key ((("burn", burnAmount) : String × Int).2 + 0) env s.db s₁ := by simpa using hunder₁
      obtain ⟨hp, opId, s₂, hrun, hunder₃⟩ | ⟨hp, error, hrun⟩ := hunder₂.transfer hlock hinj hfirst (le_refl 0)
      · refine Or.inl ⟨?_, s₂, by rw [bind_of_returns hrun]; rfl, hunder₃.bounties⟩
        rw [honward]
        exact List.forall_mem_append.mpr ⟨hall, List.forall_mem_singleton.mpr hp⟩
      · refine Or.inr ⟨?_, error, s₁, bind_of_raises hrun, hunder₁.closed⟩
        rw [honward]
        exact fun hevery => hp (hevery _ (List.mem_append_right _ List.mem_cons_self))
    · rw [if_neg hburn]
      refine Or.inl ⟨?_, s₁, rfl, hunder₁.bounties⟩
      rw [onward, if_neg hburn, List.append_nil]
      exact hall
  · refine Or.inr ⟨?_, error, s₁, bind_of_raises hloop, hclosed⟩
    exact fun hevery => hsome fun r hr => hevery r (List.mem_append_left _ hr)

/-- A distribution gets as far as its ledger calls. -/
theorem distributeBounty_apply (hlock : env.reentrant = true) (h : InEscrow bountyId bounty s.db)
    (htotal : distributed recipients ≤ bounty.amount) :
    distributeBounty bountyId recipients env s = withLock (do
      payRecipients bounty.escrowId bounty.amount recipients
      withConn do
        let distributedAt ← timeNs
        execute (updateBounty bountyId fun b => { b with distributedAt := some distributedAt, status := .distributed })) env s := by
  have hfind : findBounty bountyId env { s with held := true } = (.returns bounty, { s with held := true }) :=
    findBounty_returns.mpr ⟨h.row, rfl⟩
  have hnot : ¬bounty.status ≠ .escrowed := fun hne => hne h.status
  have hle : ¬(recipients.entries.map Prod.snd).sum > bounty.amount := not_lt.mpr htotal
  rw [distributeBounty, withLock_apply _ (Or.inr hlock), withLock_apply _ (Or.inr hlock), bind_of_returns hfind,
    bind_of_returns (raiseIf_of_not hnot), bind_of_returns (raiseIf_of_not hle)]

/-- Once all is paid the bounty is marked, which never fails. -/
theorem markDistributed (env : Env) {key : String} {row : Bounty} {s₁ : Session Db} (hg : s₁.db.bounties.get? key = some row) :
    ∃ s₂, withConn (do
        let distributedAt ← timeNs
        execute (updateBounty key fun b => { b with distributedAt := some distributedAt, status := .distributed }))
          env s₁ = (.returns (), s₂) ∧
      ∃ b, s₂.db.bounties.get? key = some b ∧ b.status = .distributed := by
  refine ⟨_, withConn_returns.mpr ⟨_, bind_returns.mpr ⟨_, _, timeNs_apply, execute_returns.mpr ⟨_, rfl, rfl⟩⟩, rfl⟩, ?_⟩
  simp [hg]

end BountyManager

open PayoutDistributor

/-- A payout stops at its checks and leaves the data alone, or it distributes the
shares it has calculated. -/
theorem executePayout_cases {env : Env} {s s' : Session Db} {distributor : PayoutDistributor} {bountyId taskId : String}
    {committee : List String} {completionTime : Int} {challenger : Option String} {currentTime : Option Int}
    {out : Outcome LedgerError Unit}
    (h : executePayout distributor bountyId taskId committee completionTime challenger currentTime env s = (out, s')) :
    (∃ e, out = .raises e ∧ s'.db = s.db ∧ s'.committed = s.committed) ∨
      ∃ bounty shares s₁, s.db.bounties.get? bountyId = some bounty ∧
        calculateShares bounty.amount committee challenger = .ok shares ∧ s₁.db = s.db ∧ s₁.committed = s.committed ∧
        BountyManager.distributeBounty bountyId (recipientsOf shares) env s₁ = (out, s') := by
  obtain ⟨now, s₁, hclock, hdb, hcommitted⟩ := timestampOr_returns currentTime env s
  have hrefused {e : LedgerError} (h : (Outcome.raises e, s₁) = (out, s')) :
      ∃ e, out = .raises e ∧ s'.db = s.db ∧ s'.committed = s.committed := by
    obtain ⟨rfl, rfl⟩ := Prod.mk.inj h
    exact ⟨e, rfl, hdb, hcommitted⟩
  rw [executePayout, bind_of_returns hclock] at h
  by_cases hwait : (distributor.canPayout taskId completionTime now).1 = false
  · exact Or.inl (hrefused ((bind_of_raises (raiseIf_of hwait)).symm.trans h))
  have h := (bind_of_returns (raiseIf_of_not hwait)).symm.trans h
  by_cases hrelated : distributor.validateRelatedPartiesAdvanced committee challenger = false
  · exact Or.inl (hrefused ((bind_of_raises (raiseIf_of hrelated)).symm.trans h))
  have h := (bind_of_returns (raiseIf_of_not hrelated)).symm.trans h
  have h := (bind_of_returns (query_apply _)).symm.trans h
  cases hg : s₁.db.bounties.get? bountyId with
  | none =>
    rw [BountyManager.getBounty, hg] at h
    exact Or.inl (hrefused h)
  | some bounty =>
    rw [BountyManager.getBounty, hg] at h
    cases hshares : calculateShares bounty.amount committee challenger with
    | error e =>
      simp only [hshares] at h
      exact Or.inl (hrefused h)
    | ok shares =>
      simp only [hshares] at h
      exact Or.inr ⟨bounty, shares, s₁, hdb ▸ hg, hshares, hdb, hcommitted, h⟩

/-- A payout is all or nothing exactly when its release is refused or every
payment after it can be made. -/
theorem distributeBounty_allOrNothing_iff {env : Env} {s : Session Db} {bountyId : String} {bounty : Bounty}
    (hlock : env.reentrant = true) (hinj : Function.Injective env.uuid4) (hfresh : Fresh env s.draws s.db)
    (h : InEscrow bountyId bounty s.db) {committee : List String} {challenger : Option String} {shares : List PayoutShare}
    (hshares : calculateShares bounty.amount committee challenger = .ok shares) :
    AllOrNothing env bountyId (recipientsOf shares) s ↔ Distributable bounty.amount (recipientsOf shares) s.db := by
  obtain ⟨hnonneg, hsum, paid, hpaid, htype⟩ := calculateShares_ok (le_of_lt h.positive) hshares
  have htotal : distributed (recipientsOf shares) ≤ bounty.amount := by
    rw [distributed_recipientsOf]
    exact hsum
  obtain ⟨key, e, account, hkey, hg, hr, hamount, hcreator, ha, hcover⟩ := h.backed
  rw [← hcreator] at ha
  have hpos := h.positive
  rw [← hamount] at hpos hcover htotal
  cases hentries : (recipientsOf shares).entries with
  | nil =>
    obtain ⟨n, hn⟩ := Table.contains_eq_true_iff.mp (recipientsOf_contains hpaid htype)
    exact absurd (Table.get?_eq_some_iff.mp hn) (by simp [hentries])
  | cons r rest =>
    obtain ⟨first, n⟩ := r
    have hiff : Distributable bounty.amount (recipientsOf shares) s.db ↔
        isBlank first = true ∨ ∀ r ∈ onward e.amount (recipientsOf shares) rest, Payee first s.db r := by
      rw [← hamount]
      constructor
      · exact fun hd => hd first n rest hentries
      · intro hd first' n' rest' hentries'
        obtain ⟨hhead, htail⟩ := List.cons.inj (hentries.symm.trans hentries')
        cases hhead
        cases htail
        exact hd
    have hrun := BountyManager.distributeBounty_apply hlock h (hamount ▸ htotal)
    rw [withLock_apply _ (Or.inr hlock), hkey, ← hamount] at hrun
    rw [hiff]
    by_cases hfirst : isBlank first = true
    · have hrefused : BountyManager.payRecipients (some key) e.amount (recipientsOf shares) env { s with held := true } =
          (.raises (.valueError "Account ID cannot be empty"), { s with held := true }) := by
        unfold BountyManager.payRecipients
        simp only [hentries]
        exact bind_of_raises (bind_of_raises (raiseIf_of hfirst))
      rw [bind_of_raises hrefused] at hrun
      exact ⟨fun _ => Or.inl hfirst, fun _ => allOrNothing_of_raises hrun rfl⟩
    · have hcases := BountyManager.payRecipients_cases (s := { s with held := true }) hlock hinj hfresh hentries
        (by simpa using hfirst) hg hr hpos ha hcover (recipientsOf_nonneg hnonneg) htotal
      obtain ⟨hall, s₁, hpaid, hbounties⟩ | ⟨hsome, error, s₁, hpaid, e', hg', hr'⟩ := hcases
      · obtain ⟨s₂, hmark, hdone⟩ := BountyManager.markDistributed env (hbounties ▸ h.row)
        rw [bind_of_returns hpaid, hmark] at hrun
        exact ⟨fun _ => Or.inr hall, fun _ => allOrNothing_of_returns hrun hdone⟩
      · rw [bind_of_raises hpaid] at hrun
        constructor
        · intro hdone
          -- the escrow is closed for good
          have hescrows : s₁.db.escrows = s.db.escrows := (hdone.undone _ _ hrun).2.1
          rw [hescrows, hg] at hg'
          cases Option.some.inj hg'
          exact absurd (hr.symm.trans hr') (by decide)
        · rintro (hblank | hall)
          · exact absurd hblank hfirst
          · exact absurd hall hsome

/-- A connection to a database with one bounty of Alice's in escrow. -/
def sampleEscrow (amount : Int) (accounts : Table String Account) : Session Db :=
  let bounty : Bounty := ⟨"task", amount, .simple, "alice", some "job", 0, some 0, none, .escrowed⟩
  let db : Db := { Db.empty with
    accounts := accounts
    escrows := .upsert .empty "job" ⟨"alice", amount, 0, false, none⟩
    bounties := .upsert .empty "bounty" bounty }
  ⟨db, db, false, 0, 0⟩

/-- Alice with ten credits locked, and two verifiers. -/
def sampleAccounts : Table String Account :=
  .upsert (.upsert (.upsert .empty "alice" ⟨0, 10, 0, by decide, by decide, by decide⟩)
    "north" ⟨0, 0, 0, by decide, by decide, by decide⟩) "south" ⟨0, 0, 0, by decide, by decide, by decide⟩

/-- Three credits for two verifiers: two for the first and one for the second. -/
theorem distributeBounty_allOrNothing_iff_two_verifiers :
    AllOrNothing (countingEnv true) "bounty" (recipientsOf (committeeShares 3 ["north", "south"])) (sampleEscrow 3 sampleAccounts) := by
  have hstate : InEscrow "bounty" ⟨"task", 3, .simple, "alice", some "job", 0, some 0, none, .escrowed⟩
      (sampleEscrow 3 sampleAccounts).db :=
    ⟨by decide, rfl, by decide, "job", ⟨"alice", 3, 0, false, none⟩, ⟨0, 10, 0, by decide, by decide, by decide⟩, by decide⟩
  have hshares : calculateShares 3 ["north", "south"] none = .ok (committeeShares 3 ["north", "south"]) := by decide
  have hiff : AllOrNothing (countingEnv true) "bounty" (recipientsOf (committeeShares 3 ["north", "south"]))
      (sampleEscrow 3 sampleAccounts) ↔
        Distributable 3 (recipientsOf (committeeShares 3 ["north", "south"])) (sampleEscrow 3 sampleAccounts).db :=
    distributeBounty_allOrNothing_iff rfl (countingEnv_injective true) (fun _ _ => rfl) hstate hshares
  refine hiff.mpr ?_
  intro first n rest hentries
  have hlist : (recipientsOf (committeeShares 3 ["north", "south"])).entries = [("north", 2), ("south", 1)] := by decide
  obtain ⟨hhead, htail⟩ := List.cons.inj (hlist.symm.trans hentries)
  cases hhead
  cases htail
  refine Or.inr ?_
  unfold Payee
  decide +kernel

/-- One credit for two verifiers: the second has no share, and the first keeps
the credit while the bounty stays in escrow. -/
theorem distributeBounty_stops_halfway :
    let env := countingEnv true
    let s := sampleEscrow 1 sampleAccounts
    let recipients := recipientsOf (committeeShares 1 ["north", "south"])
    InEscrow "bounty" ⟨"task", 1, .simple, "alice", some "job", 0, some 0, none, .escrowed⟩ s.db ∧
      calculateShares 1 ["north", "south"] none = .ok (committeeShares 1 ["north", "south"]) ∧
      (BountyManager.distributeBounty "bounty" recipients env s).1 =
        .raises (.valueError "Amount must be positive, got 0") ∧
      ¬AllOrNothing env "bounty" recipients s := by
  exact ⟨⟨by decide, rfl, by decide, "job", ⟨"alice", 1, 0, false, none⟩, ⟨0, 10, 0, by decide, by decide, by decide⟩,
    by decide⟩, by decide, by decide +kernel, by decide +kernel⟩

end AgentNetwork
