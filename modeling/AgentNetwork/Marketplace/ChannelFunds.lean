import AgentNetwork.Library.Traces
import AgentNetwork.Marketplace.Channels
import Mathlib.Tactic.Linarith
import Mathlib.Tactic.Ring

namespace AgentNetwork.Marketplace

open Relational Python Transition ChannelManager

inductive ChannelCall
  | openChannel (channelId sender receiver : String) (deposit : ℚ)
  | sendPayment (channelId : String) (amount : ℚ) (nonce : Int) (signature : String)
  | closeChannel (channelId : String)
  deriving DecidableEq

/-- A manager with what has happened to it: the deposit of every channel opened so
far, the payments accepted and the settlements paid, the oldest first. -/
structure ChannelHistory where
  manager : ChannelManager
  opened : Table String ℚ
  accepted : List Payment
  settled : List (String × Settlement)
  deriving DecidableEq

namespace ChannelHistory

def new : ChannelHistory := ⟨.new, .empty, [], []⟩

/-- One call of the manager, and how it ended. -/
def call (signing : Signing) (h : ChannelHistory) : ChannelCall → Except ValueError Unit × ChannelHistory
  | .openChannel channelId sender receiver deposit =>
    match h.manager.openChannel channelId sender receiver deposit with
    | (.error e, m) => (.error e, { h with manager := m })
    | (.ok id, m) => (.ok (), { h with manager := m, opened := h.opened.upsert id deposit })
  | .sendPayment channelId amount nonce signature =>
    match h.manager.sendPayment signing channelId amount nonce signature with
    | (.error e, m) => (.error e, { h with manager := m })
    | (.ok _, m) => (.ok (), { h with manager := m, accepted := h.accepted ++ [⟨channelId, amount, nonce, signature⟩] })
  | .closeChannel channelId =>
    match h.manager.closeChannel channelId with
    | (.error e, m) => (.error e, { h with manager := m })
    | (.ok settlement, m) => (.ok (), { h with manager := m, settled := h.settled ++ [(channelId, settlement)] })

/-- `uuid4` never draws the identifier of a channel twice. -/
def Fresh (h : ChannelHistory) : ChannelCall → Prop
  | .openChannel channelId _ _ _ => h.opened.get? channelId = none
  | .sendPayment _ _ _ _ | .closeChannel _ => True

/-- The payments accepted on one channel, the oldest first. -/
def acceptedOn (h : ChannelHistory) (channelId : String) : List Payment :=
  h.accepted.filter fun payment => payment.channelId = channelId

def paidOn (h : ChannelHistory) (channelId : String) : ℚ := ((h.acceptedOn channelId).map Payment.amount).sum

end ChannelHistory

/-- The capacity of the open channels that a user pays from. -/
def ChannelManager.committed (m : ChannelManager) (user : String) : ℚ :=
  m.channels.total fun _ channel => if channel.sender = user then channel.capacity else 0

/-- An open channel against what has happened on it. -/
structure OpenChannel (h : ChannelHistory) (channelId : String) (channel : PaymentChannel) : Prop where
  positive : 0 < channel.capacity
  opened : h.opened.get? channelId = some channel.capacity
  shared : channel.senderBalance + channel.receiverBalance = channel.capacity
  covered : 0 ≤ channel.senderBalance
  paid : channel.receiverBalance = h.paidOn channelId
  newest : ∀ payment ∈ h.acceptedOn channelId, payment.nonce ≤ channel.nonce

structure ChannelHistory.Funded (h : ChannelHistory) : Prop where
  channels : ∀ {channelId channel}, h.manager.channels.get? channelId = some channel → OpenChannel h channelId channel
  positive : ∀ payment ∈ h.accepted, 0 < payment.amount
  ordered : h.accepted.Pairwise fun p q => p.channelId = q.channelId → p.nonce < q.nonce
  known : ∀ payment ∈ h.accepted, h.opened.get? payment.channelId ≠ none
  deposits : ∀ user, (h.manager.deposits.get? user).getD 0 = h.manager.committed user
  entries : ∀ {user deposit}, h.manager.deposits.get? user = some deposit → 0 < deposit
  settled : ∀ entry ∈ h.settled, h.manager.channels.get? entry.1 = none ∧
    h.opened.get? entry.1 = some (entry.2.senderAmount + entry.2.receiverAmount) ∧ entry.2.receiverAmount = h.paidOn entry.1

namespace ChannelHistory

section Invariant

variable {signing : Signing} {h : ChannelHistory} {m : ChannelManager} {channelId sender receiver user : String}
  {deposit : ℚ} {channel : PaymentChannel} {payment : Payment}

theorem acceptedOn_append (h : ChannelHistory) (m : ChannelManager) (payment : Payment) (channelId : String) :
    acceptedOn { h with manager := m, accepted := h.accepted ++ [payment] } channelId =
      h.acceptedOn channelId ++ if payment.channelId = channelId then [payment] else [] := by
  unfold acceptedOn
  rw [List.filter_append]
  by_cases hid : payment.channelId = channelId <;> simp [hid]

/-- A channel that was never opened has no payments. -/
theorem Funded.acceptedOn_fresh (hf : h.Funded) (hfresh : h.opened.get? channelId = none) : h.acceptedOn channelId = [] := by
  apply List.filter_eq_nil_iff.mpr
  intro payment hm
  have hne : payment.channelId ≠ channelId := by
    rintro rfl
    exact hf.known payment hm hfresh
  simpa using hne

theorem Funded.not_open (hf : h.Funded) (hfresh : h.opened.get? channelId = none) :
    h.manager.channels.get? channelId = none := by
  cases hget : h.manager.channels.get? channelId with
  | none => rfl
  | some channel => exact absurd ((hf.channels hget).opened.symm.trans hfresh) (Option.some_ne_none _)

theorem Funded.capacity_nonneg (hf : h.Funded) (user : String) :
    ∀ k c, h.manager.channels.get? k = some c → 0 ≤ if c.sender = user then c.capacity else 0 := by
  intro k c hget
  split
  · exact (hf.channels hget).positive.le
  · exact le_refl 0

theorem Funded.committed_pos (hf : h.Funded) (hget : h.manager.channels.get? channelId = some channel) :
    channel.capacity ≤ h.manager.committed channel.sender := by
  have hle := Table.le_total (hf.capacity_nonneg channel.sender) hget
  simpa [committed] using hle

/-- The entry of a user is what its open channels hold, and there is one only for such a user. -/
theorem Funded.deposit_entry (hf : h.Funded) (user : String) :
    (∀ deposit, h.manager.deposits.get? user = some deposit → deposit = h.manager.committed user) ∧
      (h.manager.deposits.get? user = none ↔
        ∀ id c, h.manager.channels.get? id = some c → c.sender ≠ user) := by
  have hsum := hf.deposits user
  refine ⟨?_, ?_, ?_⟩
  · intro deposit hget
    simpa [hget] using hsum
  · rintro hnone id c hget rfl
    have hle := hf.committed_pos hget
    have hpos := (hf.channels hget).positive
    simp only [hnone, Option.getD_none] at hsum
    linarith
  · intro hno
    cases hget : h.manager.deposits.get? user with
    | none => rfl
    | some deposit =>
      have hpos := hf.entries hget
      have hzero : h.manager.committed user = 0 := by
        unfold committed Table.total
        apply List.sum_eq_zero
        intro q hq
        obtain ⟨e, he, rfl⟩ := List.mem_map.mp hq
        exact if_neg (hno e.1 e.2 (Table.get?_eq_some_iff.mpr he))
      simp only [hget, Option.getD_some] at hsum
      linarith

theorem funded_new : Funded new where
  channels hget := by cases hget
  positive _ hm := by cases hm
  ordered := List.Pairwise.nil
  known _ hm := by cases hm
  deposits _ := rfl
  entries hget := by cases hget
  settled _ hm := by cases hm

theorem Funded.opens (hf : h.Funded) (hfresh : h.opened.get? channelId = none) (hpos : 0 < deposit)
    (sender receiver : String) :
    Funded { h with
      manager := { channels := h.manager.channels.upsert channelId (.new channelId sender receiver deposit)
                   deposits := h.manager.deposits.upsert sender ((h.manager.deposits.get? sender).getD 0 + deposit) }
      opened := h.opened.upsert channelId deposit } where
  channels := by
    intro id c hget
    rw [Table.get?_upsert] at hget
    split at hget
    next heq =>
      subst heq
      cases hget
      have hnone := hf.acceptedOn_fresh hfresh
      have hpaid : h.paidOn id = 0 := by simp [paidOn, hnone]
      refine ⟨hpos, by simp [PaymentChannel.new], by simp [PaymentChannel.new], hpos.le, hpaid.symm, ?_⟩
      intro payment hm
      have hm' : payment ∈ h.acceptedOn id := hm
      rw [hnone] at hm'
      cases hm'
    next hne =>
      have ho := hf.channels hget
      exact ⟨ho.positive, by simpa [hne] using ho.opened, ho.shared, ho.covered, ho.paid, ho.newest⟩
  positive := hf.positive
  ordered := hf.ordered
  known payment hm := by
    rw [Table.get?_upsert]
    split
    · exact Option.some_ne_none _
    · exact hf.known payment hm
  deposits user := by
    have hcommitted : committed { channels := h.manager.channels.upsert channelId (.new channelId sender receiver deposit)
                                  deposits := h.manager.deposits.upsert sender ((h.manager.deposits.get? sender).getD 0 + deposit) }
        user = h.manager.committed user + if sender = user then deposit else 0 := by
      unfold committed
      rw [Table.upsert_of_fresh (hf.not_open hfresh), Table.total_insert]
      rfl
    rw [hcommitted, Table.get?_upsert]
    by_cases huser : user = sender
    · subst huser
      simp [hf.deposits user]
    · simp [huser, Ne.symm huser, hf.deposits user]
  entries := by
    intro user amount hget
    rw [Table.get?_upsert] at hget
    split at hget
    next =>
      cases hget
      have hnonneg : 0 ≤ h.manager.committed sender := Table.total_nonneg (hf.capacity_nonneg sender)
      have hsum := hf.deposits sender
      linarith
    next => exact hf.entries hget
  settled entry hm := by
    obtain ⟨hclosed, hopened, hpaid⟩ := hf.settled entry hm
    have hne : entry.1 ≠ channelId := by
      rintro rfl
      exact absurd (hopened.symm.trans hfresh) (Option.some_ne_none _)
    exact ⟨by simpa [hne] using hclosed, by simpa [hne] using hopened, hpaid⟩

theorem Funded.pays (hf : h.Funded) (ha : Accepts signing h.manager payment channel) :
    Funded { h with
      manager := { h.manager with channels := h.manager.channels.set payment.channelId (channel.pay payment.amount payment.nonce) }
      accepted := h.accepted ++ [payment] } := by
  have ho := hf.channels ha.found
  have hon : ∀ id, acceptedOn { h with
      manager := { h.manager with channels := h.manager.channels.set payment.channelId (channel.pay payment.amount payment.nonce) }
      accepted := h.accepted ++ [payment] } id =
        h.acceptedOn id ++ if payment.channelId = id then [payment] else [] := fun id => acceptedOn_append h _ payment id
  constructor
  case channels =>
    intro id c hget
    rw [Table.get?_set] at hget
    split at hget
    next heq =>
      subst heq
      simp only [ha.found, Option.map_some, Option.some.injEq] at hget
      subst hget
      refine ⟨ho.positive, ho.opened, ?_, ?_, ?_, ?_⟩
      · have hshared := ho.shared
        simp only [PaymentChannel.pay]
        linarith
      · have hcovered := ha.covered
        simp only [PaymentChannel.pay]
        linarith
      · have hpaid := ho.paid
        simp only [paidOn, hon, if_true, List.map_append, List.map_cons, List.map_nil, List.sum_append, List.sum_singleton]
        simpa [PaymentChannel.pay, paidOn] using hpaid
      · intro earlier hm
        rw [hon, if_pos rfl] at hm
        rcases List.mem_append.mp hm with hm | hm
        · exact (ho.newest earlier hm).trans ha.newer.le
        · rw [List.mem_singleton.mp hm]
          exact le_refl payment.nonce
    next hne =>
      have ho' := hf.channels hget
      have hsame : ∀ p, p ∈ h.acceptedOn id ++ (if payment.channelId = id then [payment] else []) ↔ p ∈ h.acceptedOn id := by
        simp [Ne.symm hne]
      refine ⟨ho'.positive, ho'.opened, ho'.shared, ho'.covered, ?_, ?_⟩
      · simp only [paidOn, hon, if_neg (Ne.symm hne), List.append_nil]
        exact ho'.paid
      · intro earlier hm
        rw [hon] at hm
        exact ho'.newest earlier ((hsame earlier).mp hm)
  case positive =>
    intro p hm
    rcases List.mem_append.mp hm with hm | hm
    · exact hf.positive p hm
    · rw [List.mem_singleton.mp hm]
      exact ha.positive
  case ordered =>
    refine List.pairwise_append.mpr ⟨hf.ordered, List.pairwise_singleton _ _, ?_⟩
    intro p hp q hq hsame
    rw [List.mem_singleton.mp hq] at hsame ⊢
    have hon : p ∈ h.acceptedOn payment.channelId := List.mem_filter.mpr ⟨hp, by simpa using hsame⟩
    exact (ho.newest p hon).trans_lt ha.newer
  case known =>
    intro p hm
    rcases List.mem_append.mp hm with hm | hm
    · exact hf.known p hm
    · rw [List.mem_singleton.mp hm]
      exact fun hnone => absurd (ho.opened.symm.trans hnone) (Option.some_ne_none _)
  case deposits =>
    intro user
    have htotal := Table.total_set ha.found (channel.pay payment.amount payment.nonce)
      fun _ c => if c.sender = user then c.capacity else 0
    have hsame : (if (channel.pay payment.amount payment.nonce).sender = user
        then (channel.pay payment.amount payment.nonce).capacity else 0) =
        if channel.sender = user then channel.capacity else 0 := rfl
    rw [hsame] at htotal
    exact (hf.deposits user).trans (add_right_cancel htotal).symm
  case entries => exact hf.entries
  case settled =>
    intro entry hm
    obtain ⟨hclosed, hopened, hpaid⟩ := hf.settled entry hm
    have hne : entry.1 ≠ payment.channelId := by
      intro heq
      rw [heq, ha.found] at hclosed
      cases hclosed
    refine ⟨by simpa [hne] using hclosed, hopened, ?_⟩
    simp only [paidOn, hon, if_neg (Ne.symm hne), List.append_nil]
    exact hpaid

theorem Funded.closes (hf : h.Funded) (hget : h.manager.channels.get? channelId = some channel) :
    Funded { h with
      manager := { channels := h.manager.channels.erase channelId
                   deposits := withdraw h.manager.deposits channel.sender channel.capacity }
      settled := h.settled ++
        [(channelId, ⟨channel.sender, channel.receiver, channel.senderBalance, channel.receiverBalance⟩)] } := by
  have ho := hf.channels hget
  have hcommitted : ∀ user, committed { channels := h.manager.channels.erase channelId
                                        deposits := withdraw h.manager.deposits channel.sender channel.capacity } user +
      (if channel.sender = user then channel.capacity else 0) = h.manager.committed user :=
    fun user => Table.total_erase hget fun _ c => if c.sender = user then c.capacity else 0
  have hle := hf.committed_pos hget
  have hpos := ho.positive
  -- the sender of an open channel has an entry
  obtain ⟨deposit, hdeposit⟩ : ∃ deposit, h.manager.deposits.get? channel.sender = some deposit := by
    cases hnone : h.manager.deposits.get? channel.sender with
    | some deposit => exact ⟨deposit, rfl⟩
    | none =>
      have hsum := hf.deposits channel.sender
      simp only [hnone, Option.getD_none] at hsum
      linarith
  have hamount : deposit = h.manager.committed channel.sender := (hf.deposit_entry _).1 deposit hdeposit
  constructor
  case channels =>
    intro id c hget'
    rw [Table.get?_erase] at hget'
    split at hget'
    next => cases hget'
    next =>
      have ho' := hf.channels hget'
      exact ⟨ho'.positive, ho'.opened, ho'.shared, ho'.covered, ho'.paid, ho'.newest⟩
  case positive => exact hf.positive
  case ordered => exact hf.ordered
  case known => exact hf.known
  case deposits =>
    intro user
    have hsum := hcommitted user
    rw [getD_withdraw hdeposit (hamount ▸ hle), hf.deposits user]
    linarith
  case entries => exact fun hget' => withdraw_pos (fun hget => hf.entries hget) hget'
  case settled =>
    intro entry hm
    rcases List.mem_append.mp hm with hm | hm
    · obtain ⟨hclosed, hopened, hpaid⟩ := hf.settled entry hm
      refine ⟨?_, hopened, hpaid⟩
      rw [Table.get?_erase, hclosed, ite_self]
    · rw [List.mem_singleton.mp hm]
      exact ⟨by simp, by rw [ho.opened, ho.shared], ho.paid⟩

theorem Funded.paidOn_nonneg (hf : h.Funded) (channelId : String) : 0 ≤ h.paidOn channelId := by
  apply List.sum_nonneg
  intro amount hm
  obtain ⟨payment, hpayment, rfl⟩ := List.mem_map.mp hm
  exact (hf.positive payment (List.mem_filter.mp hpayment).1).le

/-- A call that raises leaves everything as it was. -/
theorem call_error {c : ChannelCall} {e : ValueError} {h' : ChannelHistory} (hcall : h.call signing c = (.error e, h')) :
    h' = h := by
  cases c with
  | openChannel channelId sender receiver deposit =>
    simp only [call, ChannelManager.openChannel] at hcall
    split at hcall
    next heq =>
      split at heq <;> cases heq
      cases hcall
      rfl
    next => cases hcall
  | sendPayment channelId amount nonce signature =>
    simp only [call, ChannelManager.sendPayment] at hcall
    split at hcall
    next heq =>
      repeat' split at heq
      all_goals cases heq
      all_goals cases hcall; rfl
    next => cases hcall
  | closeChannel channelId =>
    simp only [call, ChannelManager.closeChannel] at hcall
    split at hcall
    next heq =>
      split at heq <;> cases heq
      cases hcall
      rfl
    next => cases hcall

theorem Funded.call (hf : h.Funded) {c : ChannelCall} (hfresh : h.Fresh c) : ((h.call signing c).2).Funded := by
  cases hcall : h.call signing c with
  | mk result h' =>
    cases result with
    | error e => exact call_error hcall ▸ hf
    | ok _ =>
      cases c with
      | openChannel channelId sender receiver deposit =>
        simp only [ChannelHistory.call] at hcall
        split at hcall
        next => cases hcall
        next heq =>
          obtain ⟨hpos, rfl, rfl⟩ := openChannel_ok heq
          cases hcall
          exact hf.opens hfresh hpos sender receiver
      | sendPayment channelId amount nonce signature =>
        simp only [ChannelHistory.call] at hcall
        split at hcall
        next => cases hcall
        next heq =>
          obtain ⟨channel, ha, rfl⟩ := sendPayment_ok heq
          cases hcall
          exact hf.pays ha
      | closeChannel channelId =>
        simp only [ChannelHistory.call] at hcall
        split at hcall
        next => cases hcall
        next heq =>
          obtain ⟨channel, hget, rfl, rfl⟩ := closeChannel_ok heq
          cases hcall
          exact hf.closes hget

end Invariant

/-- Every run from a new manager is funded. -/
theorem Funded.of_run {signing : Signing} {h : ChannelHistory}
    (run : Visits (fun h c h' => h' = (h.call signing c).2) Fresh new h) : h.Funded :=
  run.invariant funded_new fun hf hfresh hstep => hstep ▸ hf.call hfresh

/-- Channels conserve what was deposited and accept no payment twice: the balances of an
open channel share its capacity, the nonces accepted on it increase, deposits are what the
open channels hold, settlements pay out the capacity, and a call that raises does nothing. -/
theorem channels_conserve (signing : Signing) {h : ChannelHistory}
    (run : Visits (fun h c h' => h' = (h.call signing c).2) Fresh new h) :
    (∀ channelId channel, h.manager.channels.get? channelId = some channel →
      h.opened.get? channelId = some channel.capacity ∧
      channel.senderBalance + channel.receiverBalance = channel.capacity ∧
      0 ≤ channel.senderBalance ∧ 0 ≤ channel.receiverBalance) ∧
    (∀ channelId, ((h.acceptedOn channelId).map Payment.nonce).Pairwise (· < ·)) ∧
    (h.accepted.map fun payment => (payment.channelId, payment.nonce)).Nodup ∧
    (∀ user, (∀ deposit, h.manager.deposits.get? user = some deposit → deposit = h.manager.committed user) ∧
      (h.manager.deposits.get? user = none ↔
        ∀ channelId channel, h.manager.channels.get? channelId = some channel → channel.sender ≠ user)) ∧
    (∀ channelId settlement, (channelId, settlement) ∈ h.settled →
      h.opened.get? channelId = some (settlement.senderAmount + settlement.receiverAmount) ∧
      settlement.receiverAmount = h.paidOn channelId) ∧
    ∀ c e h', h.call signing c = (.error e, h') → h' = h := by
  have hf := Funded.of_run run
  refine ⟨?_, ?_, ?_, hf.deposit_entry, ?_, fun c e h' hcall => call_error hcall⟩
  · intro channelId channel hget
    have ho := hf.channels hget
    exact ⟨ho.opened, ho.shared, ho.covered, ho.paid ▸ hf.paidOn_nonneg channelId⟩
  · intro channelId
    refine List.pairwise_map.mpr ((hf.ordered.filter _).imp_of_mem ?_)
    intro p q hp hq hlt
    have hp' : p.channelId = channelId := by simpa using (List.mem_filter.mp hp).2
    have hq' : q.channelId = channelId := by simpa using (List.mem_filter.mp hq).2
    exact hlt (hp'.trans hq'.symm)
  · refine List.pairwise_map.mpr (hf.ordered.imp ?_)
    intro p q hlt heq
    obtain ⟨hid, hnonce⟩ := Prod.mk.inj heq
    exact absurd hnonce (hlt hid).ne
  · intro channelId settlement hm
    obtain ⟨_, hopened, hpaid⟩ := hf.settled (channelId, settlement) hm
    exact ⟨hopened, hpaid⟩

/-- The digest of one payment. -/
def sampleSigning : Signing where
  sha256Hex text :=
    if text = "c1:30:1" then "f391aae63249a69c3c153f3f71d44394ab53742e38c7dbde1e7c34e022432932" else ""
  amountText amount := toString amount.num

def samplePayment : ChannelCall := .sendPayment "c1" 30 1 (createPaymentSignature sampleSigning "c1" 30 1)

def sampleHistory : ChannelHistory :=
  ((((new.call sampleSigning (.openChannel "c1" "alice" "bob" 100)).2.call sampleSigning samplePayment).2.call
    sampleSigning samplePayment).2.call sampleSigning (.closeChannel "c1")).2

/-- A payment sent twice is paid once. -/
theorem channels_conserve_sample :
    sampleHistory.settled = [("c1", ⟨"alice", "bob", 70, 30⟩)] ∧ sampleHistory.accepted.length = 1 ∧
      (sampleHistory.accepted.map fun payment => (payment.channelId, payment.nonce)).Nodup := by
  refine ⟨by decide +kernel, by decide +kernel, ?_⟩
  have run : Visits (fun h c h' => h' = (h.call sampleSigning c).2) Fresh new sampleHistory :=
    .next (a := .closeChannel "c1") (.next (a := samplePayment) (.next (a := samplePayment)
      (.next (a := .openChannel "c1" "alice" "bob" 100) .start rfl rfl) trivial rfl) trivial rfl) trivial rfl
  exact (channels_conserve sampleSigning run).2.2.1

end ChannelHistory

end AgentNetwork.Marketplace
