import AgentNetwork.Library.Awaiting
import AgentNetwork.Library.Table
import Mathlib.Algebra.Order.Ring.Rat
import Mathlib.Tactic.Linarith

namespace AgentNetwork.Marketplace

open Relational Python

structure PaymentChannel where
  channelId : String
  sender : String
  receiver : String
  capacity : ℚ
  nonce : Int
  senderBalance : ℚ
  receiverBalance : ℚ
  deriving DecidableEq

/-- The sender starts with the full capacity. -/
def PaymentChannel.new (channelId sender receiver : String) (capacity : ℚ) : PaymentChannel :=
  ⟨channelId, sender, receiver, capacity, 0, capacity, 0⟩

def PaymentChannel.pay (channel : PaymentChannel) (amount : ℚ) (nonce : Int) : PaymentChannel :=
  { channel with
    senderBalance := channel.senderBalance - amount
    receiverBalance := channel.receiverBalance + amount
    nonce := nonce }

structure Payment where
  channelId : String
  amount : ℚ
  nonce : Int
  signature : String
  deriving DecidableEq

/-- The digest that signs a payment, and how an amount is written out. -/
structure Signing where
  sha256Hex : String → String
  amountText : ℚ → String

structure Settlement where
  sender : String
  receiver : String
  senderAmount : ℚ
  receiverAmount : ℚ
  deriving DecidableEq

structure ChannelManager where
  channels : Table String PaymentChannel
  deposits : Table String ℚ
  deriving DecidableEq

namespace ChannelManager

def new : ChannelManager := ⟨.empty, .empty⟩

/-- `channelId` is the identifier that `uuid4` draws. -/
def openChannel (m : ChannelManager) (channelId sender receiver : String) (deposit : ℚ) :
    Except ValueError String × ChannelManager :=
  if deposit ≤ 0 then (.error ⟨"Deposit must be positive"⟩, m)
  else
    (.ok channelId,
      { channels := m.channels.upsert channelId (.new channelId sender receiver deposit)
        deposits := m.deposits.upsert sender ((m.deposits.get? sender).getD 0 + deposit) })

end ChannelManager

variable (signing : Signing)

def createPaymentSignature (channelId : String) (amount : ℚ) (nonce : Int) : String :=
  let text := signing.amountText amount
  signing.sha256Hex s!"{channelId}:{text}:{nonce}"

namespace ChannelManager

def verifyPayment (payment : Payment) : Bool :=
  let text := signing.amountText payment.amount
  payment.signature == signing.sha256Hex s!"{payment.channelId}:{text}:{payment.nonce}"

def noChannel (channelId : String) : ValueError := ⟨s!"Channel {channelId} does not exist"⟩

def sendPayment (m : ChannelManager) (channelId : String) (amount : ℚ) (nonce : Int) (signature : String) :
    Except ValueError Bool × ChannelManager :=
  match m.channels.get? channelId with
  | none => (.error (noChannel channelId), m)
  | some channel =>
    if nonce ≤ channel.nonce then (.error ⟨s!"Invalid nonce: {nonce} (current: {channel.nonce})"⟩, m)
    else if amount ≤ 0 then (.error ⟨"Amount must be positive"⟩, m)
    else if channel.senderBalance < amount then
      let balance := signing.amountText channel.senderBalance
      let text := signing.amountText amount
      (.error ⟨s!"Insufficient balance: {balance} < {text}"⟩, m)
    else if verifyPayment signing ⟨channelId, amount, nonce, signature⟩ = false then
      (.error ⟨"Invalid payment signature"⟩, m)
    else (.ok true, { m with channels := m.channels.set channelId (channel.pay amount nonce) })

/-- What closing a channel leaves of its sender's deposit. -/
def withdraw (deposits : Table String ℚ) (sender : String) (capacity : ℚ) : Table String ℚ :=
  match deposits.get? sender with
  | none => deposits
  | some deposit =>
    let rest := deposit - capacity
    if rest ≤ 0 then deposits.erase sender else deposits.set sender rest

def closeChannel (m : ChannelManager) (channelId : String) : Except ValueError Settlement × ChannelManager :=
  match m.channels.get? channelId with
  | none => (.error (noChannel channelId), m)
  | some channel =>
    (.ok ⟨channel.sender, channel.receiver, channel.senderBalance, channel.receiverBalance⟩,
      { channels := m.channels.erase channelId
        deposits := withdraw m.deposits channel.sender channel.capacity })

section Effects

variable {signing} {m m' : ChannelManager} {channelId sender receiver signature : String} {deposit amount : ℚ} {nonce : Int}

theorem openChannel_ok {id : String} (h : m.openChannel channelId sender receiver deposit = (.ok id, m')) :
    0 < deposit ∧ id = channelId ∧
      m' = { channels := m.channels.upsert channelId (.new channelId sender receiver deposit)
             deposits := m.deposits.upsert sender ((m.deposits.get? sender).getD 0 + deposit) } := by
  unfold openChannel at h
  split at h
  next => cases h
  next hpos =>
    cases h
    exact ⟨not_le.mp hpos, rfl, rfl⟩

/-- What the checks of an accepted payment have established. -/
structure Accepts (signing : Signing) (m : ChannelManager) (payment : Payment) (channel : PaymentChannel) : Prop where
  found : m.channels.get? payment.channelId = some channel
  newer : channel.nonce < payment.nonce
  positive : 0 < payment.amount
  covered : payment.amount ≤ channel.senderBalance
  signed : verifyPayment signing payment = true

theorem sendPayment_ok {b : Bool} (h : m.sendPayment signing channelId amount nonce signature = (.ok b, m')) :
    ∃ channel, Accepts signing m ⟨channelId, amount, nonce, signature⟩ channel ∧
      m' = { m with channels := m.channels.set channelId (channel.pay amount nonce) } := by
  unfold sendPayment at h
  cases hget : m.channels.get? channelId with
  | none =>
    rw [hget] at h
    cases h
  | some channel =>
    simp only [hget] at h
    split at h
    next => cases h
    next hnonce =>
      split at h
      next => cases h
      next hpos =>
        split at h
        next => cases h
        next hcover =>
          split at h
          next => cases h
          next hsigned =>
            cases h
            exact ⟨channel, ⟨hget, not_le.mp hnonce, not_le.mp hpos, not_lt.mp hcover, by simpa using hsigned⟩, rfl⟩

theorem closeChannel_ok {settlement : Settlement} (h : m.closeChannel channelId = (.ok settlement, m')) :
    ∃ channel, m.channels.get? channelId = some channel ∧
      settlement = ⟨channel.sender, channel.receiver, channel.senderBalance, channel.receiverBalance⟩ ∧
      m' = { channels := m.channels.erase channelId
             deposits := withdraw m.deposits channel.sender channel.capacity } := by
  unfold closeChannel at h
  cases hget : m.channels.get? channelId with
  | none =>
    rw [hget] at h
    cases h
  | some channel =>
    simp only [hget] at h
    cases h
    exact ⟨channel, rfl, rfl, rfl⟩

section Withdrawals

variable {deposits : Table String ℚ} {user : String} {capacity : ℚ}

theorem getD_withdraw (h : deposits.get? sender = some deposit) (hle : capacity ≤ deposit) (user : String) :
    ((withdraw deposits sender capacity).get? user).getD 0 =
      (deposits.get? user).getD 0 - if sender = user then capacity else 0 := by
  unfold withdraw
  rw [h]
  by_cases huser : user = sender
  · subst huser
    dsimp only
    split
    next hrest =>
      rw [Table.get?_erase, if_pos rfl, h, if_pos rfl, Option.getD_none, Option.getD_some]
      linarith
    next => rw [Table.get?_set, if_pos rfl, h, if_pos rfl, Option.map_some, Option.getD_some, Option.getD_some]
  · dsimp only
    split
    · rw [Table.get?_erase, if_neg huser, if_neg (Ne.symm huser), sub_zero]
    · rw [Table.get?_set, if_neg huser, if_neg (Ne.symm huser), sub_zero]

/-- A deposit that nothing is left of has no entry. -/
theorem withdraw_pos (hpos : ∀ {user deposit}, deposits.get? user = some deposit → 0 < deposit)
    (h : (withdraw deposits sender capacity).get? user = some amount) : 0 < amount := by
  unfold withdraw at h
  split at h
  next => exact hpos h
  next old hold =>
    dsimp only at h
    split at h
    next =>
      rw [Table.get?_erase] at h
      split at h
      next => cases h
      next => exact hpos h
    next hrest =>
      rw [Table.get?_set] at h
      split at h
      next =>
        rw [hold, Option.map_some] at h
        cases h
        exact not_le.mp hrest
      next => exact hpos h

end Withdrawals

/-- The helper signs what the manager checks. -/
theorem verifyPayment_createPaymentSignature (channelId : String) (amount : ℚ) (nonce : Int) :
    verifyPayment signing ⟨channelId, amount, nonce, createPaymentSignature signing channelId amount nonce⟩ = true := by
  simp [verifyPayment, createPaymentSignature]

end Effects

end ChannelManager

end AgentNetwork.Marketplace
