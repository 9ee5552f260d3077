import Xahau.Data.Run
import Xahau.Token.Effects

/-! # Transactions on escrows and channels

What a successful transaction does to the holds, one statement for each kind, and the histories of a
ledger. -/

namespace Xahau.Token

open Checked View

variable {u : PUnit} {slep slep' : PayChan} {tx : PayChanClaim} {rules : Rules}

variable {env : Env} {view view' : View}

/-! ## Escrows -/

/-- **An escrow is created** under a free key, and its amount is locked. -/
theorem EscrowCreate.doApply_eq_ok {tx : EscrowCreate} (h : tx.doApply env view = .ok view') :
    ∃ key slep view₁ view₂, lockFunds env view₁ tx.account tx.amount = .ok view₂ ∧
      view₁.holds = view.holds.setEscrow key (some slep) ∧ view'.holds = view₂.holds ∧
      view.escrow key = none ∧ slep.account = tx.account ∧ slep.amount = tx.amount := by
  replace h := of_check (of_check (of_check (of_check h)))
  obtain ⟨hfree, h⟩ := of_failIf h
  obtain ⟨⟨ownerNode, view₁⟩, hins, h⟩ := bind_eq_ok.mp h
  obtain ⟨⟨destinationNode, view₂⟩, hins', h⟩ := bind_eq_ok.mp h
  obtain ⟨view₃, hlock, h⟩ := bind_eq_ok.mp h
  have hh : view₂.holds = view.holds :=
    (dirInsertIf_holds hins').trans (dirInsert_holds hins)
  refine ⟨_, _, _, view₃, hlock, by rw [holds_setEscrow, hh], ?_,
    not_not.mp hfree, rfl, rfl⟩
  cases h
  rw [holds_adjustOwnerCount]

theorem EscrowCreate.preflight_pos {tx : EscrowCreate}
    (h : tx.preflight env rules = .ok u) : 0 < tx.amount.value := by
  replace h := of_check (of_check h)
  obtain ⟨_, hpos, -⟩ := bind_eq_ok.mp h
  exact not_le.mp (failIf_eq_ok.mp hpos)

theorem EscrowFinish.pay_eq_ok {tx : EscrowFinish} {slep : Escrow}
    (h : tx.pay env view slep false = .ok view') :
    slep.amount.issue = none ∧ view'.holds = view.holds ∨
      ∃ issue lockedRate, slep.amount.issue = some issue ∧
        trustTransferLockedBalance env (tx.transfer view slep issue lockedRate) false view =
          .ok view' := by
  unfold EscrowFinish.pay at h
  split at h
  next hn =>
    obtain ⟨sled, -, h⟩ := bind_eq_ok.mp h
    refine .inl ⟨hn, ?_⟩
    cases h
    rw [holds_setAccount]
  next issue hissue =>
    replace h := of_check h
    split at h
    · exact nomatch h
    next lockedRate _ => exact .inr ⟨issue, lockedRate, hissue, h⟩

/-- **An escrow is finished**: it is paid and removed. -/
theorem EscrowFinish.doApply_eq_ok {tx : EscrowFinish} (h : tx.doApply env view = .ok view') :
    ∃ slep view₁ view₂, view.escrow tx.escrow = some slep ∧ view₁.holds = view.holds ∧
      tx.pay env view₁ slep false = .ok view₂ ∧
      view'.holds = view₂.holds.setEscrow tx.escrow none := by
  unfold EscrowFinish.doApply at h
  split at h
  · exact nomatch h
  next slep hslep =>
    replace h := of_check h
    replace h := of_check h
    obtain ⟨_, -, h⟩ := bind_eq_ok.mp h
    replace h := of_check h
    replace h := of_check h
    obtain ⟨view₁, hdirs, h⟩ := bind_eq_ok.mp h
    obtain ⟨view₂, hpay, h⟩ := bind_eq_ok.mp h
    refine ⟨slep, view₁, view₂, hslep, removeFromDirs_holds hdirs, hpay, ?_⟩
    cases h
    rw [holds_setEscrow, holds_adjustOwnerCount]

/-- **An escrow is cancelled**: its amount is unlocked and it is removed. -/
theorem EscrowCancel.doApply_eq_ok {tx : EscrowCancel} (h : tx.doApply env view = .ok view') :
    ∃ slep view₁ view₂, view.escrow tx.escrow = some slep ∧ view₁.holds = view.holds ∧
      EscrowCancel.unlock env view₁ slep = .ok view₂ ∧
      view'.holds = view₂.holds.setEscrow tx.escrow none := by
  unfold EscrowCancel.doApply at h
  split at h
  · exact nomatch h
  next slep hslep =>
    replace h := of_check (of_check h)
    obtain ⟨view₁, hdirs, h⟩ := bind_eq_ok.mp h
    obtain ⟨view₂, hunl, h⟩ := bind_eq_ok.mp h
    refine ⟨slep, view₁, view₂, hslep, removeFromDirs_holds hdirs, hunl, ?_⟩
    cases h
    rw [holds_setEscrow, holds_adjustOwnerCount]

/-! ## Channels -/

variable {reqBalance v v1 v2 : STAmount}

theorem STAmount.add_eq_ok (h : v1.add v2 = .ok v) :
    v.value = v1.value + v2.value ∧ v.issue = v1.issue := by
  replace h := of_check h
  cases h
  exact ⟨rfl, rfl⟩

theorem STAmount.sub_eq_ok (h : v1.sub v2 = .ok v) :
    v.value = v1.value - v2.value ∧ v.issue = v1.issue := by
  replace h := of_check h
  cases h
  exact ⟨rfl, rfl⟩

/-- Versions of a channel with the same owner and funds, which have paid the same. -/
structure PayChan.SameFunds (slep slep' : PayChan) : Prop where
  account : slep'.account = slep.account
  amount : slep'.amount = slep.amount
  balance : slep'.balance = slep.balance

theorem PayChan.SameFunds.refl (slep : PayChan) : slep.SameFunds slep := ⟨rfl, rfl, rfl⟩

theorem PayChan.SameFunds.trans {slep'' : PayChan} (h : slep.SameFunds slep')
    (h' : slep'.SameFunds slep'') : slep.SameFunds slep'' :=
  ⟨h'.account.trans h.account, h'.amount.trans h.amount, h'.balance.trans h.balance⟩

/-- **A channel is closed**: what is left is unlocked and the channel is removed. -/
theorem closeChannel_eq_ok {key : UInt256} (h : closeChannel env slep key view = .ok view') :
    ∃ amount view₁ view₂, amount.value = slep.amount.value - slep.balance.value ∧
      amount.issue = slep.amount.issue ∧ view₁.holds = view.holds ∧
      unlockRemaining env view₁ slep.account amount = .ok view₂ ∧
      view'.holds = view₂.holds.setPayChan key none := by
  obtain ⟨amount, hamo, h⟩ := bind_eq_ok.mp h
  replace h := of_check h
  obtain ⟨view₁, hdirs, h⟩ := bind_eq_ok.mp h
  replace h := of_check h
  obtain ⟨view₂, hunl, h⟩ := bind_eq_ok.mp h
  obtain ⟨hval, hissue⟩ := STAmount.sub_eq_ok hamo
  refine ⟨amount, view₁, view₂, hval, hissue, removeFromDirs_holds hdirs, hunl, ?_⟩
  cases h
  rw [holds_setPayChan, holds_adjustOwnerCount]

/-- **A channel is created** under a free key, and its amount is locked. -/
theorem PayChanCreate.doApply_eq_ok {tx : PayChanCreate} (h : tx.doApply env view = .ok view') :
    ∃ key slep view₁ view₂, lockFunds env view₁ tx.account tx.amount = .ok view₂ ∧
      view₁.holds = view.holds.setPayChan key (some slep) ∧ view'.holds = view₂.holds ∧
      view.payChan key = none ∧ slep.account = tx.account ∧ slep.amount = tx.amount ∧
      slep.balance.value = 0 := by
  replace h := of_check h
  obtain ⟨hfree, h⟩ := of_failIf h
  obtain ⟨⟨ownerNode, view₁⟩, hins, h⟩ := bind_eq_ok.mp h
  obtain ⟨⟨destinationNode, view₂⟩, hins', h⟩ := bind_eq_ok.mp h
  obtain ⟨view₃, hlock, h⟩ := bind_eq_ok.mp h
  have hh : view₂.holds = view.holds :=
    (dirInsertIf_holds hins').trans (dirInsert_holds hins)
  refine ⟨_, _, _, view₃, hlock, by rw [holds_setPayChan, hh], ?_,
    not_not.mp hfree, rfl, rfl, rfl⟩
  cases h
  rw [holds_adjustOwnerCount]

theorem PayChanCreate.preflight_pos {tx : PayChanCreate}
    (h : tx.preflight rules = .ok u) : 0 < tx.amount.value := by
  replace h := of_check (of_check h)
  obtain ⟨_, hpos, -⟩ := bind_eq_ok.mp h
  exact not_le.mp (failIf_eq_ok.mp hpos)

section

variable {tx : PayChanFund}

theorem PayChanFund.preflight_pos (h : tx.preflight rules = .ok u) : 0 < tx.amount.value := by
  replace h := of_check (of_check h)
  exact not_le.mp (failIf_eq_ok.mp h)

theorem PayChanFund.checkTokens_sameFunds (h : tx.checkTokens env view slep = .ok slep') :
    slep.SameFunds slep' := by
  unfold PayChanFund.checkTokens at h
  split at h
  · cases h
    exact .refl slep
  split at h
  · cases h
    exact .refl slep
  split at h
  · cases h
  replace h := of_check (of_check (of_check h))
  cases h
  exact ⟨rfl, rfl, rfl⟩

theorem PayChanFund.extend_sameFunds (h : tx.extend view slep = .ok slep') :
    slep.SameFunds slep' := by
  unfold PayChanFund.extend at h
  split at h
  · cases h
    exact .refl slep
  replace h := of_check h
  cases h
  exact ⟨rfl, rfl, rfl⟩

/-- **A channel is funded** by its owner, or it has expired and is closed. -/
theorem PayChanFund.doApply_eq_ok (h : tx.doApply env view = .ok view') :
    ∃ slep slep₁, view.payChan tx.channel = some slep ∧ slep.SameFunds slep₁ ∧
      (closeChannel env slep₁ tx.channel view = .ok view' ∨
        slep.account = tx.account ∧ ∃ view₁ amount,
          lockFunds env view tx.account tx.amount = .ok view₁ ∧
          amount.value = slep.amount.value + tx.amount.value ∧ amount.issue = slep.amount.issue ∧
          view'.holds = view₁.holds.setPayChan tx.channel (some { slep₁ with amount := amount })) := by
  unfold PayChanFund.doApply at h
  split at h
  · exact nomatch h
  next slep hslep =>
    obtain ⟨slep₁, hche, h⟩ := bind_eq_ok.mp h
    have hs := checkTokens_sameFunds hche
    split at h
    · exact ⟨slep, slep₁, hslep, hs, .inl h⟩
    obtain ⟨hown, h⟩ := of_failIf h
    obtain ⟨slep₂, hext, h⟩ := bind_eq_ok.mp h
    replace h := of_check h
    obtain ⟨view₁, hlock, h⟩ := bind_eq_ok.mp h
    obtain ⟨amount, hadd, h⟩ := bind_eq_ok.mp h
    have hs₂ := hs.trans (extend_sameFunds hext)
    obtain ⟨hval, hissue⟩ := STAmount.add_eq_ok hadd
    rw [hs₂.amount] at hval hissue
    refine ⟨slep, slep₂, hslep, hs₂, .inr ⟨?_, view₁, amount, hlock, hval, hissue, ?_⟩⟩
    · rw [← hs.account]
      exact not_not.mp hown
    · cases h
      rw [holds_setPayChan]

end

/-- A claim is paid natively, or by a transfer of locked tokens; the channel has paid what it says.
-/
theorem PayChanClaim.pay_eq_ok
    {reqDelta : STAmount} (h : tx.pay env slep reqBalance reqDelta view = .ok (slep', view')) :
    slep'.account = slep.account ∧ slep'.amount = slep.amount ∧ slep'.balance = reqBalance ∧
      (reqDelta.issue = none ∧ view'.holds = view.holds ∨
        ∃ issue rate, reqDelta.issue = some issue ∧
          trustTransferLockedBalance env (tx.transfer slep issue reqDelta.value rate) false view =
            .ok view') := by
  unfold PayChanClaim.pay at h
  split at h
  next hn =>
    obtain ⟨sled, -, h⟩ := bind_eq_ok.mp h
    cases h
    exact ⟨rfl, rfl, rfl, .inl ⟨hn, holds_setAccount _ _ _⟩⟩
  next issue hissue =>
    replace h := of_check h
    split at h
    · exact nomatch h
    next lockedRate _ =>
      obtain ⟨view₁, htra, h⟩ := bind_eq_ok.mp h
      cases h
      exact ⟨rfl, rfl, rfl, .inr ⟨issue, _, hissue, htra⟩⟩

/-- **A claim is processed**: what it asks for beyond what was paid is there. -/
theorem PayChanClaim.claim_eq_ok (h : tx.claim env slep reqBalance view = .ok (slep', view')) :
    reqBalance.value ≤ slep.amount.value ∧
      ∃ reqDelta view₁, reqDelta.value = reqBalance.value - slep.balance.value ∧
        reqDelta.issue = reqBalance.issue ∧
        tx.pay env slep reqBalance reqDelta view = .ok (slep', view₁) ∧
        view' = view₁.setPayChan tx.channel (some slep') := by
  replace h := of_check (of_check (of_check h))
  obtain ⟨hfun, h⟩ := of_failIf h
  replace h := of_check (of_check h)
  obtain ⟨_, -, h⟩ := bind_eq_ok.mp h
  replace h := of_check h
  replace h := of_check h
  obtain ⟨reqDelta, hdel, h⟩ := bind_eq_ok.mp h
  obtain ⟨⟨slep₁, view₁⟩, hpay, h⟩ := bind_eq_ok.mp h
  cases h
  obtain ⟨hval, hissue⟩ := STAmount.sub_eq_ok hdel
  exact ⟨not_lt.mp hfun, reqDelta, view₁, hval, hissue, hpay, rfl⟩

theorem PayChanClaim.renewExpiration_eq_ok (h : tx.renewExpiration slep view = .ok (slep', view')) :
    slep.SameFunds slep' ∧
      (slep' = slep ∧ view' = view ∨ view' = view.setPayChan tx.channel (some slep')) := by
  unfold PayChanClaim.renewExpiration at h
  split at h
  · replace h := of_check h
    cases h
    exact ⟨⟨rfl, rfl, rfl⟩, .inr rfl⟩
  · cases h
    exact ⟨.refl slep, .inl ⟨rfl, rfl⟩⟩

theorem PayChanClaim.requestClose_eq_ok {curExpiration : Option Nat}
    (h : tx.requestClose env curExpiration slep view = .ok view') :
    closeChannel env slep tx.channel view = .ok view' ∨ view' = view ∨
      ∃ slep', view' = view.setPayChan tx.channel (some slep') ∧ slep.SameFunds slep' := by
  unfold PayChanClaim.requestClose at h
  split at h
  · split at h
    · exact .inl h
    · dsimp only at h
      split at h
      · exact .inr (.inr ⟨_, (Except.ok.inj h).symm, ⟨rfl, rfl, rfl⟩⟩)
      · exact .inr (.inl (Except.ok.inj h).symm)
  · exact .inr (.inl (Except.ok.inj h).symm)

/-- **The phases of a claim**: unless the channel has expired, a balance is claimed, the channel
renewed, and perhaps closed. -/
theorem PayChanClaim.doApply_eq_ok (h : tx.doApply env view = .ok view') :
    ∃ slep, view.payChan tx.channel = some slep ∧
      (closeChannel env slep tx.channel view = .ok view' ∨
        ∃ slep₁ view₁ slep₂ view₂,
          (tx.balance = none ∧ slep₁ = slep ∧ view₁ = view ∨
            ∃ reqBalance, tx.balance = some reqBalance ∧
              tx.claim env slep reqBalance view = .ok (slep₁, view₁)) ∧
          tx.renewExpiration slep₁ view₁ = .ok (slep₂, view₂) ∧
          tx.requestClose env slep.expiration slep₂ view₂ = .ok view') := by
  unfold PayChanClaim.doApply at h
  split at h
  · exact nomatch h
  next slep hslep =>
    refine ⟨slep, hslep, ?_⟩
    split at h
    · exact .inl h
    replace h := of_check h
    obtain ⟨⟨slep₁, view₁⟩, hcla, h⟩ := bind_eq_ok.mp h
    obtain ⟨⟨slep₂, view₂⟩, hren, h⟩ := bind_eq_ok.mp h
    refine .inr ⟨slep₁, view₁, slep₂, view₂, ?_, hren, h⟩
    split at hcla
    next hn =>
      cases hcla
      exact .inl ⟨hn, rfl, rfl⟩
    next reqBalance hbal => exact .inr ⟨reqBalance, hbal, hcla⟩

/-! ## Histories -/

/-- A transaction on escrows or channels. -/
inductive Tx where
  | escrowCreate (tx : EscrowCreate)
  | escrowFinish (tx : EscrowFinish)
  | escrowCancel (tx : EscrowCancel)
  | payChanCreate (tx : PayChanCreate)
  | payChanFund (tx : PayChanFund)
  | payChanClaim (tx : PayChanClaim)

namespace Tx

/-- The checks of a transaction and its effect. -/
def run (env : Env) (view : View) : Tx → Except Ter View
  | escrowCreate tx => do
    tx.preflight env view.rules
    tx.doApply env view
  | escrowFinish tx => tx.doApply env view
  | escrowCancel tx => tx.doApply env view
  | payChanCreate tx => do
    tx.preflight view.rules
    tx.preclaim env view
    tx.doApply env view
  | payChanFund tx => do
    tx.preflight view.rules
    tx.doApply env view
  | payChanClaim tx => do
    tx.preflight view.rules
    tx.doApply env view

/-- The view after a transaction: one that fails has no effect. -/
def apply (env : Env) (view : View) (tx : Tx) : View :=
  match tx.run env view with
  | .ok view' => view'
  | .error _ => view

theorem apply_induction {tx : Tx} {P : View → Prop} (hfail : P view)
    (hok : ∀ view', tx.run env view = .ok view' → P view') : P (tx.apply env view) := by
  unfold apply
  split
  next view' h => exact hok view' h
  next => exact hfail

end Tx

/-- What happens to a ledger. -/
inductive Event where
  /-- A transaction on escrows or channels. -/
  | tx (tx : Tx)
  /-- Anything that leaves what is locked alone, like a payment. -/
  | other

inductive Step (env : Env) : View → Event → View → Prop where
  | tx {view : View} (tx : Tx) : Step env view (.tx tx) (tx.apply env view)
  | other {view view' : View} (h : view'.holds = view.holds) : Step env view .other view'

end Xahau.Token
