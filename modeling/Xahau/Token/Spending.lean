import Xahau.Token.Locked

/-! # Spending tokens that are locked (`Credit.cpp`, `DirectStep.cpp`, `View.cpp`)

An account can send on a line what it has there and is not locked. If that is nothing, it can still
send its own tokens, as many as the other account accepts. The two cases are told apart by the
number alone, so an account whose tokens are all locked is taken for one that has none. -/

namespace Xahau.Token

open Checked Function Holds LockFields Option RippleState

/-! ## What an account can send -/

/-- What the high account, or the low one, has on a line and can spend. -/
def RippleState.spendable (line : RippleState) (lockedBalanceAllowed high : Bool) : ℚ :=
  let amount := inTerms high line.balance
  match line.lockedBalance with
  | none => amount
  | some lockedBalance =>
    if lockedBalanceAllowed then
      let spendableBalance := amount - inTerms high lockedBalance
      -- if something bad does happen the line acts as a frozen line
      if spendableBalance < 0 ∨ amount < spendableBalance then 0 else spendableBalance
    else amount

section

variable (view : View) (account issuer : AccountID) (currency : Currency)

/-- `accountHolds` for a token, without regard to a freeze. -/
def accountHolds (issuer : AccountID) : ℚ :=
  match view.line (lineKey account issuer currency) with
  | none => 0
  | some line =>
    line.spendable (view.rules.enabled .featurePaychanAndEscrowForTokens)
      (decide (issuer.data < account.data))

/-- `creditLimit`: how many tokens of the issuer the account accepts. -/
def creditLimit : ℚ :=
  match view.line (lineKey account issuer currency) with
  | none => 0
  | some line => (line.side (decide (¬ account.data < issuer.data))).limit

/-- `DirectStepI::maxPaymentFlow`: the most that `src` can send to `dst`. -/
def maxPaymentFlow (src dst : AccountID) (currency : Currency) : ℚ :=
  let srcOwed := accountHolds view src currency dst
  if 0 < srcOwed then srcOwed else creditLimit view dst src currency + srcOwed

/-- The sender of an amount no longer needs the reserve for the line. -/
def clearsReserve (sender : AccountID) (side : Side) (before after : ℚ) : Bool :=
  decide (0 < before ∧ after ≤ 0 ∧ side.reserve = true ∧
    side.noRipple ≠ ((view.account sender).map AccountRoot.defaultRipple).getD false ∧
    side.freeze = false ∧ side.limit = 0 ∧ side.qualityIn = 0 ∧ side.qualityOut = 0)

end

/-- `rippleCredit`: send an amount on the line, created or deleted as needed. -/
def rippleCredit (env : Env) (view : View) (sender receiver : AccountID) (currency : Currency)
    (amount : ℚ) : Except Ter View :=
  let key := lineKey sender receiver currency
  match view.line key with
  | some line =>
    let senderHigh := decide (receiver.data < sender.data)
    let before := inTerms senderHigh line.balance
    let after := before - amount
    let side := line.side senderHigh
    let line := { line with balance := inTerms senderHigh after }
    if clearsReserve view sender side before after then
      let view := adjustOwnerCount view sender (-1)
      let line := line.setSide senderHigh { side with reserve := false }
      -- the balance is zero and the receiver does not need the line either
      if after = 0 ∧ (line.side (!senderHigh)).reserve = false then trustDelete env view key line
      else .ok (view.setLine key line)
    else .ok (view.setLine key line)
  | none => do
    let sleAccount ← view.getAccount receiver .tefINTERNAL
    trustCreate env view sender receiver currency (!sleAccount.defaultRipple) amount

/-! ## Lines that have what is locked -/

/-- One account has what is locked on the line, and the other has locked nothing. -/
structure RippleState.Backed (line : RippleState) (high : Bool) : Prop where
  nonneg : 0 ≤ line.lock.balance high
  le_balance : line.lock.balance high ≤ inTerms high line.balance

/-- **The holder has what is locked**; a missing line has neither. -/
def Backed (holder : AccountID) (issue : Issue) (view : View) : Prop :=
  ∀ line, view.line (holderLine holder issue) = some line → line.Backed (holderHigh holder issue)

variable {env : Env} {view view' : View} {holder : AccountID} {issue : Issue}
variable {line line' : RippleState} {high : Bool}

theorem backed_of_store {b : ℚ} {n : UInt32} (hlock : line.lock = store high b n) (hnn : 0 ≤ b)
    (hb : b ≤ inTerms high line.balance) : line.Backed high := by
  by_cases hzero : b = 0 ∨ n = 0
  · have hbal : line.lock.balance high = 0 := by
      rw [hlock, (store_of_zero high hzero).1]
    exact ⟨hbal.ge, hbal.trans_le (hnn.trans hb)⟩
  · have hbal : line.lock.balance high = b := by
      rw [hlock, (store_of_ne high hzero).1]
    exact ⟨hnn.trans_eq hbal.symm, hbal.trans_le hb⟩

variable {receiver sender : AccountID} {currency : Currency} {deltaLockCount : Int} {event : Spend}
  {t : Transfer} {amount : ℚ}

theorem adjustLocked_backed {deltaAmt : ℚ}
    (h : adjustLocked env line high deltaAmt deltaLockCount = .ok line') (hline : line.Backed high) :
    line'.Backed high := by
  replace h := of_check h
  split at h
  · cases h
    exact hline
  replace h := of_check h
  obtain ⟨hfun, h⟩ := of_failIf h
  obtain ⟨hneg, h⟩ := of_failIf h
  replace h := of_check (of_check h)
  cases h
  refine backed_of_store (lock_setLocked _ _ _ _) (not_lt.mp hneg) ?_
  rw [balance_setLocked]
  exact not_lt.mp hfun

theorem debitLocked_backed
    (h : debitLocked env line high amount deltaLockCount = .ok line') (hline : line.Backed high) :
    line'.Backed high := by
  obtain ⟨hamo, -, hlock⟩ := debitLocked_eq_ok h
  refine backed_of_store hlock (sub_nonneg.mpr hamo) ?_
  rw [debitLocked_balance h]
  exact sub_le_sub_right hline.le_balance amount

theorem credit_backed {acting : Bool} {dstAmt : ℚ} (h : credit env line high acting dstAmt = .ok line')
    (hline : line.Backed high) : line'.Backed high := by
  have hlock := credit_eq_ok h
  obtain ⟨hmore, h⟩ := of_failIf h
  replace h := of_check (of_check h)
  refine ⟨hlock ▸ hline.nonneg, ?_⟩
  rw [hlock, ← Except.ok.inj h]
  rw [inTerms_inTerms]
  exact hline.le_balance.trans (not_lt.mp hmore)

/-! ## Views -/

theorem holderHigh_of_lineKey {account : AccountID} {issue' : Issue} (hne : issue.account ≠ holder)
    (hissue : issue' = issue)
    (hkey : holderLine holder issue = lineKey account issue'.account issue'.currency) :
    account = holder ∧ decide (issue'.account.data < account.data) = holderHigh holder issue := by
  subst hissue
  rcases ours_of_lineKey hkey with ⟨rfl, -⟩ | ⟨-, hrev⟩
  · exact ⟨rfl, (holderHigh_eq hne).symm⟩
  · exact absurd (congrArg Issue.account hrev) hne

section

variable (h : Backed holder issue view)

include h

theorem Backed.of_update {key : LineKey} {entry : Option RippleState}
    (hlin : view'.line = update view.line key entry) (hent : holderLine holder issue = key →
      ∀ line, entry = some line → line.Backed (holderHigh holder issue)) :
    Backed holder issue view' := by
  intro line hline
  rw [hlin] at hline
  by_cases hkey : holderLine holder issue = key
  · rw [hkey, update_self] at hline
    exact hent hkey line hline
  · rw [update_of_ne hkey] at hline
    exact h line hline

theorem Backed.of_line_eq (hline : view'.line = view.line) : Backed holder issue view' := by
  intro line hline'
  rw [hline] at hline'
  exact h line hline'

theorem Backed.setLine {key : LineKey}
    (hline : holderLine holder issue = key → line.Backed (holderHigh holder issue)) :
    Backed holder issue (view.setLine key line) := by
  refine h.of_update rfl fun hkey line' hline' => ?_
  cases hline'
  exact hline hkey

theorem Backed.adjust {deltaAmt : ℚ} {deltaLockCount : Int}
    (hadj : trustAdjustLockedBalance env view (holderLine holder issue) issue deltaAmt
      deltaLockCount = .ok line') :
    Backed holder issue (view.setLine (holderLine holder issue) line') := by
  obtain ⟨line, hline, hadj⟩ := trustAdjustLockedBalance_eq_ok hadj
  exact h.setLine fun _ => adjustLocked_backed hadj (h line hline)

theorem Backed.debit {t : Transfer} (hne : issue.account ≠ holder)
    (hissue : t.issue = issue) (hdeb : t.debit env false view = .ok view') :
    Backed holder issue view' := by
  rcases Transfer.debit_wet hdeb with ⟨-, rfl⟩ | ⟨-, line, line', hline, hline', rfl⟩
  · exact h
  · refine h.setLine fun hkey => ?_
    obtain ⟨-, hhigh⟩ := holderHigh_of_lineKey hne hissue hkey
    rw [← hhigh]
    refine debitLocked_backed hline' ?_
    rw [hhigh]
    exact h line (hkey ▸ hline)

end

theorem Transfer.dstAmt_nonneg (h : 0 < t.amount) : 0 ≤ t.dstAmt := by
  unfold Transfer.dstAmt
  split
  · rw [sub_sub_cancel]
    exact div_nonneg (mul_nonneg h.le (Nat.cast_nonneg _)) (Nat.cast_nonneg _)
  · exact h.le

theorem Backed.creditDst {sleDstAcc : AccountRoot} (h : Backed holder issue view)
    (hne : issue.account ≠ holder) (hissue : t.issue = issue) (hpos : 0 < t.amount)
    (hcre : t.creditDst env false sleDstAcc view = .ok view') : Backed holder issue view' := by
  obtain ⟨-, rfl⟩ | ⟨-, ⟨-, hcre⟩ | ⟨line, line', hline, hline', rfl⟩⟩ :=
    Transfer.creditDst_cases hcre
  · exact h
  · obtain ⟨line, hlin, hbal, hlock⟩ := trustCreate_line hcre
    refine h.of_update hlin fun hkey line' hline' => ?_
    cases hline'
    rw [lineKey_comm] at hkey
    obtain ⟨rfl, -⟩ := holderHigh_of_lineKey hne hissue hkey
    -- the new line is in the terms of the destination
    have hhigh : decide ((lineKey t.issue.account t.dst t.issue.currency).high = t.dst) =
        holderHigh t.dst issue := by
      unfold holderHigh
      rw [hkey, ← hissue, lineKey_comm t.dst, decide_eq_decide]
      exact lineKey_high_eq_iff (hissue ▸ hne) _
    have hzero : line.lock.balance (holderHigh t.dst issue) = 0 := by
      rw [hlock]
      exact inTerms_zero _
    refine ⟨hzero.ge, hzero.trans_le ?_⟩
    rw [hbal, hhigh, inTerms_inTerms]
    exact Transfer.dstAmt_nonneg hpos
  · refine h.setLine fun hkey => ?_
    obtain ⟨-, hhigh⟩ := holderHigh_of_lineKey hne hissue hkey
    rw [← hhigh]
    refine credit_backed hline' ?_
    rw [hhigh]
    exact h line (hkey ▸ hline)

theorem Backed.releaseReserve (t : Transfer) (h : Backed holder issue view) :
    Backed holder issue (t.releaseReserve view) := by
  unfold Transfer.releaseReserve
  split
  · exact h
  split
  · exact h
  next line hline =>
    dsimp only
    split
    · refine Backed.of_line_eq (h.setLine fun hkey => ?_) (View.line_adjustOwnerCount _ _ _)
      have hbac := h line (hkey ▸ hline)
      constructor
      · rw [lock_setSide]
        exact hbac.nonneg
      · rw [lock_setSide, balance_setSide]
        exact hbac.le_balance
    · exact h

/-- **A transfer of locked tokens** leaves what is locked backed. -/
theorem Backed.transfer (h : Backed holder issue view) (hne : issue.account ≠ holder)
    (hissue : t.issue = issue) (ht : trustTransferLockedBalance env t false view = .ok view') :
    Backed holder issue view' := by
  obtain ⟨hpos, sleDstAcc, view₁, view₂, hdeb, hcre, rfl⟩ := trustTransferLockedBalance_cases ht
  exact ((h.debit hne hissue hdeb).creditDst hne hissue hpos hcre).releaseReserve t

/-! ## Payments -/

section

variable (holder : AccountID) (issue : Issue) (view : View)

/-- What is locked on the line of the holder, zero if there is no line. -/
def lockedBalance : ℚ :=
  (view.lock (holderLine holder issue)).balance (holderHigh holder issue)

/-- What the holder has on the line, zero if there is no line. -/
def heldBalance : ℚ :=
  ((view.line (holderLine holder issue)).map fun line =>
    inTerms (holderHigh holder issue) line.balance).getD 0

end

theorem backed_iff : Backed holder issue view ↔ 0 ≤ lockedBalance holder issue view ∧
    lockedBalance holder issue view ≤ heldBalance holder issue view := by
  unfold Backed lockedBalance heldBalance View.lock
  cases hline : view.line (holderLine holder issue) with
  | none =>
    have hzero := inTerms_zero (holderHigh holder issue)
    constructor
    · exact fun _ => ⟨hzero.ge, hzero.le⟩
    · exact fun _ line hn => absurd hn.symm (some_ne_none line)
  | some line =>
    constructor
    · intro h
      exact ⟨(h line rfl).nonneg, (h line rfl).le_balance⟩
    intro h line' hline'
    cases hline'
    exact ⟨h.1, h.2⟩

theorem RippleState.Backed.spendable_eq (h : line.Backed high) :
    line.spendable true high = inTerms high line.balance - line.lock.balance high := by
  obtain ⟨hnn, hle⟩ := h
  unfold spendable
  unfold lock LockFields.balance at hnn hle ⊢
  cases hloc : line.lockedBalance with
  | none =>
    dsimp only [getD_none]
    rw [inTerms_zero, sub_zero]
  | some lockedBalance =>
    rw [hloc] at hnn hle
    dsimp only [getD_some] at hnn hle ⊢
    rw [if_pos rfl, if_neg]
    rintro (hlt | hlt)
    · linarith
    · linarith

/-- **What the holder can spend** is what is not locked. -/
theorem Backed.accountHolds_eq (h : Backed holder issue view) (hne : issue.account ≠ holder)
    (hena : view.rules.enabled .featurePaychanAndEscrowForTokens = true) :
    accountHolds view holder issue.currency issue.account =
      heldBalance holder issue view - lockedBalance holder issue view := by
  unfold accountHolds heldBalance lockedBalance
  rw [hena, ← holderHigh_eq hne]
  split
  next hn =>
    have hn' : view.line (holderLine holder issue) = none := hn
    rw [hn', View.lock, hn']
    exact (sub_eq_zero.mpr (inTerms_zero (holderHigh holder issue)).symm).symm
  next line hline =>
    have hline' : view.line (holderLine holder issue) = some line := hline
    rw [hline', View.lock_of_line hline', map_some, getD_some]
    exact (h line hline').spendable_eq

theorem rippleCredit_line (hline : view.line (lineKey sender receiver currency) = some line)
    (h : rippleCredit env view sender receiver currency amount = .ok view') :
    view'.line = update view.line (lineKey sender receiver currency) none ∨
      ∃ line', view'.line = update view.line (lineKey sender receiver currency)
          (some line') ∧
        line'.balance = inTerms (decide (receiver.data < sender.data))
          (inTerms (decide (receiver.data < sender.data)) line.balance - amount) ∧
        line'.lock = line.lock := by
  unfold rippleCredit at h
  dsimp only at h
  rw [hline] at h
  dsimp only at h
  split at h
  · split at h
    · obtain ⟨dirs, rfl⟩ := trustDelete_eq_ok h
      exact .inl (congrArg (update · _ _) (View.line_adjustOwnerCount _ _ _))
    · cases h
      rw [View.setLine]
      refine .inr ⟨_, congrArg (update · _ _) (View.line_adjustOwnerCount _ _ _), ?_, ?_⟩
      · rw [balance_setSide]
      · rw [lock_setSide]
        rfl
  · cases h
    exact .inr ⟨_, rfl, rfl, rfl⟩

theorem rippleCredit_rules (h : rippleCredit env view sender receiver currency amount = .ok view') :
    view'.rules = view.rules := by
  unfold rippleCredit at h
  dsimp only at h
  split at h
  · split at h
    · split at h
      · obtain ⟨dirs, rfl⟩ := trustDelete_eq_ok h
        exact View.rules_adjustOwnerCount _ _ _
      · cases h
        exact View.rules_adjustOwnerCount _ _ _
    · cases h
      rfl
  · obtain ⟨sleAccount, -, h⟩ := bind_eq_ok.mp h
    obtain ⟨dirs, line, rfl, -⟩ := trustCreate_eq_ok h
    rw [View.rules_adjustOwnerCount]
    rfl

/-- **A payment that leaves the locked tokens** leaves them backed. -/
theorem Backed.rippleCredit (h : Backed holder issue view) (hne : issue.account ≠ holder)
    (hpos : 0 < amount) (hamo : amount ≤ heldBalance holder issue view - lockedBalance holder issue view)
    (hpay : Token.rippleCredit env view holder issue.account issue.currency amount = .ok view') :
    Backed holder issue view' := by
  obtain ⟨line, hline⟩ : ∃ line, view.line (holderLine holder issue) = some line := by
    by_contra hn
    have hn' : view.line (holderLine holder issue) = none := by
      rw [eq_none_iff_forall_ne_some]
      exact fun line hline => hn ⟨line, hline⟩
    unfold heldBalance lockedBalance View.lock at hamo
    rw [hn'] at hamo
    have hzero : amount ≤ 0 - inTerms (holderHigh holder issue) 0 := hamo
    rw [inTerms_zero, sub_zero] at hzero
    exact absurd hpos hzero.not_gt
  rcases rippleCredit_line hline hpay with hlin | ⟨line', hlin, hbal, hlock⟩
  · exact h.of_update hlin fun _ _ hn => nomatch hn
  refine h.of_update hlin fun _ line₁ hline₁ => ?_
  cases hline₁
  rw [← holderHigh_eq hne] at hbal
  unfold heldBalance lockedBalance at hamo
  rw [hline, View.lock_of_line hline] at hamo
  have hbac := h line hline
  refine ⟨hlock ▸ hbac.nonneg, ?_⟩
  rw [hlock, hbal, inTerms_inTerms]
  exact le_sub_comm.mp hamo

/-! ## Histories -/

/-- What happens to the tokens of the issuer. -/
inductive Spend where
  /-- The holder locks or unlocks an amount. -/
  | adjust (deltaAmt : ℚ) (deltaLockCount : Int)
  /-- Locked tokens are transferred, from any account to any account. -/
  | transfer (t : Transfer)
  /-- The holder pays the issuer. -/
  | pay (amount : ℚ)

/-- The steps of a ledger: any amount that `maxPaymentFlow` allows is paid. -/
inductive SpendStep (env : Env) (holder : AccountID) (issue : Issue) : View → Spend → View → Prop where
  | adjust {view : View} {deltaAmt : ℚ} {deltaLockCount : Int} {line : RippleState}
      (h : trustAdjustLockedBalance env view (holderLine holder issue) issue deltaAmt deltaLockCount =
        .ok line) :
      SpendStep env holder issue view (.adjust deltaAmt deltaLockCount)
        (view.setLine (holderLine holder issue) line)
  | transfer {view view' : View} {t : Transfer} (hissue : t.issue = issue)
      (h : trustTransferLockedBalance env t false view = .ok view') :
      SpendStep env holder issue view (.transfer t) view'
  | pay {view view' : View} {amount : ℚ} (hpos : 0 < amount)
      (hmax : amount ≤ maxPaymentFlow view holder issue.account issue.currency)
      (h : rippleCredit env view holder issue.account issue.currency amount = .ok view') :
      SpendStep env holder issue view (.pay amount) view'

/-- A payment is made only if the issuer accepts no tokens of the holder, or more than what is
locked is there. -/
def Affordable (holder : AccountID) (issue : Issue) (view : View) : Spend → Prop
  | .pay _ => creditLimit view issue.account holder issue.currency ≤ 0 ∨
      lockedBalance holder issue view < heldBalance holder issue view
  | _ => True

theorem Backed.step (h : Backed holder issue view) (hne : issue.account ≠ holder)
    (hena : view.rules.enabled .featurePaychanAndEscrowForTokens = true)
    (haff : Affordable holder issue view event) (hstep : SpendStep env holder issue view event view') :
    Backed holder issue view' := by
  cases hstep with
  | adjust hadj => exact h.adjust hadj
  | transfer hissue htra => exact h.transfer hne hissue htra
  | pay hpos hmax hpay =>
    unfold maxPaymentFlow at hmax
    dsimp only at hmax
    rw [h.accountHolds_eq hne hena] at hmax
    split at hmax
    · exact h.rippleCredit hne hpos hmax hpay
    next hnot =>
      -- only the limit of the issuer would allow a payment
      rcases haff with hlim | hmore
      · linarith
      · exact absurd (sub_pos.mpr hmore) hnot

theorem SpendStep.rules_eq (hstep : SpendStep env holder issue view event view') :
    view'.rules = view.rules := by
  cases hstep with
  | adjust => rfl
  | transfer _ h => exact trustTransferLockedBalance_rules h
  | pay _ _ h => exact rippleCredit_rules h

/-- The holder has 100 tokens, and the issuer accepts 50 tokens of the holder. -/
def sampleTrusted : View :=
  { sampleLedger with
    line := fun key =>
      if key = lineKey sampleHolder sampleIssuer sampleCurrency then
        some { balance := 100, low := {}, high := { limit := 50 } }
      else none }

end Xahau.Token
