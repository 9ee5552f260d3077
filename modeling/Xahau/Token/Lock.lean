import Xahau.Token.Ledger

/-! # Locked balances (`View.h`)

Tokens in an escrow or a payment channel stay on the trust line of the holder, but are locked there. -/

namespace Xahau.Token

open Checked

/-! ## Bars to a transfer -/

/-- The bars to a transfer on one party's line: `alone` without another party. -/
def partyAllowed (view : View) (requireAuth alone : Bool) (issue : Issue) (p : AccountID) :
    Except Ter PUnit :=
  if p = issue.account then .ok ⟨⟩
  else
    let key := lineKey p issue.account issue.currency
    match view.line key with
    | none => failIf (requireAuth = true) .tecNO_AUTH
    | some line => do
      -- these strange old lines are always a bar
      failIf (view.rules.enabled .featurePaychanAndEscrowForTokens = true ∧ key.low = key.high)
        .tecINTERNAL
      let issuerSide := line.side (decide (¬ issue.account.data < p.data))
      failIf (issuerSide.freeze = true) .tecFROZEN
      failIf (alone = false ∧ issuerSide.noRipple = true) .tecPATH_DRY
      failIf (requireAuth = true ∧ issuerSide.auth = false) .tecNO_AUTH

section

variable (env : Env) (view : View) (key : LineKey) (issue : Issue) (deltaAmt : ℚ)
  (deltaLockCount : Int)

/-- `trustTransferAllowed`. -/
def trustTransferAllowed (parties : List AccountID) (issue : Issue) :
    Except Ter PUnit := do
  failIf (isBadCurrency issue.currency = true) .tecNO_PERMISSION
  let sleIssuerAcc ← view.getAccount issue.account .tecNO_ISSUER
  -- the account zero is no issuer
  failIf (issue.account ≠ .zero ∧ sleIssuerAcc.globalFreeze = true) .tecFROZEN
  parties.forM (partyAllowed view sleIssuerAcc.requireAuth (parties.length ≤ 1) issue)

/-! ## Locking and unlocking -/

/-- The lock counter after a change wraps around. -/
def countOverflows (priorLockCount finalLockCount : UInt32) : Bool :=
  decide ((0 < deltaLockCount ∧ finalLockCount < priorLockCount) ∨
    (deltaLockCount < 0 ∧ priorLockCount < finalLockCount) ∨
    (deltaLockCount = 0 ∧ priorLockCount ≠ finalLockCount))

/-- The line with a locked balance, in the terms of one account, and a lock count. Neither is kept
if one is zero. -/
def RippleState.setLocked (line : RippleState) (high : Bool) (finalLockedBalance : ℚ)
    (finalLockCount : UInt32) : RippleState :=
  if finalLockedBalance = 0 ∨ finalLockCount = 0 then
    { line with lockedBalance := none, lockCount := none }
  else
    { line with lockedBalance := some (inTerms high finalLockedBalance)
                lockCount := some finalLockCount }

/-- The new locked balance in `trustAdjustLockedBalance`. -/
def adjustLocked (line : RippleState) (high : Bool) (deltaAmt : ℚ) (deltaLockCount : Int) :
    Except Ter RippleState := do
  let balance := inTerms high line.balance
  -- this would mean somehow the issuer is trying to lock balance
  failIf (balance < 0) .tecINTERNAL
  if deltaAmt = 0 then .ok line
  else do
    -- can't lock or unlock a zero balance
    failIf (balance = 0) .tecUNFUNDED_PAYMENT
    let priorLockedBalance := inTerms high (line.lockedBalance.getD 0)
    let priorLockCount := line.lockCount.getD 0
    let finalLockCount := priorLockCount + .ofInt deltaLockCount
    let finalLockedBalance := priorLockedBalance + deltaAmt
    failIf (balance < finalLockedBalance) .tecINSUFFICIENT_FUNDS
    failIf (finalLockedBalance < 0) .tecINTERNAL
    failIf (env.isAddable balance deltaAmt = false ∨
      env.isAddable priorLockedBalance deltaAmt = false ∨
      env.isAddable finalLockedBalance balance = false) .tecPRECISION_LOSS
    failIf (countOverflows deltaLockCount priorLockCount finalLockCount = true) .tecOVERSIZE
    .ok (line.setLocked high finalLockedBalance finalLockCount)

/-- `trustAdjustLockedBalance`: lock a positive amount, unlock a negative one. The result of a dry
run is not used. -/
def trustAdjustLockedBalance : Except Ter RippleState := do
  failIf (view.rules.enabled .featurePaychanAndEscrowForTokens = false) .temDISABLED
  match view.line key with
  | none => .error .tecNO_LINE
  | some line => do
    -- the account is always the side that isn't the issuer
    let high := decide (key.low = issue.account)
    trustTransferAllowed view [if high then key.high else key.low] issue
    adjustLocked env line high deltaAmt deltaLockCount

/-! ## Transferring a locked balance -/

/-- `trustTransferLockedBalance` takes the amount from the source's line. -/
def debitLocked (line : RippleState) (high : Bool) (amount : ℚ) (deltaLockCount : Int) :
    Except Ter RippleState :=
  match line.lockedBalance, line.lockCount with
  | some lockedBalance, some priorLockCount => do
    let priorBalance := inTerms high line.balance
    let priorLockedBalance := inTerms high lockedBalance
    failIf (priorLockedBalance < amount) .tecINSUFFICIENT_FUNDS
    let finalBalance := priorBalance - amount
    let finalLockedBalance := priorLockedBalance - amount
    let finalLockCount := priorLockCount + .ofInt deltaLockCount
    failIf (env.isAddable priorBalance amount = false ∨
      env.isAddable priorLockedBalance amount = false) .tecPRECISION_LOSS
    failIf (countOverflows deltaLockCount priorLockCount finalLockCount = true) .tecOVERSIZE
    failIf (finalBalance < 0 ∨ finalLockedBalance < 0) .tecINTERNAL
    .ok ({ line with balance := inTerms high finalBalance }.setLocked high finalLockedBalance
      finalLockCount)
  | _, _ => .error .tecINSUFFICIENT_FUNDS

/-- `trustTransferLockedBalance` gives an amount to an existing line. -/
def credit (line : RippleState) (high acting : Bool) (dstAmt : ℚ) :
    Except Ter RippleState := do
  let priorBalance := inTerms high line.balance
  let finalBalance := priorBalance + dstAmt
  failIf (finalBalance < priorBalance) .tecINTERNAL
  failIf ((line.side high).limit < finalBalance ∧ acting = false) .tecPATH_DRY
  failIf (env.isAddable priorBalance dstAmt = false) .tecPRECISION_LOSS
  .ok { line with balance := inTerms high finalBalance }

end

/-- The parameters of `trustTransferLockedBalance` but for the view. -/
structure Transfer where
  /-- The account whose transaction is actioning the transfer. -/
  actingAcc : AccountID
  src : AccountID
  dst : AccountID
  issue : Issue
  amount : ℚ
  deltaLockCount : Int
  /-- The locked transfer rate. -/
  lXferRate : Nat

namespace Transfer

section

variable (env : Env) (t : Transfer) (dryRun : Bool) (sleDstAcc : AccountRoot) (view : View)

/-- The line of the source. -/
def srcKey : LineKey := lineKey t.src t.issue.account t.issue.currency

/-- The line of the destination. -/
def dstKey : LineKey := lineKey t.dst t.issue.account t.issue.currency

/-- The source is the high account of its line. -/
def srcHigh : Bool := decide (t.issue.account.data < t.src.data)

/-- The destination is the high account of its line. -/
def dstHigh : Bool := decide (t.issue.account.data < t.dst.data)

/-- What arrives, after the transfer fee. -/
def dstAmt : ℚ :=
  if t.src ≠ t.issue.account ∧ t.dst ≠ t.issue.account ∧ t.lXferRate ≠ parityRate then
    t.amount - (t.amount - t.amount * parityRate / t.lXferRate)
  else t.amount

/-- The part that takes the amount from the source; a dry run changes nothing. -/
def debit : Except Ter View :=
  if t.src = t.issue.account then .ok view
  else
    match view.line t.srcKey with
    | none => .error .tecNO_LINE
    | some line => do
      let line ← debitLocked env line t.srcHigh t.amount t.deltaLockCount
      .ok (if dryRun then view else view.setLine t.srcKey line)

/-- The part that gives the amount to the destination. -/
def creditDst : Except Ter View :=
  if t.dst = t.issue.account then .ok view
  else
    match view.line t.dstKey with
    | none => do
      failIf (t.actingAcc ≠ t.dst ∧ t.src ≠ t.dst) .tecNO_LINE
      -- no destination line exists, we might be able to create one
      failIf (sleDstAcc.balance < view.fees.accountReserve ((sleDstAcc.ownerCount + 1).toNat))
        .tecNO_LINE_INSUF_RESERVE
      let created := trustCreate env view t.issue.account t.dst t.issue.currency
        (!sleDstAcc.defaultRipple) t.dstAmt
      if dryRun then .ok view else created
    | some line => do
      let line ← credit env line t.dstHigh (t.actingAcc = t.dst) t.dstAmt
      .ok (if dryRun then view else view.setLine t.dstKey line)

/-- The source's reserve is given up if its line is in default state. -/
def releaseReserve : View :=
  if t.src = t.issue.account then view
  else
    match view.line t.srcKey with
    | none => view
    | some line =>
      let side := line.side t.srcHigh
      if isTrustDefault t.srcHigh line = true ∧ side.reserve = true then
        adjustOwnerCount
          (view.setLine t.srcKey (line.setSide t.srcHigh { side with reserve := false })) t.src (-1)
      else view

end

end Transfer

section

variable (env : Env) (view : View) (account : AccountID) (amount : STAmount)

/-- `trustTransferLockedBalance`: from a locked balance to an unlocked one on another line, which
may be created. -/
def trustTransferLockedBalance (t : Transfer) (dryRun : Bool) (view : View) :
    Except Ter View := do
  failIf (view.rules.enabled .featurePaychanAndEscrowForTokens = false) .tefINTERNAL
  let _ ← view.getAccount t.src .tecINTERNAL
  let sleDstAcc ← view.getAccount t.dst .tecINTERNAL
  failIf (t.amount ≤ 0) .tecINTERNAL
  trustTransferAllowed view [t.src, t.dst] t.issue
  let view ← t.debit env dryRun view
  let view ← t.creditDst env dryRun sleDstAcc view
  .ok (if dryRun then view else t.releaseReserve view)

/-! ## Funds of escrows and channels -/

/-- The dry run with which funds are locked: an issuer need not lock anything. -/
def canLock : Except Ter PUnit :=
  match amount.issue with
  | none => .ok ⟨⟩
  | some issue =>
    if issue.account = account then .ok ⟨⟩
    else do
      let _ ← trustAdjustLockedBalance env view (lineKey account issue.account issue.currency) issue
        amount.value 1
      .ok ⟨⟩

/-- The funds of an escrow or a channel are deducted or locked. -/
def lockFunds : Except Ter View :=
  match amount.issue with
  | none => do
    let sle ← view.getAccount account .tefINTERNAL
    .ok (view.setAccount account { sle with balance := sle.balance - amount.value })
  | some issue => do
    failIf (view.rules.enabled .featurePaychanAndEscrowForTokens = false) .temDISABLED
    if issue.account = account then .ok view
    else do
      let key := lineKey account issue.account issue.currency
      let line ← trustAdjustLockedBalance env view key issue amount.value 1
      .ok (view.setLine key line)

end

end Xahau.Token
