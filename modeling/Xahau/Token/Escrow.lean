import Xahau.Token.Lock

/-! # Escrows (`Escrow.cpp`) -/

namespace Xahau.Token

open Checked

/-- `after`: has the specified time passed? -/
def after (now mark : Nat) : Bool := decide (mark < now)

/-- `dirInsert` into the owner directory of the recipient, where it is wanted. -/
def View.dirInsertIf (view : View) (wanted : Bool) (destination : AccountID) (key : UInt256) :
    Except Ter (Option Nat × View) :=
  if wanted then do
    let (page, view) ← view.dirInsert destination key
    .ok (some page, view)
  else .ok (none, view)

/-! ## EscrowCreate -/

/-- An `EscrowCreate` transaction. -/
structure EscrowCreate where
  account : AccountID
  destination : AccountID
  amount : STAmount
  /-- `seqID`. -/
  seq : Nat
  condition : Option Blob := none
  cancelAfter : Option Nat := none
  finishAfter : Option Nat := none
  destinationTag : Option Nat := none

namespace EscrowCreate

section

variable (env : Env) (view : View) (tx : EscrowCreate)

/-- `EscrowCreate::preflight`, as far as it is about amounts, times and conditions. -/
def preflight (rules : Rules) (tx : EscrowCreate) : Except Ter PUnit := do
  failIf (tx.amount.isXRP = false ∧ rules.enabled .featurePaychanAndEscrowForTokens = false)
    .temBAD_AMOUNT
  failIf (∃ issue ∈ tx.amount.issue, isBadCurrency issue.currency = true) .temBAD_CURRENCY
  failIf (tx.amount.value ≤ 0) .temBAD_AMOUNT
  failIf (tx.cancelAfter = none ∧ tx.finishAfter = none) .temBAD_EXPIRATION
  failIf (∃ cancelAfter ∈ tx.cancelAfter, ∃ finishAfter ∈ tx.finishAfter, cancelAfter ≤ finishAfter)
    .temBAD_EXPIRATION
  failIf (rules.enabled .fix1571 = true ∧ tx.finishAfter = none ∧ tx.condition = none) .temMALFORMED
  match tx.condition with
  | none => .ok ⟨⟩
  | some cb => env.conditionCheck rules cb

/-- A time at which the escrow should end has passed before it is created. -/
def tooLate (mark : Option Nat) : Bool :=
  mark.any fun mark =>
    if view.rules.enabled .fix1571 then after view.parentCloseTime mark
    else decide (mark ≤ view.parentCloseTime)

def checkDestination : Except Ter PUnit := do
  let sled ← view.getAccount tx.destination .tecNO_DST
  failIf (sled.requireDestTag = true ∧ tx.destinationTag = none) .tecDST_TAG_NEEDED
  failIf (view.rules.enabled .featureDepositAuth = false ∧ tx.amount.isXRP = true ∧
    sled.disallowXRP = true) .tecNO_TARGET

def checkFunds : Except Ter PUnit := do
  let sle ← view.getAccount tx.account .tefINTERNAL
  let reserve : ℚ := view.fees.accountReserve (sle.ownerCount + 1).toNat
  failIf (sle.balance < reserve) .tecINSUFFICIENT_RESERVE
  match tx.amount.issue with
  | none => failIf (sle.balance < reserve + tx.amount.value) .tecUNFUNDED
  | some issue => do
    failIf (view.rules.enabled .featurePaychanAndEscrowForTokens = false) .temDISABLED
    trustTransferAllowed view [tx.account, tx.destination] issue
    canLock env view tx.account tx.amount

/-- `EscrowCreate::doApply`. -/
def doApply (view : View) : Except Ter View := do
  failIf (tooLate view tx.cancelAfter = true) .tecNO_PERMISSION
  failIf (tooLate view tx.finishAfter = true) .tecNO_PERMISSION
  checkFunds env view tx
  checkDestination view tx
  let key := env.escrowKeylet tx.account tx.seq
  failIf (view.escrow key ≠ none) .tefEXCEPTION
  let (ownerNode, view) ← view.dirInsert tx.account key
  -- if it's not a self-send, add escrow to recipient's owner directory
  let (destinationNode, view) ←
    view.dirInsertIf (decide (tx.destination ≠ tx.account)) tx.destination key
  let slep : Escrow :=
    { amount := tx.amount
      account := tx.account
      destination := tx.destination
      condition := tx.condition
      cancelAfter := tx.cancelAfter
      finishAfter := tx.finishAfter
      transferRate :=
        if view.rules.enabled .featurePaychanAndEscrowForTokens then
          some (transferRate view tx.amount.getIssuer)
        else none
      ownerNode := ownerNode
      destinationNode := destinationNode }
  let view ← lockFunds env (view.setEscrow key (some slep)) tx.account tx.amount
  .ok (adjustOwnerCount view tx.account 1)

end

end EscrowCreate

/-- Remove an escrow or channel from the directories of owner and recipient. -/
def removeFromDirs (view : View) (account destination : AccountID) (ownerNode : Nat)
    (destinationNode : Option Nat) (key : UInt256) : Except Ter View := do
  let view ← view.dirRemove account ownerNode key true
  match destinationNode with
  | none => .ok view
  | some page => view.dirRemove destination page key true

/-! ## EscrowFinish -/

/-- An `EscrowFinish` transaction. -/
structure EscrowFinish where
  account : AccountID
  /-- `sfEscrowID`, or else `keylet::escrow` of `sfOwner` and `sfOfferSequence`. -/
  escrow : UInt256
  condition : Option Blob := none
  fulfillment : Option Blob := none

namespace EscrowFinish

section

variable (env : Env) (tx : EscrowFinish) (view : View) (slep : Escrow)

def checkTimes : Except Ter PUnit :=
  let now := view.parentCloseTime
  if view.rules.enabled .fix1571 then do
    failIf (∃ mark ∈ slep.finishAfter, after now mark = false) .tecNO_PERMISSION
    failIf (∃ mark ∈ slep.cancelAfter, after now mark = true) .tecNO_PERMISSION
  else do
    failIf (∃ mark ∈ slep.finishAfter, now ≤ mark) .tecNO_PERMISSION
    failIf (∃ mark ∈ slep.cancelAfter, now ≤ mark) .tecNO_PERMISSION

def checkFulfillment : Except Ter PUnit := do
  failIf (∃ cb ∈ tx.condition, ∃ fb ∈ tx.fulfillment, env.checkCondition fb cb = false)
    .tecCRYPTOCONDITION_ERROR
  failIf (slep.condition = none ∧ tx.condition ≠ none) .tecCRYPTOCONDITION_ERROR
  failIf (slep.condition ≠ none ∧ slep.condition ≠ tx.condition) .tecCRYPTOCONDITION_ERROR

/-- The transfer of the tokens of an escrow. -/
def transfer (issue : Issue) (lockedRate : Nat) : Transfer where
  actingAcc := tx.account
  src := slep.account
  dst := slep.destination
  issue := issue
  amount := slep.amount.value
  deltaLockCount := -1
  -- update if issuer rate is less than locked rate
  lXferRate := min (transferRate view issue.account) lockedRate

/-- Pay the amount of an escrow to its destination. -/
def pay (dryRun : Bool) : Except Ter View :=
  match slep.amount.issue with
  | none =>
    if dryRun then .ok view
    else do
      let sled ← view.getAccount slep.destination .tecNO_DST
      .ok (view.setAccount slep.destination { sled with balance := sled.balance + slep.amount.value })
  | some issue => do
    failIf (view.rules.enabled .featurePaychanAndEscrowForTokens = false) .temDISABLED
    match slep.transferRate with
    | none => .error .tecINTERNAL
    | some lockedRate =>
      trustTransferLockedBalance env (tx.transfer view slep issue lockedRate) dryRun view

end

/-- `EscrowFinish::doApply`. -/
def doApply (env : Env) (tx : EscrowFinish) (view : View) : Except Ter View :=
  match view.escrow tx.escrow with
  | none => .error .tecNO_TARGET
  | some slep => do
    checkTimes view slep
    checkFulfillment env tx slep
    let sled ← view.getAccount slep.destination .tecNO_DST
    failIf (view.rules.enabled .featureDepositAuth = true ∧ sled.depositAuth = true ∧
      tx.account ≠ slep.destination ∧ view.depositPreauth slep.destination tx.account = false)
      .tecNO_PERMISSION
    -- perform a dry run of the transfer before we change anything on-ledger
    let _ ← pay env tx view slep true
    let view ← removeFromDirs view slep.account slep.destination slep.ownerNode
      slep.destinationNode tx.escrow
    let view ← pay env tx view slep false
    .ok ((adjustOwnerCount view slep.account (-1)).setEscrow tx.escrow none)

end EscrowFinish

/-! ## EscrowCancel -/

/-- An `EscrowCancel` transaction. -/
structure EscrowCancel where
  account : AccountID
  /-- `sfEscrowID`, or else `keylet::escrow` of `sfOwner` and `sfOfferSequence`. -/
  escrow : UInt256

namespace EscrowCancel

/-- The escrow can be cancelled at this time. -/
def expired (view : View) (slep : Escrow) : Bool :=
  slep.cancelAfter.any fun mark =>
    if view.rules.enabled .fix1571 then after view.parentCloseTime mark
    else decide (mark < view.parentCloseTime)

/-- Transfer the amount back, or unlock it: an issuer has locked nothing. -/
def unlock (env : Env) (view : View) (slep : Escrow) : Except Ter View :=
  match slep.amount.issue with
  | none => do
    let sle ← view.getAccount slep.account .tefEXCEPTION
    .ok (view.setAccount slep.account { sle with balance := sle.balance + slep.amount.value })
  | some issue => do
    failIf (view.rules.enabled .featurePaychanAndEscrowForTokens = false) .temDISABLED
    if issue.account = slep.account then .ok view
    else do
      let key := lineKey slep.account issue.account issue.currency
      let line ← trustAdjustLockedBalance env view key issue (-slep.amount.value) (-1)
      .ok (view.setLine key line)

/-- `EscrowCancel::doApply`. -/
def doApply (env : Env) (tx : EscrowCancel) (view : View) : Except Ter View :=
  match view.escrow tx.escrow with
  | none => .error .tecNO_TARGET
  | some slep => do
    failIf (expired view slep = false) .tecNO_PERMISSION
    -- dry run before we make any changes to ledger
    let _ ← unlock env view slep
    let view ← removeFromDirs view slep.account slep.destination slep.ownerNode
      slep.destinationNode tx.escrow
    let view ← unlock env view slep
    .ok ((adjustOwnerCount view slep.account (-1)).setEscrow tx.escrow none)

end EscrowCancel

end Xahau.Token
