import Xahau.Token.Escrow

/-! # Payment channels (`PayChan.cpp`) -/

namespace Xahau.Token

open Checked

/-! ## Closing a channel -/

/-- What the channel has not paid yet. -/
def PayChan.remaining (slep : PayChan) : Except Ter STAmount := slep.amount.sub slep.balance

section

variable (env : Env) (view : View) (src : AccountID) (amount : STAmount)

/-- What is left of the channel goes back to the owner, or is unlocked. In contrast to an escrow,
also the issuer needs a line. -/
def unlockRemaining : Except Ter View :=
  match amount.issue with
  | none => do
    let sle ← view.getAccount src .tefINTERNAL
    .ok (view.setAccount src { sle with balance := sle.balance + amount.value })
  | some issue => do
    let key := lineKey src issue.account issue.currency
    let line ← trustAdjustLockedBalance env view key issue (-amount.value) (-1)
    .ok (view.setLine key line)

/-- The dry run of closing a channel. -/
def canUnlockRemaining : Except Ter PUnit :=
  match amount.issue with
  | none => .ok ⟨⟩
  | some issue => do
    failIf (view.rules.enabled .featurePaychanAndEscrowForTokens = false) .temDISABLED
    let _ ← trustAdjustLockedBalance env view (lineKey src issue.account issue.currency) issue
      (-amount.value) (-1)
    .ok ⟨⟩

end

/-- `closeChannel`. -/
def closeChannel (env : Env) (slep : PayChan) (key : UInt256) (view : View) : Except Ter View := do
  let amount ← slep.remaining
  canUnlockRemaining env view slep.account amount
  let destinationNode :=
    if view.rules.enabled .fixPayChanRecipientOwnerDir then slep.destinationNode else none
  let view ← removeFromDirs view slep.account slep.destination slep.ownerNode destinationNode key
  let _ ← view.getAccount slep.account .tefINTERNAL
  let view ← unlockRemaining env view slep.account amount
  .ok ((adjustOwnerCount view slep.account (-1)).setPayChan key none)

/-! ## PayChanCreate -/

/-- A `PaymentChannelCreate` transaction. -/
structure PayChanCreate where
  account : AccountID
  destination : AccountID
  amount : STAmount
  /-- `seqID`. -/
  seq : Nat
  settleDelay : Nat := 0
  publicKey : Blob
  cancelAfter : Option Nat := none
  destinationTag : Option Nat := none

namespace PayChanCreate

/-- `PayChanCreate::preflight`, as far as it is about amounts, accounts and keys. -/
def preflight (rules : Rules) (tx : PayChanCreate) : Except Ter PUnit := do
  failIf (tx.amount.isXRP = false ∧ rules.enabled .featurePaychanAndEscrowForTokens = false)
    .temDISABLED
  failIf (∃ issue ∈ tx.amount.issue, isBadCurrency issue.currency = true) .temBAD_CURRENCY
  failIf (tx.amount.value ≤ 0) .temBAD_AMOUNT
  failIf (tx.account = tx.destination) .temDST_IS_SRC
  failIf (publicKeyType tx.publicKey = none) .temMALFORMED

section

variable (env : Env) (view : View) (tx : PayChanCreate)

def checkDestination : Except Ter PUnit := do
  let sled ← view.getAccount tx.destination .tecNO_DST
  failIf (view.rules.enabled .featureDisallowIncoming = true ∧ sled.disallowIncomingPayChan = true)
    .tecNO_PERMISSION
  failIf (sled.requireDestTag = true ∧ tx.destinationTag = none) .tecDST_TAG_NEEDED
  failIf (view.rules.enabled .featureDepositAuth = false ∧ tx.amount.isXRP = true ∧
    sled.disallowXRP = true) .tecNO_TARGET

/-- `PayChanCreate::preclaim`. -/
def preclaim : Except Ter PUnit := do
  let sle ← view.getAccount tx.account .terNO_ACCOUNT
  let reserve : ℚ := view.fees.accountReserve (sle.ownerCount + 1).toNat
  failIf (sle.balance < reserve) .tecINSUFFICIENT_RESERVE
  match tx.amount.issue with
  | none => failIf (sle.balance < reserve + tx.amount.value) .tecUNFUNDED
  | some issue => do
    failIf (view.rules.enabled .featurePaychanAndEscrowForTokens = false) .temDISABLED
    -- check for any possible bars to a channel existing between these accounts for this asset
    trustTransferAllowed view [tx.account, tx.destination] issue
    canLock env view tx.account tx.amount
  checkDestination view tx

/-- `PayChanCreate::doApply`. -/
def doApply (view : View) : Except Ter View := do
  let _ ← view.getAccount tx.account .tefINTERNAL
  let key := env.payChanKeylet tx.account tx.destination tx.seq
  failIf (view.payChan key ≠ none) .tefEXCEPTION
  let (ownerNode, view) ← view.dirInsert tx.account key
  let (destinationNode, view) ←
    view.dirInsertIf (view.rules.enabled .fixPayChanRecipientOwnerDir) tx.destination key
  let slep : PayChan :=
    { amount := tx.amount
      balance := tx.amount.zeroed
      account := tx.account
      destination := tx.destination
      settleDelay := tx.settleDelay
      publicKey := tx.publicKey
      cancelAfter := tx.cancelAfter
      expiration := none
      transferRate :=
        if view.rules.enabled .featurePaychanAndEscrowForTokens then
          some (transferRate view tx.amount.getIssuer)
        else none
      ownerNode := ownerNode
      destinationNode := destinationNode }
  let view ← lockFunds env (view.setPayChan key (some slep)) tx.account tx.amount
  .ok (adjustOwnerCount view tx.account 1)

end

end PayChanCreate

/-- The channel has expired. -/
def PayChan.expired (view : View) (slep : PayChan) : Bool :=
  slep.cancelAfter.any (fun mark => decide (mark ≤ view.parentCloseTime)) ||
    slep.expiration.any fun mark => decide (mark ≤ view.parentCloseTime)

/-! ## PayChanFund -/

/-- A `PaymentChannelFund` transaction. -/
structure PayChanFund where
  account : AccountID
  channel : UInt256
  amount : STAmount
  expiration : Option Nat := none

namespace PayChanFund

/-- `PayChanFund::preflight`, as far as it is about amounts. -/
def preflight (rules : Rules) (tx : PayChanFund) : Except Ter PUnit := do
  failIf (tx.amount.isXRP = false ∧ rules.enabled .featurePaychanAndEscrowForTokens = false)
    .temBAD_AMOUNT
  failIf (∃ issue ∈ tx.amount.issue, isBadCurrency issue.currency = true) .temBAD_CURRENCY
  failIf (tx.amount.value ≤ 0) .temBAD_AMOUNT

/-- The dry run for tokens; the channel with an adjusted transfer rate is returned. -/
def checkTokens (env : Env) (tx : PayChanFund) (view : View) (slep : PayChan) : Except Ter PayChan :=
  match tx.amount.issue with
  | none => .ok slep
  | some issue =>
    if view.rules.enabled .featurePaychanAndEscrowForTokens = false then .ok slep
    else
      match slep.transferRate with
      | none => .error .tecINTERNAL
      | some lockedRate => do
        let xferRate := transferRate view issue.account
        failIf (lockedRate < xferRate) .temBAD_TRANSFER_RATE
        -- issuer does not need to lock anything
        failIf (issue.account ≠ tx.account ∧ slep.balance.issue ≠ some issue) .temBAD_CURRENCY
        (if issue.account ≠ tx.account then do
          let _ ← trustAdjustLockedBalance env view
            (lineKey slep.account issue.account issue.currency) issue tx.amount.value 1
          .ok ⟨⟩
        else .ok ⟨⟩ : Except Ter PUnit)
        .ok { slep with transferRate := some (min xferRate lockedRate) }

/-- The channel with an extended expiration. -/
def extend (tx : PayChanFund) (view : View) (slep : PayChan) : Except Ter PayChan :=
  match tx.expiration with
  | none => .ok slep
  | some extend => do
    let minExpiration := view.parentCloseTime + slep.settleDelay
    let minExpiration :=
      match slep.expiration with
      | some expiration => if expiration < minExpiration then expiration else minExpiration
      | none => minExpiration
    failIf (extend < minExpiration) .temBAD_EXPIRATION
    .ok { slep with expiration := some extend }

def checkFunds (tx : PayChanFund) (view : View) (slep : PayChan) : Except Ter PUnit := do
  let sle ← view.getAccount tx.account .tefINTERNAL
  -- do not allow adding funds if dst does not exist
  let _ ← view.getAccount slep.destination .tecNO_DST
  let reserve : ℚ := view.fees.accountReserve sle.ownerCount.toNat
  failIf (sle.balance < reserve) .tecINSUFFICIENT_RESERVE
  failIf (tx.amount.isXRP = true ∧ sle.balance < reserve + tx.amount.value) .tecUNFUNDED

/-- `PayChanFund::doApply`. -/
def doApply (env : Env) (tx : PayChanFund) (view : View) : Except Ter View :=
  match view.payChan tx.channel with
  | none => .error .tecNO_ENTRY
  | some slep => do
    let slep ← tx.checkTokens env view slep
    if slep.expired view then closeChannel env slep tx.channel view
    else do
      -- only the owner can add funds or extend
      failIf (slep.account ≠ tx.account) .tecNO_PERMISSION
      let slep ← tx.extend view slep
      tx.checkFunds view slep
      let view ← lockFunds env view tx.account tx.amount
      let amount ← slep.amount.add tx.amount
      .ok (view.setPayChan tx.channel (some { slep with amount := amount }))

end PayChanFund

/-! ## PayChanClaim -/

/-- A `PaymentChannelClaim`. The signature was checked against the public key. -/
structure PayChanClaim where
  account : AccountID
  channel : UInt256
  balance : Option STAmount := none
  amount : Option STAmount := none
  signature : Option Blob := none
  publicKey : Option Blob := none
  /-- `tfRenew`. -/
  renew : Bool := false
  /-- `tfClose`. -/
  close : Bool := false

namespace PayChanClaim

def checkAmount (rules : Rules) (amount : Option STAmount) : Except Ter PUnit :=
  match amount with
  | none => .ok ⟨⟩
  | some amount => do
    failIf (amount.isXRP = false ∧ rules.enabled .featurePaychanAndEscrowForTokens = false)
      .temBAD_AMOUNT
    failIf (amount.value ≤ 0) .temBAD_AMOUNT

/-- `PayChanClaim::preflight`, as far as it is about amounts and flags. -/
def preflight (rules : Rules) (tx : PayChanClaim) : Except Ter PUnit := do
  checkAmount rules tx.balance
  checkAmount rules tx.amount
  match tx.balance, tx.amount with
  | some bal, some amt => do
    bal.check amt
    failIf (amt.value < bal.value) .temBAD_AMOUNT
  | _, _ => .ok ⟨⟩
  failIf (tx.close = true ∧ tx.renew = true) .temMALFORMED
  failIf (tx.signature ≠ none ∧ (tx.publicKey = none ∨ tx.balance = none)) .temMALFORMED

section

variable (env : Env) (tx : PayChanClaim) (curExpiration : Option Nat) (slep : PayChan) (view : View)

/-- The transfer of the tokens that are claimed. -/
def transfer (issue : Issue) (reqDelta : ℚ) (lockedRate : Nat) : Transfer where
  actingAcc := tx.account
  src := slep.account
  dst := slep.destination
  issue := issue
  amount := reqDelta
  deltaLockCount := 0
  lXferRate := lockedRate

/-- Pay what is claimed; the channel with its new balance is returned. -/
def pay (reqBalance reqDelta : STAmount) (view : View) : Except Ter (PayChan × View) :=
  match reqDelta.issue with
  | none => do
    let sled ← view.getAccount slep.destination .tecNO_DST
    .ok ({ slep with balance := reqBalance },
      view.setAccount slep.destination { sled with balance := sled.balance + reqDelta.value })
  | some issue => do
    failIf (view.rules.enabled .featurePaychanAndEscrowForTokens = false) .temDISABLED
    match slep.transferRate with
    | none => .error .tecINTERNAL
    | some lockedRate => do
      -- update if issuer rate is less than locked rate
      let rate := min (transferRate view slep.amount.getIssuer) lockedRate
      let view ← trustTransferLockedBalance env (tx.transfer slep issue reqDelta.value rate)
        false view
      .ok ({ slep with balance := reqBalance, transferRate := some rate }, view)

/-- Process the balance of a claim. -/
def claim (reqBalance : STAmount) (view : View) :
    Except Ter (PayChan × View) := do
  failIf (tx.account = slep.destination ∧ tx.signature = none) .temBAD_SIGNATURE
  failIf (tx.signature ≠ none ∧ tx.publicKey ≠ some slep.publicKey) .temBAD_SIGNER
  reqBalance.check slep.amount
  failIf (slep.amount.value < reqBalance.value) .tecUNFUNDED_PAYMENT
  reqBalance.check slep.balance
  -- nothing requested
  failIf (reqBalance.value ≤ slep.balance.value) .tecUNFUNDED_PAYMENT
  let sled ← view.getAccount slep.destination .tecNO_DST
  failIf (view.rules.enabled .featureDepositAuth = false ∧ slep.balance.isXRP = true ∧
    tx.account = slep.account ∧ sled.disallowXRP = true) .tecNO_TARGET
  failIf (view.rules.enabled .featureDepositAuth = true ∧ sled.depositAuth = true ∧
    tx.account ≠ slep.destination ∧ view.depositPreauth slep.destination tx.account = false)
    .tecNO_PERMISSION
  let reqDelta ← reqBalance.sub slep.balance
  let (slep, view) ← pay env tx slep reqBalance reqDelta view
  .ok (slep, view.setPayChan tx.channel (some slep))

/-- The part of `PayChanClaim::doApply` for `tfRenew`. -/
def renewExpiration : Except Ter (PayChan × View) :=
  if tx.renew then do
    failIf (slep.account ≠ tx.account) .tecNO_PERMISSION
    let slep := { slep with expiration := none }
    .ok (slep, view.setPayChan tx.channel (some slep))
  else .ok (slep, view)

/-- The part of `PayChanClaim::doApply` for `tfClose`. -/
def requestClose : Except Ter View :=
  if tx.close then
    -- channel will close immediately if dry or the receiver closes
    if slep.destination = tx.account ∨
        (STAmount.areComparable slep.balance slep.amount = true ∧
          slep.balance.value = slep.amount.value) then
      closeChannel env slep tx.channel view
    else
      let settleExpiration := view.parentCloseTime + slep.settleDelay
      if curExpiration.all fun expiration => decide (settleExpiration < expiration) then
        .ok (view.setPayChan tx.channel (some { slep with expiration := some settleExpiration }))
      else .ok view
  else .ok view

end

/-- `PayChanClaim::doApply`. -/
def doApply (env : Env) (tx : PayChanClaim) (view : View) : Except Ter View :=
  match view.payChan tx.channel with
  | none => .error .tecNO_TARGET
  | some slep =>
    if slep.expired view then closeChannel env slep tx.channel view
    else do
      failIf (tx.account ≠ slep.account ∧ tx.account ≠ slep.destination) .tecNO_PERMISSION
      let curExpiration := slep.expiration
      let (slep, view) ← (
        match tx.balance with
        | none => .ok (slep, view)
        | some reqBalance => tx.claim env slep reqBalance view : Except Ter (PayChan × View))
      let (slep, view) ← tx.renewExpiration slep view
      tx.requestClose env curExpiration slep view

end PayChanClaim

end Xahau.Token
