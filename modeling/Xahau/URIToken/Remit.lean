import Xahau.URIToken.Transactions

/-! # Remits (`Remit.cpp`)

A remit sends tokens, amounts and a freshly minted token to one account, which is created if it does not
exist. The sender pays the reserves of whatever is created. -/

namespace Xahau.URIToken

open Checked Token

/-- `sfMintURIToken`. -/
structure MintURIToken where
  uri : Blob
  digest : Option UInt256
  flags : Option UInt32

/-- A `ttREMIT`. -/
structure Remit where
  account : AccountID
  /-- `sfFee`, in drops. -/
  fee : ℚ
  flags : UInt32
  destination : AccountID
  destinationTag : Option UInt32
  inform : Option AccountID
  blob : Option Blob
  mintURIToken : Option MintURIToken
  uriTokenIDs : Option (List UInt256)
  amounts : Option (List STAmount)

namespace Remit

/-! ## Checks of the transaction alone -/

/-- The loop of `Remit::preflight` over `sfAmounts`, after the issues seen. -/
def checkAmounts : List (Option Issue) → List STAmount → Except Ter PUnit
  | _, [] => .ok ⟨⟩
  | already, amount :: amounts => do
    failIf (amount.value ≤ 0) .temBAD_AMOUNT
    failIf (amount.issue.any fun issue => isBadCurrency issue.currency) .temBAD_CURRENCY
    failIf (amount.issue ∈ already) .temMALFORMED
    checkAmounts (amount.issue :: already) amounts

section

variable (env : Env) (tx : Remit) (objectReserve : ℚ) (mint : MintURIToken) (state : ℚ × View)

/-- The part of `Remit::preflight` for `sfMintURIToken`. -/
def checkMint : Except Ter PUnit := do
  Tx.checkURI env mint.uri
  failIf (mint.flags.any fun flags => decide (flags &&& tfURITokenMintMask ≠ 0)) .temINVALID_FLAG

/-- `Remit::preflight`. -/
def preflight (rules : Rules) (tx : Remit) : Except Ter PUnit := do
  failIf (tx.flags &&& ~~~0x80000000 ≠ 0) .temINVALID_FLAG
  failIf (tx.destination = tx.account) .temREDUNDANT
  failIf (rules.enabled .fix20250131 = true ∧
    (tx.destination = .zero ∨ tx.destination = noAccount)) .temMALFORMED
  failIf (tx.inform.any fun infID => decide (infID = tx.destination ∨ infID = tx.account)) .temMALFORMED
  failIf (tx.blob.any fun blob => decide (128 * 1024 < blob.length)) .temMALFORMED
  tx.amounts.forM fun amounts => do
    failIf (32 < amounts.length) .temMALFORMED
    checkAmounts [] amounts
  tx.mintURIToken.forM (checkMint env)
  tx.uriTokenIDs.forM fun ids => do
    failIf (ids.length < 1 ∨ 32 < ids.length) .temMALFORMED
    failIf (¬ ids.Nodup) .temMALFORMED

/-! ## Application -/

/-- `nativeRemit` grows by an amount that must not make it smaller. -/
def addNative (nativeRemit amount : ℚ) : Except Ter ℚ := do
  failIf (nativeRemit + amount < nativeRemit) .tecINTERNAL
  .ok (nativeRemit + amount)

def checkDestination (view : View) (tx : Remit) : Except Ter PUnit := do
  let sleDstAcc := view.base.account tx.destination
  failIf (view.base.rules.enabled .featureDisallowIncoming = true ∧ sleDstAcc.isSome ∧
    view.disallowIncomingRemit tx.destination = true) .tecNO_PERMISSION
  failIf (view.base.rules.enabled .featureDepositAuth = true ∧
    sleDstAcc.any AccountRoot.depositAuth = true ∧
    view.base.depositPreauth tx.destination tx.account = false) .tecNO_PERMISSION
  failIf (sleDstAcc.any AccountRoot.requireDestTag = true ∧ tx.destinationTag = none)
    .tecDST_TAG_NEEDED

/-- If the destination doesn't exist, create it; the sender will pay the reserve. -/
def createDestination (view : View) (tx : Remit) (accountReserve : ℚ) : Except Ter (ℚ × View) :=
  match view.base.account tx.destination with
  | some _ => .ok (0, view)
  | none => do
    let nativeRemit ← addNative 0 accountReserve
    .ok (nativeRemit,
      view.setBase (view.base.setAccount tx.destination { balance := 0, ownerCount := 0 }))

/-- If there's a minted token, the sender pays for that. -/
def mintToken : Except Ter (ℚ × View) := do
  let (nativeRemit, view) := state
  let nativeRemit ← addNative nativeRemit objectReserve
  let kl := env.uritoken tx.account mint.uri
  -- check that it doesn't already exist
  failIf ((view.token kl).isSome) .tecDUPLICATE
  let (page, base) ← view.base.dirInsert tx.destination kl
  let sleMint : Entry :=
    { owner := tx.destination
      ownerNode := page
      issuer := tx.account
      uri := mint.uri
      digest := mint.digest
      amount := none
      destination := none
      flags := mint.flags.getD 0 }
  .ok (nativeRemit, ((view.setBase (adjustOwnerCount base tx.destination 1)).setToken kl
    (some sleMint)).setIssuer tx.account)

/-- One step of the loop over `sfURITokenIDs`. -/
def sendToken (kl : UInt256) :
    Except Ter (ℚ × View) := do
  let (nativeRemit, view) := state
  match view.token kl with
  | none => .error .tecNO_ENTRY
  | some sleU => do
    failIf (sleU.owner ≠ tx.account) .tecNO_PERMISSION
    -- pay the reserve
    let nativeRemit ← addNative nativeRemit objectReserve
    -- remove from sender dir
    let base ← view.base.dirRemove tx.account sleU.ownerNode kl true
    let base := adjustOwnerCount base tx.account (-1)
    -- add to dest dir
    let (page, base) ← base.dirInsert tx.destination kl
    let base := adjustOwnerCount base tx.destination 1
    -- erase current sale offers and change the owner
    .ok (nativeRemit, (view.setBase base).setToken kl (some { sleU with
      amount := none
      destination := none
      ownerNode := page
      owner := tx.destination }))

section

variable (view : Token.View) (tx : Remit) (issue : Issue)

/-- What the sender of an amount has to have, with the transfer fee. -/
def sourceAmount (amount : ℚ) : ℚ :=
  if issue.account ≠ tx.account ∧ issue.account ≠ tx.destination then
    amount * transferRate view issue.account / parityRate
  else amount

/-- No permission is needed when the issuer sends out or a subscriber sends back. -/
def checkTransfer : Except Ter PUnit :=
  if issue.account = tx.account ∨ issue.account = tx.destination then .ok ⟨⟩
  else trustTransferAllowed view [tx.account, tx.destination] issue

/-- If the target line doesn't exist we need to create it and pay its reserve. -/
def payLine (nativeRemit objectReserve : ℚ) : Except Ter ℚ :=
  if (view.line (lineKey tx.destination issue.account issue.currency)).isSome then .ok nativeRemit
  else addNative nativeRemit objectReserve

end

/-- One step of the loop over `sfAmounts`. -/
def sendAmount (amount : STAmount) : Except Ter (ℚ × View) := do
  let (nativeRemit, view) := state
  match amount.issue with
  | none => do
    -- this is paid right at the end
    let nativeRemit ← addNative nativeRemit amount.value
    .ok (nativeRemit, view)
  | some issue => do
    checkTransfer view.base tx issue
    let srcAmt := sourceAmount view.base tx issue amount.value
    failIf (srcAmt < amount.value ∨ amount.value + amount.value < srcAmt) .tecINTERNAL
    failIf (accountFunds view.base tx.account issue srcAmt < srcAmt) .tecUNFUNDED_PAYMENT
    let nativeRemit ← payLine view.base tx issue nativeRemit objectReserve
    let base ← accountSend env.toEnv view.base tx.account tx.destination amount true
    .ok (nativeRemit, view.setBase base)

end

/-- The native amount is paid, from what the sender has after the fee. -/
def payNative (view : View) (tx : Remit) (nativeRemit mSourceBalance : ℚ) : Except Ter View := do
  failIf (nativeRemit < 0) .tecINTERNAL
  if 0 < nativeRemit then do
    -- ensure the account can cover the native remit
    failIf (mSourceBalance < nativeRemit) .tecUNFUNDED_PAYMENT
    let sleSrcAcc ← view.base.getAccount tx.account .tecINTERNAL
    let base := view.base.setAccount tx.account
      { sleSrcAcc with balance := mSourceBalance - nativeRemit }
    let sleDstAcc ← base.getAccount tx.destination .tecINTERNAL
    failIf (sleDstAcc.balance + nativeRemit < 0 ∨
      sleDstAcc.balance + nativeRemit < sleDstAcc.balance) .tecINTERNAL
    .ok (view.setBase (base.setAccount tx.destination
      { sleDstAcc with balance := sleDstAcc.balance + nativeRemit }))
  else .ok view

/-- `Remit::doApply`, where the account has `mSourceBalance` after the fee. -/
def doApply (env : Env) (view : View) (mSourceBalance : ℚ) (tx : Remit) : Except Ter View := do
  failIf (view.base.rules.enabled .featureRemit = false) .temDISABLED
  let _ ← view.base.getAccount tx.account .terNO_ACCOUNT
  failIf (tx.inform.any fun informAcc => (view.base.account informAcc).isNone) .tecNO_TARGET
  let accountReserve : ℚ := view.base.fees.accountReserve 0
  let objectReserve : ℚ := view.base.fees.accountReserve 1 - accountReserve
  failIf (accountReserve < 0 ∨ objectReserve < 0 ∨
    view.base.fees.accountReserve 1 < objectReserve) .tecINTERNAL
  checkDestination view tx
  let state ← createDestination view tx accountReserve
  let state ← tx.mintURIToken.toList.foldlM
    (fun state mint => mintToken env tx objectReserve mint state) state
  let state ← (tx.uriTokenIDs.getD []).foldlM (sendToken tx objectReserve) state
  let (nativeRemit, view) ← (tx.amounts.getD []).foldlM (sendAmount env tx objectReserve) state
  let view ← payNative view tx nativeRemit mSourceBalance
  failIf (hasSufficientReserve view.base tx.account = false) .tecINSUFFICIENT_RESERVE
  .ok view

end Remit

end Xahau.URIToken
