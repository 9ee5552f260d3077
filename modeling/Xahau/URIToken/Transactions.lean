import Xahau.Token.Send

/-! # URI tokens (`URIToken.cpp`)

A URI token is an object that one account has minted and one account owns. It is minted, burned,
offered for sale and bought. `fixXahauV1` and `featureDeletableAccounts` are enabled. -/

namespace Xahau.URIToken

open Checked Token

/-! ## The ledger -/

/-- The fields of `ltURI_TOKEN`. -/
structure Entry where
  owner : AccountID
  ownerNode : ℕ
  issuer : AccountID
  uri : Blob
  digest : Option UInt256
  /-- What is asked for the token, when it is for sale. -/
  amount : Option STAmount
  /-- The only account that it is for sale to. -/
  destination : Option AccountID
  flags : UInt32
  deriving DecidableEq

/-- The view to which transactions are applied. -/
structure View where
  base : Token.View
  token : UInt256 → Option Entry
  /-- `lsfURITokenIssuer` of an account. -/
  uriTokenIssuer : AccountID → Bool
  /-- `lsfDisallowIncomingRemit` of an account. -/
  disallowIncomingRemit : AccountID → Bool

/-- What the model does not compute. -/
structure Env extends Token.Env where
  /-- `keylet::uritoken`. -/
  uritoken : AccountID → Blob → UInt256
  /-- `validateUTF8`. -/
  validateUTF8 : Blob → Bool

/-- `lsfBurnable` and `tfBurnable`. -/
def lsfBurnable : UInt32 := 1

/-- `tfURITokenMintMask`. -/
def tfURITokenMintMask : UInt32 := ~~~(0x80000000 ||| lsfBurnable)

/-- `tfURITokenNonMintMask`. -/
def tfURITokenNonMintMask : UInt32 := ~~~0x80000000

namespace View

section

variable (view : View) (id : UInt256)

/-- The view with a token, or without it. -/
def setToken (entry : Option Entry) : View :=
  { view with token := Function.update view.token id entry }

/-- The view with other accounts, lines and directories. -/
def setBase (base : Token.View) : View := { view with base := base }

/-- The view with a deletion blocker against an issuer. -/
def setIssuer (id : AccountID) : View :=
  { view with uriTokenIssuer := Function.update view.uriTokenIssuer id true }

/-- The token and the root of its owner. -/
def getToken : Except Ter (Entry × AccountRoot) :=
  match view.token id with
  | none => .error .tecNO_ENTRY
  | some sleU => do
    let sleOwner ← view.base.getAccount sleU.owner .tecNO_ENTRY
    .ok (sleU, sleOwner)

end

end View

/-- The reserve of an account with one more object. -/
def nextReserve (view : Token.View) (sle : AccountRoot) : ℚ :=
  view.fees.accountReserve (sle.ownerCount + 1).toNat

/-- `hasSufficientReserve`. -/
def hasSufficientReserve (view : Token.View) (id : AccountID) : Bool :=
  (view.account id).all fun sle =>
    decide ((view.fees.accountReserve sle.ownerCount.toNat : ℚ) ≤ sle.balance)

/-! ## The transactions -/

/-- What a transaction asks for. -/
inductive Op where
  /-- `ttURITOKEN_MINT`. -/
  | mint (uri : Blob) (digest : Option UInt256) (amount : Option STAmount)
      (destination : Option AccountID)
  /-- `ttURITOKEN_BURN`. -/
  | burn (uriTokenID : UInt256)
  /-- `ttURITOKEN_BUY`. -/
  | buy (uriTokenID : UInt256) (amount : STAmount)
  /-- `ttURITOKEN_CREATE_SELL_OFFER`. -/
  | createSellOffer (uriTokenID : UInt256) (amount : STAmount) (destination : Option AccountID)
  /-- `ttURITOKEN_CANCEL_SELL_OFFER`. -/
  | cancelSellOffer (uriTokenID : UInt256)

namespace Op

/-- `sfAmount`. -/
def amount : Op → Option STAmount
  | mint _ _ amount _ => amount
  | buy _ amount => some amount
  | createSellOffer _ amount _ => some amount
  | burn _ => none
  | cancelSellOffer _ => none

/-- `sfDestination`. -/
def destination : Op → Option AccountID
  | mint _ _ _ destination => destination
  | createSellOffer _ _ destination => destination
  | burn _ => none
  | buy _ _ => none
  | cancelSellOffer _ => none

/-- The flags that are refused. -/
def mask : Op → UInt32
  | mint _ _ _ _ => tfURITokenMintMask
  | burn _ => tfURITokenNonMintMask
  | buy _ _ => tfURITokenNonMintMask
  | createSellOffer _ _ _ => tfURITokenNonMintMask
  | cancelSellOffer _ => tfURITokenNonMintMask

end Op

/-- A transaction with tokens. -/
structure Tx where
  account : AccountID
  /-- `sfFee`, in drops. -/
  fee : ℚ
  flags : UInt32
  op : Op

namespace Tx

/-- The part of `URIToken::preflight` for `sfAmount`. -/
def checkAmount (op : Op) (amt : STAmount) : Except Ter PUnit := do
  failIf (amt.value < 0) .temBAD_AMOUNT
  failIf (amt.issue.any fun issue => isBadCurrency issue.currency) .temBAD_CURRENCY
  match op with
  | .buy _ _ => .ok ⟨⟩
  | _ => failIf (amt.value = 0 ∧ op.destination = none) .temMALFORMED

section

variable (env : Env) (view : View) (mPriorBalance : ℚ) (tx : Tx)

/-- The part of `URIToken::preflight` for `sfURI`. -/
def checkURI (uri : Blob) : Except Ter PUnit := do
  failIf (uri.length < 1 ∨ 256 < uri.length) .temMALFORMED
  failIf (env.validateUTF8 uri = false) .temMALFORMED

/-- `URIToken::preflight`. -/
def preflight (rules : Rules) (tx : Tx) : Except Ter PUnit := do
  failIf (rules.enabled .featureURIToken = false) .temDISABLED
  tx.op.amount.forM (checkAmount tx.op)
  failIf (tx.op.destination ≠ none ∧ tx.op.amount = none) .temMALFORMED
  match tx.op with
  | .mint uri _ _ _ => checkURI env uri
  | _ => .ok ⟨⟩
  failIf (tx.flags &&& tx.op.mask ≠ 0) .temINVALID_FLAG
  failIf (tx.op.destination = some tx.account) .temREDUNDANT

/-- The buyer can pay in the native currency and keep the reserve. -/
def coversNative (reserve fee amount balance : ℚ) : Except Ter PUnit := do
  failIf (reserve + fee < reserve) .tecINTERNAL
  failIf (reserve + fee + amount < reserve + fee) .tecINTERNAL
  failIf (balance < reserve + fee + amount) .tecINSUFFICIENT_FUNDS

/-- The checks of the offer that `preclaim` and `doApply` have in common. -/
def checkOffer (account : AccountID) (sleU : Entry) (purchaseAmount : STAmount) :
    Except Ter PUnit :=
  match sleU.amount with
  -- check if the seller has listed it at all
  | none => .error .tecNO_PERMISSION
  | some saleAmount => do
    -- check if the seller has listed it for sale to a specific account
    failIf (sleU.destination.any fun dest => decide (dest ≠ account)) .tecNO_PERMISSION
    failIf (purchaseAmount.issue ≠ saleAmount.issue) .temBAD_CURRENCY
    failIf (purchaseAmount.value < saleAmount.value) .tecINSUFFICIENT_PAYMENT

/-- `URIToken::preclaim`. -/
def preclaim : Except Ter PUnit :=
  match tx.op with
  | .mint uri _ _ _ => do
    let _ ← view.base.getAccount tx.account .tefINTERNAL
    -- check if this token has already been minted
    failIf ((view.token (env.uritoken tx.account uri)).isSome) .tecDUPLICATE
  | .burn id => do
    let (sleU, _) ← view.getToken id
    let _ ← view.base.getAccount tx.account .tefINTERNAL
    failIf (¬ (sleU.flags = lsfBurnable ∧ tx.account = sleU.issuer) ∧ tx.account ≠ sleU.owner)
      .tecNO_PERMISSION
  | .buy id purchaseAmount => do
    let (sleU, _) ← view.getToken id
    let sle ← view.base.getAccount tx.account .tefINTERNAL
    failIf (tx.account = sleU.owner) .tecCANT_ACCEPT_OWN_NFTOKEN_OFFER
    checkOffer tx.account sleU purchaseAmount
    match purchaseAmount.issue with
    | none => coversNative (nextReserve view.base sle) tx.fee purchaseAmount.value sle.balance
    | some issue =>
      failIf (accountFunds view.base tx.account issue purchaseAmount.value < purchaseAmount.value)
        .tecINSUFFICIENT_FUNDS
  | .cancelSellOffer id => do
    let (sleU, _) ← view.getToken id
    let _ ← view.base.getAccount tx.account .tefINTERNAL
    failIf (tx.account ≠ sleU.owner) .tecNO_PERMISSION
  | .createSellOffer id amount _ => do
    let (sleU, _) ← view.getToken id
    let _ ← view.base.getAccount tx.account .tefINTERNAL
    failIf (tx.account ≠ sleU.owner) .tecNO_PERMISSION
    failIf (amount.issue.any fun issue => (view.base.account issue.account).isNone) .tecNO_ISSUER

section

variable (sle : AccountRoot) (id : UInt256)

/-- The reserve for one more object, from what the account had before the fee. -/
def checkReserve (mPriorBalance : ℚ) : Except Ter PUnit :=
  let afterFee := mPriorBalance - tx.fee
  failIf (mPriorBalance < afterFee ∨ afterFee < nextReserve view.base sle) .tecINSUFFICIENT_RESERVE

/-- The case `ttURITOKEN_MINT` of `URIToken::doApply`. -/
def mint (uri : Blob) (digest : Option UInt256) (saleAmount : Option STAmount)
    (dest : Option AccountID) : Except Ter View := do
  let kl := env.uritoken tx.account uri
  failIf ((view.token kl).isSome) .tecDUPLICATE
  failIf (dest ≠ none ∧ saleAmount = none) .tefINTERNAL
  let (page, base) ← view.base.dirInsert tx.account kl
  let sleU : Entry :=
    { owner := tx.account
      ownerNode := page
      issuer := tx.account
      uri := uri
      digest := digest
      amount := saleAmount
      destination := dest
      flags := tx.flags &&& lsfBurnable }
  -- ensure there is a deletion blocker against the issuer now
  .ok (((view.setBase (adjustOwnerCount base tx.account 1)).setToken kl (some sleU)).setIssuer
    tx.account)

/-- The case `ttURITOKEN_BURN`. -/
def burn (sleU : Entry) : Except Ter View := do
  failIf (sleU.owner ≠ tx.account ∧
    ¬ (sleU.issuer = tx.account ∧ sleU.flags &&& lsfBurnable ≠ 0)) .tecNO_PERMISSION
  let base ← view.base.dirRemove sleU.owner sleU.ownerNode id true
  .ok ((view.setBase (adjustOwnerCount base sleU.owner (-1))).setToken id none)

/-- The part of the case `ttURITOKEN_BUY` that checks whether the buyer can pay. -/
def checkFunds (owner : AccountID) (purchaseAmount : STAmount) (mPriorBalance : ℚ) :
    Except Ter PUnit :=
  match purchaseAmount.issue with
  | none => coversNative (nextReserve view.base sle) tx.fee purchaseAmount.value mPriorBalance
  | some issue => do
    trustTransferAllowed view.base [tx.account, owner] issue
    failIf (accountFunds view.base tx.account issue purchaseAmount.value < purchaseAmount.value)
      .tecINSUFFICIENT_FUNDS

/-- The case `ttURITOKEN_BUY`. -/
def buy (sleU : Entry) (purchaseAmount : STAmount) (mPriorBalance : ℚ) : Except Ter View := do
  checkOffer tx.account sleU purchaseAmount
  checkFunds view tx sle sleU.owner purchaseAmount mPriorBalance
  -- execute the funds transfer, we'll check reserves last
  let base ← accountSend env.toEnv view.base tx.account sleU.owner purchaseAmount false
  -- add token to new owner dir
  let (newPage, base) ← base.dirInsert tx.account id
  -- remove from current owner directory
  let base ← base.dirRemove sleU.owner sleU.ownerNode id true
  let base := adjustOwnerCount (adjustOwnerCount base sleU.owner (-1)) tx.account 1
  failIf (hasSufficientReserve base tx.account = false) .tecINSUFFICIENT_RESERVE
  failIf (hasSufficientReserve base sleU.owner = false) .tecINSUF_RESERVE_SELLER
  -- clean the offer off the object and set the new owner
  .ok ((view.setBase base).setToken id (some { sleU with
    amount := none
    destination := none
    owner := tx.account
    ownerNode := newPage }))

end

/-- `URIToken::doApply`, where the account had `mPriorBalance` before the fee. -/
def doApply : Except Ter View := do
  let sle ← view.base.getAccount tx.account .tefINTERNAL
  match tx.op with
  | .mint uri digest saleAmount dest => do
    checkReserve view tx sle mPriorBalance
    mint env view tx uri digest saleAmount dest
  | .buy id purchaseAmount => do
    checkReserve view tx sle mPriorBalance
    let (sleU, _) ← view.getToken id
    buy env view tx sle id sleU purchaseAmount mPriorBalance
  | .burn id => do
    let (sleU, _) ← view.getToken id
    burn view tx id sleU
  | .createSellOffer id amount txDest => do
    let (sleU, _) ← view.getToken id
    failIf (tx.account ≠ sleU.owner) .tecNO_PERMISSION
    .ok (view.setToken id (some { sleU with amount := some amount, destination := txDest }))
  | .cancelSellOffer id => do
    let (sleU, _) ← view.getToken id
    .ok (view.setToken id (some { sleU with amount := none, destination := none }))

end

end Tx

end Xahau.URIToken
