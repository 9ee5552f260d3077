import Xahau.Data.FlagList
import Xahau.Hook.Chain

/-! # Who has a stake in a transaction (`applyHook.cpp`)

The hooks of strong stakeholders run before the transaction is applied and can reject it, those of
weak ones afterwards. Who they are depends on the type of the transaction, its fields, and the
escrow, check, channel or token that it is about. -/

namespace Xahau.Hook

open FlagList

/-- The cases of the switch of `getTransactionalStakeHolders`. -/
inductive StakeCase : Type where
  | remit | imported
  | uriTokenBurn | uriTokenBuy | uriTokenMint | uriTokenCancelSellOffer | uriTokenCreateSellOffer
  /-- `ttNFTOKEN_MINT` and `ttCLAIM_REWARD`. -/
  | issuer
  | nfTokenBurn | nfTokenCreateOffer | nfTokenAcceptOffer | nfTokenCancelOffer
  | regularKeySet | depositPreauth
  /-- Simple two party transactions. -/
  | twoParty
  | trustSet | escrowFinish | escrowCancel
  /-- `ttPAYCHAN_FUND` and `ttPAYCHAN_CLAIM`. -/
  | payChan
  /-- `ttCHECK_CASH` and `ttCHECK_CANCEL`. -/
  | check
  | signerListSet | genesisMint
  /-- Self transactions, and those that are not listed. -/
  | none
  deriving DecidableEq

/-- The case of a transaction type. -/
def stakeCase (tt : Nat) : StakeCase :=
  if tt = ttRemit then .remit
  else if tt = ttImport then .imported
  else if tt = ttURITokenBurn then .uriTokenBurn
  else if tt = ttURITokenBuy then .uriTokenBuy
  else if tt = ttURITokenMint then .uriTokenMint
  else if tt = ttURITokenCancelSellOffer then .uriTokenCancelSellOffer
  else if tt = ttURITokenCreateSellOffer then .uriTokenCreateSellOffer
  else if tt ∈ [ttNFTokenMint, ttClaimReward] then .issuer
  else if tt = ttNFTokenBurn then .nfTokenBurn
  else if tt = ttNFTokenCreateOffer then .nfTokenCreateOffer
  else if tt = ttNFTokenAcceptOffer then .nfTokenAcceptOffer
  else if tt = ttNFTokenCancelOffer then .nfTokenCancelOffer
  else if tt = ttRegularKeySet then .regularKeySet
  else if tt = ttDepositPreauth then .depositPreauth
  else if tt ∈ [ttPayment, ttEscrowCreate, ttCheckCreate, ttAccountDelete, ttPaychanCreate,
      ttInvoke] then .twoParty
  else if tt = ttTrustSet then .trustSet
  else if tt = ttEscrowCancel then .escrowCancel
  else if tt = ttEscrowFinish then .escrowFinish
  else if tt ∈ [ttPaychanFund, ttPaychanClaim] then .payChan
  else if tt ∈ [ttCheckCash, ttCheckCancel] then .check
  else if tt = ttSignerListSet then .signerListSet
  else if tt = ttGenesisMint then .genesisMint
  else .none

/-- `nft::getIssuer`: the issuer is part of the identifier of a token. -/
def nftIssuer (id : UInt256) : AccountID :=
  ⟨(id.data.drop 4).take 20, by simp [id.data_length]⟩

/-- `tfStrongTSH` of `nft::getFlags`, the first two bytes of the identifier. -/
def nftStrongTSH (id : UInt256) : Bool := (id.data.headD 0).toNat.testBit 7

section

variable (escrowKey : AccountID → Nat → UInt256)

section

variable (tx : STTx) (view : View)

/-- The escrow that a transaction finishes or cancels; `escrowKey` is `keylet::escrow`. -/
def findEscrow : Option Escrow := do
  let owner ← tx.owner
  let key ←
    (if view.rules.enabled .fixXahauV1 then
      (tx.offerSequence.map (escrowKey owner)).or tx.escrowID
    else tx.offerSequence.map (escrowKey owner) : Option UInt256)
  view.escrow key

/-- The stakeholders of an escrow. As of `fixXahauV1` a destination that is the source is not named.
-/
def escrowStakes (finish : Bool) (rules : Rules) (escrow : Escrow) : List (AccountID × Bool) :=
  (escrow.account, true) ::
    if rules.enabled .fixXahauV1 = true ∧ escrow.account = escrow.destination then []
    else [(escrow.destination, finish)]

/-- `getNFTOffer`. -/
def getNFTOffer (id : Option UInt256) : Option NFTokenOffer :=
  id.bind fun id => if id = .zero then none else view.nftOffer id

def offerStakes (offer : NFTokenOffer) : List (AccountID × Bool) :=
  (offer.owner, true) :: offer.destination.toList.map fun acc => (acc, true)

/-- The issuer of a token that is neither its owner nor the destination. -/
def remitStakes (ut : URIToken) : List (AccountID × Bool) :=
  if ut.issuer ≠ ut.owner ∧ tx.destination ≠ some ut.issuer then [(ut.issuer, ut.burnable)] else []

def burnStakes (ut : URIToken) : List (AccountID × Bool) :=
  if ut.issuer = ut.owner then []
  else if view.rules.enabled .fixXahauV1 then
    if tx.account = ut.owner ∧ (view.account ut.issuer).isSome = true then [(ut.issuer, false)]
    else if (view.account ut.owner).isSome then [(ut.owner, false)]
    else []
  else if tx.account = ut.owner then [(ut.issuer, true)]
  else [(ut.owner, true)]

/-- The issuer is also a strong stakeholder if the burnable flag is set. -/
def issuerStakes (ut : URIToken) : List (AccountID × Bool) :=
  if ut.issuer ≠ ut.owner then [(ut.issuer, ut.burnable)] else []

/-- The stakeholders of a token that is bought: its current owner, and its issuer. -/
def buyStakes (ut : URIToken) : List (AccountID × Bool) :=
  (if ut.owner ≠ tx.account then [(ut.owner, true)] else []) ++ issuerStakes ut

/-- The calls of `ADD_TSH` in `getTransactionalStakeHolders`, in turn. -/
def nominations : List (AccountID × Bool) :=
  let fixV2 := view.rules.enabled .fixXahauV2
  match stakeCase tx.txnType with
  | .remit =>
    (tx.destination.toList.map fun acc => (acc, true)) ++
    ((tx.inform.toList.filter fun inform =>
      tx.account ≠ inform ∧ tx.destination ≠ some inform).map fun acc => (acc, false)) ++
    tx.uriTokenIDs.flatMap fun id => (view.uriToken id).toList.flatMap (remitStakes tx)
  | .imported => tx.issuer.toList.map fun acc => (acc, !fixV2)
  | .uriTokenBurn => (view.uriToken tx.uriTokenID).toList.flatMap (burnStakes tx view)
  | .uriTokenBuy => (view.uriToken tx.uriTokenID).toList.flatMap (buyStakes tx)
  | .uriTokenMint => if fixV2 then tx.destination.toList.map fun acc => (acc, true) else []
  | .uriTokenCancelSellOffer =>
    if fixV2 then
      ((view.uriToken tx.uriTokenID).bind URIToken.destination).toList.map fun acc => (acc, false)
    else []
  | .uriTokenCreateSellOffer =>
    (view.uriToken tx.uriTokenID).toList.flatMap fun ut =>
      issuerStakes ut ++ tx.destination.toList.map fun acc => (acc, true)
  | .issuer => tx.issuer.toList.map fun acc => (acc, true)
  | .nfTokenBurn | .nfTokenCreateOffer =>
    tx.nfTokenID.toList.flatMap fun nid =>
      if view.findToken (tx.owner.getD tx.account) nid then
        (nftIssuer nid, nftStrongTSH nid) :: tx.owner.toList.map fun acc => (acc, false)
      else []
  | .nfTokenAcceptOffer =>
    let bo := getNFTOffer view tx.nfTokenBuyOffer
    let so := getNFTOffer view tx.nfTokenSellOffer
    ((bo.or so).toList.map fun offer =>
      (nftIssuer offer.nfTokenID, nftStrongTSH offer.nfTokenID)) ++
    bo.toList.flatMap offerStakes ++ so.toList.flatMap offerStakes
  | .nfTokenCancelOffer =>
    tx.nfTokenOffers.flatMap fun id => (getNFTOffer view id).toList.flatMap fun offer =>
      (offer.owner :: offer.destination.toList ++ [nftIssuer offer.nfTokenID]).map fun acc =>
        (acc, false)
  | .regularKeySet => tx.regularKey.toList.map fun acc => (acc, true)
  | .depositPreauth => tx.authorize.toList.map fun acc => (acc, true)
  | .twoParty => tx.destination.toList.map fun acc => (acc, true)
  | .trustSet => tx.limitIssuer.toList.map fun acc => (acc, false)
  | .escrowFinish => (findEscrow escrowKey tx view).toList.flatMap (escrowStakes true view.rules)
  | .escrowCancel => (findEscrow escrowKey tx view).toList.flatMap (escrowStakes false view.rules)
  | .payChan =>
    (tx.channel.bind view.payChan).toList.flatMap fun chan =>
      [(chan.account, true), (chan.destination, false)]
  | .check =>
    (tx.checkID.bind view.check).toList.flatMap fun check =>
      [(check.account, true), (check.destination, false)]
  -- the owners of accounts whose keys appear on a signer list can prevent their inclusion
  | .signerListSet => (tx.signerEntries.filterMap id).map fun acc => (acc, true)
  | .genesisMint => tx.genesisMints.map fun mint => (mint.destination, false)
  | .none => []

/-- `hook::getTransactionalStakeHolders`, in the order first named, without the transaction's
account. -/
def getTransactionalStakeHolders : List (AccountID × Bool) :=
  if view.rules.enabled .featureHooks then
    gather ((nominations escrowKey tx view).filter fun p => p.1 ≠ tx.account)
  else []

end

end

end Xahau.Hook
