import Xahau.Basics.Protocol

/-! # Transactions (`STTx.h`, `TxFormats.h`)

The fields of a transaction that the modelled code reads. The identifier of a transaction is the
hash of all its fields. -/

namespace Xahau

/-- `sfEmitDetails`: who emitted a transaction. -/
structure EmitDetails where
  emitGeneration : Nat
  emitBurden : Nat
  /-- The transaction for which the emitting hook was run. -/
  emitParentTxnID : UInt256
  emitNonce : UInt256
  /-- The account whose hook is told of the outcome. -/
  emitCallback : Option AccountID
  emitHookHash : UInt256
  deriving DecidableEq

/-- `SeqProxy`: a sequence number or a ticket. -/
inductive SeqProxy : Type where
  | seq (value : Nat)
  | ticket (value : Nat)
  deriving DecidableEq, Repr

/-- An entry of `sfGenesisMints`. -/
structure GenesisMint where
  destination : AccountID
  amount : Option Amount := none
  governanceFlags : Option UInt256 := none
  governanceMarks : Option UInt256 := none
  deriving DecidableEq

/-- A transaction. -/
structure STTx where
  transactionID : UInt256
  /-- `sfTransactionType`, the number of a `TxType`. -/
  txnType : Nat
  account : AccountID
  sequence : Nat := 0
  ticketSequence : Option Nat := none
  accountTxnID : Option UInt256 := none
  /-- In drops. -/
  fee : Int := 0
  signingPubKey : Blob := []
  txnSignature : Option Blob := none
  /-- `sfSigners` is present. -/
  hasSigners : Bool := false
  /-- The number of `sfSigners`. -/
  signerCount : Nat := 0
  /-- `sfMemos`, each with the contents of its fields. -/
  memos : List (List Blob) := []
  /-- `sfHookParameters`, names with their values; what is absent is empty. -/
  hookParameters : List (Blob × Blob) := []
  firstLedgerSequence : Option Nat := none
  lastLedgerSequence : Option Nat := none
  /-- Present if a hook emitted the transaction. -/
  emitDetails : Option EmitDetails := none
  issuer : Option AccountID := none
  /-- `sfTransactionHash`: the emitted transaction that an `ttEMIT_FAILURE` is about. -/
  transactionHash : UInt256 := .zero
  destination : Option AccountID := none
  destinationTag : Option Nat := none
  owner : Option AccountID := none
  inform : Option AccountID := none
  regularKey : Option AccountID := none
  authorize : Option AccountID := none
  /-- The issuer of `sfLimitAmount`. -/
  limitIssuer : Option AccountID := none
  /-- The accounts of `sfSignerEntries`. -/
  signerEntries : List (Option AccountID) := []
  offerSequence : Option Nat := none
  escrowID : Option UInt256 := none
  channel : Option UInt256 := none
  checkID : Option UInt256 := none
  uriTokenID : UInt256 := .zero
  uriTokenIDs : List UInt256 := []
  nfTokenID : Option UInt256 := none
  nfTokenBuyOffer : Option UInt256 := none
  nfTokenSellOffer : Option UInt256 := none
  nfTokenOffers : List UInt256 := []
  genesisMints : List GenesisMint := []
  /-- `sfAmendment`: the amendment that an `ttAMENDMENT` is about. -/
  amendment : UInt256 := .zero
  /-- `sfFlags`, when present. -/
  flags : Option Nat := none
  deriving DecidableEq

/-- `ttPAYMENT`. -/
def ttPayment : Nat := 0

/-- `ttESCROW_CREATE`. -/
def ttEscrowCreate : Nat := 1

/-- `ttESCROW_FINISH`. -/
def ttEscrowFinish : Nat := 2

/-- `ttESCROW_CANCEL`. -/
def ttEscrowCancel : Nat := 4

/-- `ttREGULAR_KEY_SET`. -/
def ttRegularKeySet : Nat := 5

/-- `ttSIGNER_LIST_SET`. -/
def ttSignerListSet : Nat := 12

/-- `ttPAYCHAN_CREATE`. -/
def ttPaychanCreate : Nat := 13

/-- `ttPAYCHAN_FUND`. -/
def ttPaychanFund : Nat := 14

/-- `ttPAYCHAN_CLAIM`. -/
def ttPaychanClaim : Nat := 15

/-- `ttCHECK_CREATE`. -/
def ttCheckCreate : Nat := 16

/-- `ttCHECK_CASH`. -/
def ttCheckCash : Nat := 17

/-- `ttCHECK_CANCEL`. -/
def ttCheckCancel : Nat := 18

/-- `ttDEPOSIT_PREAUTH`. -/
def ttDepositPreauth : Nat := 19

/-- `ttTRUST_SET`. -/
def ttTrustSet : Nat := 20

/-- `ttACCOUNT_DELETE`. -/
def ttAccountDelete : Nat := 21

/-- `ttHOOK_SET`. -/
def ttHookSet : Nat := 22

/-- `ttNFTOKEN_MINT`. -/
def ttNFTokenMint : Nat := 25

/-- `ttNFTOKEN_BURN`. -/
def ttNFTokenBurn : Nat := 26

/-- `ttNFTOKEN_CREATE_OFFER`. -/
def ttNFTokenCreateOffer : Nat := 27

/-- `ttNFTOKEN_CANCEL_OFFER`. -/
def ttNFTokenCancelOffer : Nat := 28

/-- `ttNFTOKEN_ACCEPT_OFFER`. -/
def ttNFTokenAcceptOffer : Nat := 29

/-- `ttURITOKEN_MINT`. -/
def ttURITokenMint : Nat := 45

/-- `ttURITOKEN_BURN`. -/
def ttURITokenBurn : Nat := 46

/-- `ttURITOKEN_BUY`. -/
def ttURITokenBuy : Nat := 47

/-- `ttURITOKEN_CREATE_SELL_OFFER`. -/
def ttURITokenCreateSellOffer : Nat := 48

/-- `ttURITOKEN_CANCEL_SELL_OFFER`. -/
def ttURITokenCancelSellOffer : Nat := 49

/-- `ttREMIT`. -/
def ttRemit : Nat := 95

/-- `ttGENESIS_MINT`. -/
def ttGenesisMint : Nat := 96

/-- `ttIMPORT`. -/
def ttImport : Nat := 97

/-- `ttCLAIM_REWARD`. -/
def ttClaimReward : Nat := 98

/-- `ttINVOKE`. -/
def ttInvoke : Nat := 99

/-- `ttAMENDMENT`. -/
def ttAmendment : Nat := 100

/-- `ttEMIT_FAILURE`. -/
def ttEmitFailure : Nat := 103

namespace STTx

/-- `hook::isEmittedTxn`. -/
def isEmittedTxn (tx : STTx) : Bool := tx.emitDetails.isSome

/-- `isPseudoTx`: `ttAMENDMENT`, `ttFEE`, `ttUNL_MODIFY`, `ttEMIT_FAILURE` and `ttUNL_REPORT`. -/
def isPseudoTx (tx : STTx) : Bool := tx.txnType ∈ [ttAmendment, 101, 102, ttEmitFailure, 104]

/-- `sfIssuer` is present. -/
def hasIssuer (tx : STTx) : Bool := tx.issuer.isSome

/-- `STTx::getSeqProxy`. -/
def getSeqProxy (tx : STTx) : SeqProxy :=
  if tx.sequence ≠ 0 then .seq tx.sequence
  else
    match tx.ticketSequence with
    | none => .seq tx.sequence
    | some ticketSeq => .ticket ticketSeq

end STTx

end Xahau
