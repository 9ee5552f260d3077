import Xahau.Basics.BaseUInt

/-! # Amendments, results and keys (`Feature.h`, `Rules.h`, `TER.h`, `PublicKey.h`) -/

namespace Xahau

/-- The amendments that the modelled code asks for. -/
inductive Feature : Type where
  | featureBalanceRewards | featureCryptoConditionsSuite | featureDeletableAccounts
  | featureDepositAuth | featureDisallowIncoming | featureHooks | featureHooksUpdate1
  | featureImport | featureNonFungibleTokensV1 | featurePaychanAndEscrowForTokens
  | featureRemit | featureTicketBatch | featureURIToken | featureXahauGenesis | featureZeroB2M
  | fixAmendmentMajorityCalc | fixNFTokenRemint | fixNSDelete | fixPageCap
  | fixPayChanRecipientOwnerDir | fixReduceImport
  | fixXahauV1 | fixXahauV2 | fix1571 | fix240819 | fix240911 | fix20250131
  deriving DecidableEq, Repr

/-- `Rules`: which amendments are enabled. -/
structure Rules where
  enabled : Feature → Bool

/-- `TER`: the results of the modelled transactors. -/
inductive Ter : Type where
  | telNON_LOCAL_EMITTED_TXN | telIMPORT_VL_KEY_NOT_RECOGNISED
  | temMALFORMED | temBAD_AMOUNT | temBAD_CURRENCY | temBAD_EXPIRATION | temBAD_FEE
  | temBAD_SIGNATURE | temBAD_SRC_ACCOUNT | temBAD_TRANSFER_RATE | temDST_IS_SRC | temINVALID
  | temINVALID_FLAG | temREDUNDANT | temDISABLED | temBAD_SIGNER | temSEQ_AND_TICKET | temHOOK_DATA_TOO_LARGE
  | tefALREADY | tefBAD_LEDGER | tefEXCEPTION | tefINTERNAL | tefPAST_SEQ | tefWRONG_PRIOR
  | tefMAX_LEDGER
  | tefINVARIANT_FAILED | tefNO_TICKET | tefPAST_IMPORT_SEQ | tefPAST_IMPORT_VL_SEQ
  | tefNONDIR_EMIT | tefIMPORT_BLACKHOLED
  | terNO_ACCOUNT | terPRE_SEQ | terPRE_TICKET
  | tesSUCCESS | tesPARTIAL
  | tecCLAIM | tecUNFUNDED_PAYMENT | tecFAILED_PROCESSING | tecDIR_FULL | tecNO_DST | tecNO_LINE_INSUF_RESERVE
  | tecPATH_DRY | tecUNFUNDED | tecNO_ISSUER | tecNO_AUTH | tecNO_LINE | tecFROZEN | tecNO_TARGET
  | tecNO_PERMISSION | tecNO_ENTRY | tecINSUFFICIENT_RESERVE
  | tecDST_TAG_NEEDED | tecINTERNAL | tecOVERSIZE | tecCRYPTOCONDITION_ERROR | tecINVARIANT_FAILED
  | tecEXPIRED | tecDUPLICATE | tecKILLED | tecHAS_OBLIGATIONS | tecTOO_SOON | tecHOOK_REJECTED
  | tecCANT_ACCEPT_OWN_NFTOKEN_OFFER | tecINSUFFICIENT_FUNDS | tecINSUFFICIENT_PAYMENT
  | tecREQUIRES_FLAG | tecPRECISION_LOSS | tecINSUF_RESERVE_SELLER
  deriving DecidableEq, Repr

namespace Ter

/-- The number of a result. -/
def code : Ter → Int
  | telNON_LOCAL_EMITTED_TXN => -383
  | telIMPORT_VL_KEY_NOT_RECOGNISED => -382
  | temMALFORMED => -299
  | temBAD_AMOUNT => -298
  | temBAD_CURRENCY => -297
  | temBAD_EXPIRATION => -296
  | temBAD_FEE => -295
  | temBAD_SIGNATURE => -282
  | temBAD_SRC_ACCOUNT => -281
  | temBAD_TRANSFER_RATE => -280
  | temDST_IS_SRC => -279
  | temINVALID => -277
  | temINVALID_FLAG => -276
  | temREDUNDANT => -275
  | temDISABLED => -273
  | temBAD_SIGNER => -272
  | temSEQ_AND_TICKET => -263
  | temHOOK_DATA_TOO_LARGE => -253
  | tefALREADY => -198
  | tefBAD_LEDGER => -195
  | tefEXCEPTION => -193
  | tefINTERNAL => -192
  | tefPAST_SEQ => -190
  | tefWRONG_PRIOR => -189
  | tefMAX_LEDGER => -187
  | tefINVARIANT_FAILED => -182
  | tefNO_TICKET => -180
  | tefPAST_IMPORT_SEQ => -178
  | tefPAST_IMPORT_VL_SEQ => -177
  | tefNONDIR_EMIT => -176
  | tefIMPORT_BLACKHOLED => -175
  | terNO_ACCOUNT => -96
  | terPRE_SEQ => -92
  | terPRE_TICKET => -88
  | tesSUCCESS => 0
  | tesPARTIAL => 1
  | tecCLAIM => 100
  | tecUNFUNDED_PAYMENT => 104
  | tecFAILED_PROCESSING => 105
  | tecDIR_FULL => 121
  | tecNO_DST => 124
  | tecNO_LINE_INSUF_RESERVE => 126
  | tecPATH_DRY => 128
  | tecUNFUNDED => 129
  | tecNO_ISSUER => 133
  | tecNO_AUTH => 134
  | tecNO_LINE => 135
  | tecFROZEN => 137
  | tecNO_TARGET => 138
  | tecNO_PERMISSION => 139
  | tecNO_ENTRY => 140
  | tecINSUFFICIENT_RESERVE => 141
  | tecDST_TAG_NEEDED => 143
  | tecINTERNAL => 144
  | tecOVERSIZE => 145
  | tecCRYPTOCONDITION_ERROR => 146
  | tecINVARIANT_FAILED => 147
  | tecEXPIRED => 148
  | tecDUPLICATE => 149
  | tecKILLED => 150
  | tecHAS_OBLIGATIONS => 151
  | tecTOO_SOON => 152
  | tecHOOK_REJECTED => 153
  | tecCANT_ACCEPT_OWN_NFTOKEN_OFFER => 158
  | tecINSUFFICIENT_FUNDS => 159
  | tecINSUFFICIENT_PAYMENT => 161
  | tecREQUIRES_FLAG => 169
  | tecPRECISION_LOSS => 170
  | tecINSUF_RESERVE_SELLER => 187

/-- `isTesSuccess`. -/
def isTesSuccess (ter : Ter) : Bool := decide (0 ≤ ter.code ∧ ter.code < 100)

/-- `isTecClaim`. -/
def isTecClaim (ter : Ter) : Bool := decide (100 ≤ ter.code)

end Ter

/-- `Fees`: the reserves of the ledger, in drops. -/
structure Fees where
  reserve : Int
  increment : Int
  /-- The fee of a reference transaction. -/
  base : Int := 10

/-- `Fees::accountReserve`. -/
def Fees.accountReserve (fees : Fees) (ownerCount : Nat) : Int :=
  fees.reserve + ownerCount * fees.increment

/-- An `STAmount`: drops, or an amount of another currency. -/
inductive Amount : Type where
  | xrp (drops : Int)
  | issued
  deriving DecidableEq

/-- `STAmount::xrp`, where an amount of another currency counts as nothing. -/
def Amount.drops : Amount → Int
  | xrp drops => drops
  | issued => 0

/-- A `Blob`. -/
abbrev Blob := List UInt8

/-- `KeyType`. -/
inductive KeyType : Type where
  | secp256k1
  | ed25519
  deriving DecidableEq, Repr

/-- `publicKeyType`: the kind of key that the bytes encode. -/
def publicKeyType (slice : List UInt8) : Option KeyType :=
  if slice.length = 33 then
    if slice.head? = some 0xED then some .ed25519
    else if slice.head? = some 0x02 ∨ slice.head? = some 0x03 then some .secp256k1
    else none
  else none

/-- `PublicKey`: bytes that encode a key; the constructor refuses others. -/
structure PublicKey where
  data : List UInt8
  isKey : (publicKeyType data).isSome = true
  deriving DecidableEq

namespace PublicKey

/-- The Ed25519 key whose other bytes are equal. -/
def ofByte (b : UInt8) : PublicKey := ⟨0xED :: List.replicate 32 b, rfl⟩

end PublicKey

end Xahau
