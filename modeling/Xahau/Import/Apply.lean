import Xahau.Hook.Finalize

/-! # Importing what was burned (`Import.h`, `Import.cpp`)

An import carries a transaction of another chain, with a proof that it burned its fee there. The
account is credited with it, and created if it does not exist. The sequence number of the inner
transaction is kept in the account. Reading the blob is a parameter, and so is the decline of what
is credited: any fraction, where the source uses floating point numbers. -/

namespace Xahau.Import

open Hook Checked

/-- `DROPS_PER_XRP`. -/
def dropsPerXrp : Int := 1000000

/-- The base and the increment of the reserve, 64-bit. The old format goes first. -/
def startingReserves : Option FeeSettings → Nat × Nat
  | none => (1000000, 200000)
  | some fees =>
    match fees.reserveBase, fees.reserveIncrement with
    | some base, some incr => (base, incr)
    | _, _ =>
      match fees.reserveBaseDrops, fees.reserveIncrementDrops with
      | some (.xrp base), some (.xrp incr) => ((base % 2 ^ 64).toNat, (incr % 2 ^ 64).toNat)
      | _, _ => (1000000, 200000)

/-- `computeStartingBonus`: the reserve for five objects, or 2 XRP. -/
def computeStartingBonus (view : View) : Int :=
  let (b, i) := startingReserves view.feeSettings
  let x := (b + i * 5) % 2 ^ 64
  if i < x ∧ b < x then (x : Int).bmod (2 ^ 64) else 2 * dropsPerXrp

/-! ## What an import carries -/

/-- The inner transaction with its metadata. -/
structure InnerTxn where
  account : AccountID
  txnType : Nat
  sequence : Option Nat
  fee : Option Amount
  /-- `sfTransactionResult` of the metadata. -/
  transactionResult : Option Nat
  regularKey : Option AccountID := none
  signerQuorum : Option Nat := none
  /-- The accounts and weights of `sfSignerEntries`. -/
  signerEntries : List (Option AccountID × Option Nat) := []

/-- The blob of an import, a JSON text. -/
structure Xpop where
  /-- `getVLInfo`: the sequence number and the key of the validator list. -/
  vlInfo : Option (Nat × Blob)
  /-- `getInnerTxn`. -/
  inner : Option InnerTxn
  /-- `validation.unl.public_key`. -/
  publicKey : String

/-- What an import depends on beside the transaction and the ledger. -/
structure Env where
  /-- `syntaxCheckXPOP` of the blob of the transaction. -/
  xpop : Option Xpop
  /-- `IMPORT_VL_KEYS` of the configuration. -/
  importVLKeys : List String
  calcAccountID : Blob → AccountID
  /-- What is credited of a drop, after a number of ledgers. -/
  decline : Nat → {y : ℚ // 0 ≤ y ∧ y ≤ 1}
  /-- `SetSignerList::removeFromLedger`: the owner count afterwards. -/
  removeSigners : View → AccountID → Option Nat
  /-- `SetSignerList::validateQuorumAndSignerEntries` and `replaceSignersFromLedger`, likewise. -/
  replaceSigners : View → AccountID → Nat → List (AccountID × Nat) → Option Nat

/-- `isTesSuccess` of a result in the metadata. -/
def isTesResult (result : Nat) : Bool := decide (result < 100)

/-! ## Checks -/

/-- The account cannot sign: the master key is disabled, the regular key is nobody's, and there are
no signers. -/
def isBlackholed (view : View) (acc : AccountID) (sle : AccountRoot) : Bool :=
  sle.disableMaster &&
    (match sle.regularKey with
      | none => true
      | some rk => rk ∈ [.zero, .ofByte 1, .ofByte 2]) &&
    !view.signers acc

/-- The part of `Import::preclaim` that checks the key of the validator list. -/
def checkVLKey (env : Env) (view : View) (strPk : String) : Ter :=
  if strPk ∈ env.importVLKeys then .tesSUCCESS
  else
    match Hex.decode strPk.toList with
    | none => .tefINTERNAL
    | some pk =>
      if publicKeyType pk = none then .tefINTERNAL
      else if pk ∈ view.importVLKeys.getD [] then .tesSUCCESS
      else .telIMPORT_VL_KEY_NOT_RECOGNISED

/-- `Import::preclaim`. -/
def preclaim (env : Env) (view : View) (tx : STTx) : Ter :=
  if view.rules.enabled .featureImport = false then .temDISABLED
  else
    match env.xpop with
    | none => .tefINTERNAL
    | some xpop =>
      match xpop.inner with
      | none => .tefINTERNAL
      | some stpTrans =>
        match stpTrans.sequence with
        | none => .tefINTERNAL
        | some sequence =>
          let sle := view.account tx.account
          if (stpTrans.txnType = ttSignerListSet ∨ stpTrans.txnType = ttRegularKeySet) ∧
              view.rules.enabled .fixReduceImport = true ∧
              ∃ root ∈ sle, isBlackholed view tx.account root = true then
            .tefIMPORT_BLACKHOLED
          -- replay attempt
          else if ∃ past ∈ sle.bind AccountRoot.importSequence, sequence ≤ past then
            .tefPAST_IMPORT_SEQ
          -- when importing for the first time the fee must be zero
          else if sle = none ∧ tx.fee ≠ 0 then .temBAD_FEE
          else
            match xpop.vlInfo with
            | none => .tefINTERNAL
            | some vlInfo =>
              if ∃ seq ∈ view.importVLSeq vlInfo.2, vlInfo.1 < seq then
                .tefPAST_IMPORT_VL_SEQ
              else checkVLKey env view xpop.publicKey

/-! ## Applying -/

/-- The sequence number of the validator list is noted, unless it is past. -/
def updateVLSeq (vlInfo : Nat × Blob) (view : View) : Except Ter View :=
  match view.importVLSeq vlInfo.2 with
  | none => .ok { view with importVLSeq := Function.update view.importVLSeq vlInfo.2 (some vlInfo.1) }
  | some current =>
    if vlInfo.1 < current then .error .tefINTERNAL
    else if current < vlInfo.1 then
      .ok { view with importVLSeq := Function.update view.importVLSeq vlInfo.2 (some vlInfo.1) }
    else .ok view

section

variable (env : Env) (tx : STTx) (stpTrans : InnerTxn) (result importSequence : Nat) (burn : Int)
  (view : View)

/-- The ledgers since the start, 32-bit. If it is not set, it is the current ledger. -/
def elapsedLedgers : Nat :=
  let startLgrSeq := (view.feeSettings.bind FeeSettings.xahauActivationLgrSeq).getD view.seq
  (view.seq + 2 ^ 32 - startLgrSeq) % 2 ^ 32

/-- What is credited of the burned drops: all for two million ledgers, then a decline over 28
million. -/
def creditDrops (burn : Int) : Int :=
  if view.rules.enabled .featureZeroB2M then 0
  else if elapsedLedgers view < 2000000 then burn
  else if elapsedLedgers view < 30000000 then ⌊(burn : ℚ) * (env.decline (elapsedLedgers view)).1⌋
  else 0

/-- The sequence number of a new account. -/
def newSequence : Nat :=
  if view.rules.enabled .featureXahauGenesis then view.parentCloseTime
  else if view.rules.enabled .featureDeletableAccounts then view.seq
  else 1

/-- The fee settings that number the new account, if accounts are numbered. -/
def numbering : Option FeeSettings :=
  if view.rules.enabled .featureXahauGenesis then view.feeSettings else none

/-- The account that an import creates; the master key is disabled unless it signed. -/
def newAccount : AccountRoot where
  balance := 0
  sequence := newSequence view
  accountIndex := (numbering view).map fun sleFees => sleFees.accountCount.getD 0
  disableMaster := decide (tx.signingPubKey = [] ∨ env.calcAccountID tx.signingPubKey ≠ tx.account)

/-- The view after another account was numbered. -/
def countAccount : View :=
  match numbering view with
  | none => view
  | some sleFees =>
    { view with
      feeSettings := some { sleFees with accountCount := some (sleFees.accountCount.getD 0 + 1) } }

/-- `Import::doRegularKey`. -/
def doRegularKey (sle : AccountRoot) (stpTrans : InnerTxn) : AccountRoot :=
  match stpTrans.regularKey with
  | none => { sle with regularKey := none }
  | some rk => { sle with regularKey := some rk, passwordSpent := true }

/-- The signers of an account are set or removed, and it owns that many objects. -/
def setSigners (id : AccountID) (present : Bool) (ownerCount : Nat) : View :=
  match view.account id with
  | none => view
  | some sle =>
    { view.setAccount id { sle with ownerCount } with
      signers := Function.update view.signers id present }

/-- `Import::doSignerList`. What cannot be done is skipped. -/
def doSignerList : View :=
  let id := stpTrans.account
  match stpTrans.signerQuorum with
  | none => view
  | some 0 =>
    -- delete operation
    match env.removeSigners view id with
    | none => view
    | some ownerCount => setSigners view id false ownerCount
  | some quorum =>
    if stpTrans.signerEntries = [] then view
    else
      let signers := stpTrans.signerEntries.mapM fun e => do
        let account ← e.1
        let weight ← e.2
        some (account, weight)
      match signers.bind (env.replaceSigners view id quorum) with
      | none => view
      | some ownerCount => setSigners view id true ownerCount

/-- The keys of a successful inner transaction are imported. -/
def importKeys (sle : AccountRoot) (view : View) : View :=
  if isTesResult result = false then view
  else if stpTrans.txnType = ttSignerListSet then doSignerList env stpTrans view
  else if stpTrans.txnType = ttRegularKeySet then
    view.setAccount tx.account (doRegularKey sle stpTrans)
  else view

/-- The balance from which an import starts: `mSourceBalance`, less the fee, if the account exists.
-/
def startBal (acc : AccountID) : Int :=
  match view.account acc with
  | none => computeStartingBonus view
  | some sle => sle.balance

/-- The account as it is credited, which is created if it is not there. -/
def creditedRoot : AccountRoot :=
  { (view.account tx.account).getD (newAccount env tx view) with
    importSequence := some importSequence
    balance := startBal view tx.account + creditDrops env view burn }

/-- The part of `Import::doApply` that credits the account. -/
def creditAccount : Except Ter View := do
  let create := decide (view.account tx.account = none)
  let startBal := startBal view tx.account
  let sle := creditedRoot env tx importSequence burn view
  failIf (sle.balance < startBal) .tefINTERNAL
  let view := if create then countAccount view else view
  let view := importKeys env tx stpTrans result sle (view.setAccount tx.account sle)
  -- update the ledger header
  .ok { view with drops := view.drops + (if create then sle.balance else sle.balance - startBal) }

end

/-- `Import::doApply`. Changes are discarded on any failure. -/
def doApply (env : Env) (tx : STTx) (view : View) : Except Ter View := do
  failIf (view.rules.enabled .featureImport = false) .temDISABLED
  match env.xpop with
  | some { vlInfo := some vlInfo, inner := some stpTrans, .. } =>
    let view ← updateVLSeq vlInfo view
    match stpTrans.sequence, stpTrans.fee, stpTrans.transactionResult with
    | some importSequence, some (.xrp burn), some result => do
      failIf (burn < 0) .tefINTERNAL
      -- ensure header is not going to overflow
      failIf (burn ≤ 0 ∨ burn + view.drops < view.drops) .tecINTERNAL
      -- make double sure import seq hasn't passed
      failIf (∃ sle ∈ view.account tx.account, importSequence ≤ sle.importSequence.getD 0)
        .tefINTERNAL
      creditAccount env tx stpTrans result importSequence burn view
    | _, _, _ => .error .tefINTERNAL
  | _ => .error .tefINTERNAL

end Xahau.Import
