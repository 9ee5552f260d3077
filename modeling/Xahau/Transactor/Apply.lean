import Xahau.Hook.WeakPhase
import Xahau.Transactor.Invariants

/-! # Applying a transaction (`Transactor.cpp`, `Change.cpp`, `applySteps.cpp`)

A transaction is checked and applied, and hooks run before and after. One that a hook has emitted
carries no signature and no sequence number; it is checked against the emission directory. What most
transactors do is a parameter: within the entries that they touch, they can make any changes. -/

namespace Xahau.Transactor

open Hook Checked

/-- `ApplyFlags`. -/
structure ApplyFlags where
  /-- `tapPREFLIGHT_EMIT`: a test of a transaction that a hook is about to emit. -/
  preflightEmit : Bool
  /-- `tapRETRY`: a failure is not final. -/
  retry : Bool
  /-- `tapFAIL_HARD`: a `tec` must not do anything. -/
  failHard : Bool

/-- A modified or created account root of the metadata, with the `sfBalance` of its final and
previous fields, if present. -/
structure AffectedRoot where
  account : AccountID
  finalFields : Option (Option Int)
  previousFields : Option (Option Int)

/-- What applying a transaction depends on beside it and the ledger. -/
structure Env where
  flags : ApplyFlags
  /-- The `HashRouter` of this server has the flag `SF_EMITTED` for the transaction. -/
  routerEmitted : Bool
  /-- What the other checks say: format, fee, signature, and transactor. -/
  preflight : Ter
  checkFee : Ter
  checkSign : Ter
  preclaim : Ter
  /-- The machine that runs hooks. -/
  vm : Vm
  /-- `getTransactionalStakeHolders`. -/
  stakeHolders : View → List (AccountID × Bool)
  /-- `additionalWeakTSH_`, which the transactor leaves. -/
  additionalWeakTSH : List AccountID
  /-- `doApply` of the transactor. -/
  doApply : View → Ter × View
  /-- The entries that it touches. -/
  touched : Touched
  /-- The owners of the offers that are removed after a reset, one for each offer. -/
  removedOffers : Ter → View → List AccountID
  importEnv : Import.Env
  genesis : Change.Genesis
  /-- The account of `ttACCOUNT_DELETE` owns a token page, and what becomes of its directory. -/
  ownsTokenPage : Bool
  ownerDir : Ter
  /-- The other invariants, for the ledger before and after, the fee and the result. -/
  invariants : View → View → Int → Ter → Bool
  /-- The account roots among the affected nodes of `generateProvisionalMeta`. -/
  affectedRoots : View → List AffectedRoot
  /-- `ApplyContext::size`: how many entries were touched. -/
  size : View → Nat

/-! ## Checks -/

section

variable (env : Env) (view : View) (tx : STTx)

/-- The parts of `preflight1` and `Change::preflight` about pseudo-transactions and emitted ones. -/
def preflight (rules : Rules) (tx : STTx) : Ter :=
  if tx.isPseudoTx then
    if tx.account ≠ .zero then .temBAD_SRC_ACCOUNT
    else if tx.fee ≠ 0 then .temBAD_FEE
    else env.preflight
  else if tx.account = .zero then .temBAD_SRC_ACCOUNT
  else if tx.fee < 0 ∨ initialXrp < tx.fee then .temBAD_FEE
  else if rules.enabled .featureHooks = true ∧ tx.isEmittedTxn = true then
    -- if a hook emitted this transaction we bypass signature checks
    if env.routerEmitted = true ∨ env.flags.preflightEmit = true then env.preflight
    else .telNON_LOCAL_EMITTED_TXN
  else env.preflight

/-- `Transactor::checkSeqProxy`. -/
def checkSeqProxy : Ter :=
  match view.account tx.account with
  | none =>
    if view.rules.enabled .featureImport = true ∧ tx.txnType = ttImport ∧
        tx.getSeqProxy = .seq 0 then
      .tesSUCCESS
    else .terNO_ACCOUNT
  | some sle =>
    -- pass all emitted tx provided their seq is 0
    if view.rules.enabled .featureHooks = true ∧ tx.isEmittedTxn = true then
      if tx.firstLedgerSequence = none then .tefINTERNAL else .tesSUCCESS
    -- reserved for emitted tx only at this time
    else if tx.firstLedgerSequence ≠ none then .tefINTERNAL
    else
      match tx.getSeqProxy with
      | .seq n =>
        if tx.ticketSequence ≠ none ∧ view.rules.enabled .featureTicketBatch = true then
          .temSEQ_AND_TICKET
        else if n = sle.sequence then .tesSUCCESS
        else if sle.sequence < n then .terPRE_SEQ
        else .tefPAST_SEQ
      | .ticket n =>
        if sle.sequence ≤ n then .terPRE_TICKET
        else if view.ticket tx.account n = false then .tefNO_TICKET
        else .tesSUCCESS

/-- `checkPriorTxAndLastLedger` looks up an emitted transaction in the emission directory. If it is
not there, that's a re-apply, so discard. -/
def checkEmission : Ter :=
  match view.emittedTxn tx.transactionID with
  | none => .tefNONDIR_EMIT
  | some sleE =>
    match view.emittedDir sleE.ownerNode with
    | none => .tefNONDIR_EMIT
    | some node => if tx.transactionID ∈ node.indexes then .tesSUCCESS else .tefNONDIR_EMIT

/-- `Transactor::checkPriorTxAndLastLedger`. -/
def checkPriorTxAndLastLedger : Ter :=
  let sle := view.account tx.account
  let isFirstImport := decide (sle = none ∧ view.rules.enabled .featureImport = true ∧
    tx.txnType = ttImport ∧ tx.hasIssuer = false)
  if sle = none ∧ isFirstImport = false then .terNO_ACCOUNT
  else if ∃ id ∈ tx.accountTxnID, isFirstImport = true ∨
      ((sle.bind AccountRoot.accountTxnID).getD .zero) ≠ id then
    .tefWRONG_PRIOR
  else if ∃ last ∈ tx.lastLedgerSequence, last < view.seq then .tefMAX_LEDGER
  else if tx.transactionID ∈ view.txs then .tefALREADY
  else if tx.isEmittedTxn = true ∧ view.rules.enabled .featureHooks = true ∧
      view.rules.enabled .fixXahauV2 = true then
    checkEmission view tx
  else .tesSUCCESS

/-- `Transactor::checkSign`: hook emitted transactions do not have signatures. -/
def checkSign : Ter :=
  if view.rules.enabled .featureHooks = true ∧ tx.isEmittedTxn = true then
    if env.routerEmitted = true ∨ env.flags.preflightEmit = true then .tesSUCCESS
    else .telNON_LOCAL_EMITTED_TXN
  else env.checkSign

/-- `preclaim` of the transactor of the transaction. -/
def preclaim : Ter :=
  if tx.txnType = ttImport then Import.preclaim env.importEnv view tx
  else if tx.txnType = ttGenesisMint then GenesisMint.preclaim view
  else if tx.txnType = ttAccountDelete then
    DeleteAccount.preclaim env.ownsTokenPage env.ownerDir view tx
  else env.preclaim

/-- `invoke_preclaim`. Transactions of no account skip the checks. -/
def invokePreclaim : Ter :=
  if tx.account = .zero then preclaim env view tx
  else if (checkSeqProxy view tx).isTesSuccess = false then checkSeqProxy view tx
  else if (checkPriorTxAndLastLedger view tx).isTesSuccess = false then
    checkPriorTxAndLastLedger view tx
  else if env.checkFee.isTesSuccess = false then env.checkFee
  else if (checkSign env view tx).isTesSuccess = false then checkSign env view tx
  else preclaim env view tx

/-! ## Applying -/

/-- An account root as a transactor can leave it: only imports write `sfImportSequence`, and only
`ttACCOUNT_DELETE` erases its root. -/
def framedRoot (acc : AccountID) :
    Option AccountRoot → Option AccountRoot → Option AccountRoot
  | none, sle => sle.map fun sle => { sle with importSequence := none }
  | some before, some sle => some { sle with importSequence := before.importSequence }
  | some before, none =>
    if tx.txnType = ttAccountDelete ∧ acc = tx.account then none else some before

/-- The changes that a transactor can make, not to the header, the emission directory, the rules or
the set of transactions. -/
def framed (touched : Touched) (tx : STTx) (view view' : View) : View :=
  { view with
    hooks := view'.hooks
    hookDefinition := view'.hookDefinition
    account := fun acc =>
      if acc ∈ touched.accounts then framedRoot tx acc (view.account acc) (view'.account acc)
      else view.account acc
    escrow := fun key => if key ∈ touched.escrows then view'.escrow key else view.escrow key
    payChan := fun key => if key ∈ touched.payChans then view'.payChan key else view.payChan key
    check := view'.check
    uriToken := view'.uriToken
    nftOffer := view'.nftOffer
    findToken := view'.findToken
    ticket := view'.ticket
    hookState := view'.hookState
    hookStateDir := view'.hookStateDir }

/-- `Transactor::consumeSeqProxy`, for an account root that exists. -/
def consumeSeqProxy (sleAccount : AccountRoot) (view : View) : Ter × View :=
  -- do not update sequence for emitted tx
  if tx.isEmittedTxn then (.tesSUCCESS, view)
  else
    match tx.getSeqProxy with
    | .seq n => (.tesSUCCESS, view.setAccount tx.account { sleAccount with sequence := n + 1 })
    | .ticket n =>
      if view.ticket tx.account n then
        (.tesSUCCESS, { view.setAccount tx.account
            { sleAccount with ownerCount := confineOwnerCount sleAccount.ownerCount (-1) } with
          ticket := fun acc m => if (acc, m) = (tx.account, n) then false else view.ticket acc m })
      else (.tefBAD_LEDGER, view)

/-- `Transactor::payFee`, and the last transaction of the account. -/
def payFee (view : View) : View :=
  match view.account tx.account with
  | none => view
  | some sle =>
    view.setAccount tx.account { sle with
      balance := sle.balance - tx.fee
      accountTxnID := sle.accountTxnID.map fun _ => tx.transactionID }

/-- The result of a transactor. What it has changed when it fails is not used. -/
def returned : Except Ter View → Ter × View
  | .ok view' => (.tesSUCCESS, view')
  | .error result => (result, view)

/-- `doApply` of the transactor; `Change::applyEmitFailure` removes an emitted transaction. -/
def doApply (view : View) : Except String (Ter × View) :=
  if tx.txnType = ttEmitFailure then eraseEmission tx.transactionHash view
  else if tx.txnType = ttImport then .ok (returned view (Import.doApply env.importEnv tx view))
  else if tx.txnType = ttGenesisMint then .ok (returned view (GenesisMint.doApply tx view))
  else if tx.txnType = ttAmendment ∧ tx.amendment = env.genesis.amendment then
    .ok (Change.applyXahauGenesis env.genesis view)
  else .ok ((env.doApply view).1, framed env.touched tx view (env.doApply view).2)

/-- `Transactor::apply`. -/
def apply (view : View) : Except String (Ter × View) :=
  match view.account tx.account with
  | none => doApply env tx view
  | some sle =>
    let (result, view) := consumeSeqProxy tx sle view
    if result.isTesSuccess = false then .ok (result, view)
    else doApply env tx (payFee tx view)

/-- `Transactor::reset`: changes are discarded, and the fee is charged, as far as the balance goes.
That fee is returned too. -/
def reset (fee : Int) (view : View) : Ter × View × Int :=
  match view.account tx.account with
  | none => (.tefINTERNAL, view, 0)
  | some txnAcct =>
    let fee := min fee txnAcct.balance
    let txnAcct := { txnAcct with balance := txnAcct.balance - fee }
    let (result, view) := consumeSeqProxy tx txnAcct (view.setAccount tx.account txnAcct)
    (result, view, fee)

/-- After a reset, unfunded offers and expired offers for tokens are removed. -/
def removeOffers (result : Ter) (view : View) : View :=
  if result = .tecOVERSIZE ∨ result = .tecKILLED ∨ result = .tecEXPIRED then
    (env.removedOffers result view).foldl
      (View.modifyAccount fun sle =>
        { sle with ownerCount := confineOwnerCount sle.ownerCount (-1) }) view
  else view

/-- The entries that `ApplyContext::visit` goes through. -/
def visited : Touched :=
  { env.touched with
    accounts :=
      tx.account :: (env.touched.accounts ++ tx.genesisMints.map GenesisMint.destination) }

/-- `ApplyContext::checkInvariants`. -/
def checkInvariants (before view : View) (fee : Int) (result : Ter) : Ter :=
  let tally := XRPNotCreated.visit (visited env tx) before view
  if XRPNotCreated.finalize env.importEnv env.genesis tx before view tally result fee = true ∧
      env.invariants before view fee result = true then
    result
  else failInvariantCheck result

end

/-- The changes with which a transaction is applied, and the fee that is charged. -/
structure Settled where
  view : View
  /-- The changes are those of the transaction itself, and not those of a reset. -/
  own : Bool
  fee : Int

/-- The invariants in `Transactor::operator()`, with an attempt to only claim a fee if they fail. -/
def claim (env : Env) (tx : STTx) (before : View) (result : Ter) (settled : Settled) :
    Ter × Option Settled :=
  let result := checkInvariants env tx before settled.view settled.fee result
  if result = .tecINVARIANT_FAILED then
    let (resetResult, view, fee) := reset tx settled.fee before
    let result := if resetResult.isTesSuccess = false then resetResult else result
    let result :=
      if result.isTesSuccess = true ∨ result.isTecClaim = true then
        checkInvariants env tx before view fee result
      else result
    if result.isTesSuccess = true ∨ result.isTecClaim = true then (result, some ⟨view, false, fee⟩)
    else (result, none)
  else if result.isTesSuccess = true ∨ result.isTecClaim = true then (result, some settled)
  else (result, none)

/-- `oversizeMetaDataCap`. -/
def oversizeMetaDataCap : Nat := 5200

section

variable (env : Env) (tx : STTx) (before : View) (result : Ter) (view : View)

/-- The part of `Transactor::operator()` that decides with which changes the transaction is applied,
if any. -/
def settle : Ter × Option Settled :=
  let applied := result.isTesSuccess
  let result := if oversizeMetaDataCap < env.size view then .tecOVERSIZE else result
  if result.isTecClaim = true ∧ env.flags.failHard = true then (result, none)
  else if result = .tecOVERSIZE ∨ result = .tecKILLED ∨ result = .tecEXPIRED ∨
      (result.isTecClaim = true ∧ env.flags.retry = false) then
    let (resetResult, view, fee) := reset tx tx.fee before
    let result := if resetResult.isTesSuccess = false then resetResult else result
    if result.isTecClaim = false then (result, none)
    else claim env tx before result ⟨removeOffers env result view, false, fee⟩
  else if applied = false then (result, none)
  else claim env tx before result ⟨view, true, tx.fee⟩

/-! ## Balance rewards -/

/-- The balance that rewards are computed by: the previous one as of `fix240819`. -/
def AffectedRoot.rewardBalance (rules : Rules) (node : AffectedRoot) : Option Int :=
  (if rules.enabled .fix240819 then node.previousFields else node.finalFields).join

/-- The accumulator grows by the balance in XRP for every ledger since, unless a number overflows.
-/
def accrue (rules : Rules) (lgrCur : Nat) (drops : Int) (sle : AccountRoot) : AccountRoot :=
  match sle.rewardLgrFirst, sle.rewardLgrLast, sle.rewardAccumulator with
  | some _, some lgrLast, some accum =>
    let bal := (drops.tdiv 1000000 % 2 ^ 64).toNat
    let lgrElapsed := (lgrCur + 2 ^ 32 - lgrLast) % 2 ^ 32
    let accumNew := (accum + bal * lgrElapsed) % 2 ^ 64
    if bal = 0 then sle
    else if lgrElapsed = 0 ∨ lgrCur < lgrElapsed ∨
        (rules.enabled .fix240911 = false ∧ lgrLast < lgrElapsed) then
      sle
    else if accumNew < accum then sle
    else { sle with rewardAccumulator := some accumNew, rewardLgrLast := some lgrCur }
  | _, _, _ => sle

/-- The rewards of one affected account. -/
def reward (node : AffectedRoot) : View :=
  match view.account node.account, node.rewardBalance view.rules with
  | some sle, some drops => view.setAccount node.account (accrue view.rules view.seq drops sle)
  | _, _ => view

/-- The part of `Transactor::operator()` that updates the balance rewards. -/
def rewards : View :=
  if view.rules.enabled .featureBalanceRewards then (env.affectedRoots view).foldl reward view
  else view

/-! ## Hooks before and after -/

/-- The stakeholders of a transaction. Pseudo-transactions have none. -/
def stakeHolders : List (AccountID × Bool) :=
  if tx.isPseudoTx then [] else env.stakeHolders view

end

/-- The hooks that have asked to be run again, by account. -/
def againMap (hookResults : List HookResult) : List (AccountID × List UInt256) :=
  let aawMap : AList fun _ : AccountID => List UInt256 :=
    hookResults.foldl (fun aawMap hookResult =>
      if hookResult.executeAgainAsWeak then
        aawMap.insert hookResult.account
          (hookResult.hookHash :: (aawMap.lookup hookResult.account).getD [])
      else aawMap) ∅
  (sortedEntries aawMap).map fun entry => (entry.1, entry.2)

/-- What the strong hooks leave. -/
structure StrongPhase where
  result : Ter
  view : View
  aawMap : List (AccountID × List UInt256)
  /-- The transactions that were inserted in the emission directory. -/
  inserted : List UInt256

section

variable (env : Env) (tx : STTx) (view : View)

/-- The hooks of the account of the transaction, unless it was emitted. -/
def originatorHooks : Ter × Session :=
  match view.hooks tx.account with
  | some hooks =>
    if tx.isEmittedTxn then (.tesSUCCESS, .start)
    else executeHookChain env.vm view tx tx.account true hooks 0 [] ∅ .start
  | none => (.tesSUCCESS, .start)

/-- The hooks before the transaction: those of its account, and if they agree those of strong
stakeholders. -/
def strongHooks : Ter × View × Session :=
  let (result, session) := originatorHooks env tx view
  if result.isTesSuccess then doTSH env.vm tx true (stakeHolders env tx view) [] view session
  else (result, view, session)

/-- The hooks before the transaction in `Transactor::operator()`. -/
def strongPhase : Except String StrongPhase := do
  let (result, view, session) := strongHooks env tx view
  -- write state if all chains executed successfully
  let (_, view, _) ←
    (if result.isTesSuccess then finalizeHookState session.stateMap view
    else .ok (result, view, []) : Except String (Ter × View × List SetRequest))
  let (view, emissions) ← finalizeHookResults session.results view result.isTesSuccess
  .ok {
    result
    view
    aawMap := againMap session.results
    inserted := (emissions.flatMap Prod.snd).map Prod.fst }

end

/-- One callback of `Transactor::doHookCallback`, with what was inserted. Its changes are written if
it accepts. -/
def runCallback (vm : Vm) (tx : STTx) (invocation : Invocation) (view : View) :
    Except String (View × List UInt256) := do
  -- the hook is told of a failed emission by its entry, which is dereferenced unchecked
  failIf (tx.txnType = ttEmitFailure ∧ view.emittedTxn tx.transactionHash = none)
    "dereference of a null pointer"
  let (execution, stateMap) := Hook.apply vm tx invocation view .empty
  if execution.threw then .ok (view, [])
  else
    let (_, view, _) ←
      (if execution.accepted then finalizeHookState stateMap view
      else .ok (.tesSUCCESS, view, []) : Except String (Ter × View × List SetRequest))
    let (_, view, emissionTxnid) ← finalizeHookResult execution.result view execution.accepted
    .ok (view, emissionTxnid.map Prod.fst)

/-- The loop of `Transactor::doHookCallback`, from the hook `hookNo` on. -/
def callbackLoop (vm : Vm) (tx : STTx) (callbackAccountID : AccountID) (callbackHookHash : UInt256)
    (hookDef : HookDefinition) :
    List HookObj → Nat → View → Except String (View × List UInt256)
  | [], _, view => .ok (view, [])
  | hookObj :: hooks, hookNo, view =>
    if hookObj.hookHash ≠ some callbackHookHash then
      callbackLoop vm tx callbackAccountID callbackHookHash hookDef hooks (hookNo + 1) view
    else
      match gatherHookParameters hookDef hookObj with
      | none => .ok (view, [])
      | some parameters => do
        let (view, ids) ← runCallback vm tx
          { hookObj.invocation callbackHookHash hookDef callbackAccountID parameters ∅ false
              (if tx.txnType = ttEmitFailure then 1 else 0) hookNo with
            hasCallback := true
            isCallback := true } view
        let (view, ids') ←
          callbackLoop vm tx callbackAccountID callbackHookHash hookDef hooks (hookNo + 1) view
        .ok (view, ids ++ ids')

/-- `Transactor::doHookCallback`. Callbacks are optional. -/
def doHookCallback (vm : Vm) (tx : STTx) (view : View) : Except String (View × List UInt256) :=
  match tx.emitDetails with
  | none => .ok (view, [])
  | some emitDetails =>
    match emitDetails.emitCallback, view.hookDefinition emitDetails.emitHookHash with
    | some callbackAccountID, some hookDef =>
      if hookDef.hookCallbackFee = none then .ok (view, [])
      else
        match view.hooks callbackAccountID with
        | none => .ok (view, [])
        | some hooks =>
          callbackLoop vm tx callbackAccountID emitDetails.emitHookHash hookDef hooks 0 view
    | _, _ => .ok (view, [])

section

variable (env : Env) (tx : STTx) (aawMap : List (AccountID × List UInt256))

/-- After the application in `Transactor::operator()`: the callback, the removal of the emission
entry and the weak hooks. -/
def postApplication (result : Ter) (view : View) : Except String (View × List UInt256) := do
  let (view, ids) ← doHookCallback env.vm tx view
  let (_, view) ← removeEmissionEntry tx view
  let tsh := stakeHolders env tx view ++ env.additionalWeakTSH.map fun acc => (acc, false)
  let phase ← weakPhase env.vm tx (if tx.isPseudoTx then [] else tsh) aawMap result view
  .ok (phase.view, ids ++ phase.inserted)

/-- The rest of `Transactor::operator()` for an applied transaction: the balance rewards, the hooks
after it, and the fee, destroyed in the header of a closed ledger. -/
def conclude (result : Ter) (settled : Settled) : Except String (Ter × View × List UInt256) := do
  let view := rewards env settled.view
  let (view, ids) ←
    (if view.rules.enabled .featureHooks then postApplication env tx aawMap result view
    else .ok (view, []) : Except String (View × List UInt256))
  failIf (settled.fee < 0) "fee charged is negative!"
  .ok (if view.rules.enabled .featureHooks = true ∧ oversizeMetaDataCap < env.size view then
      .tecOVERSIZE else result,
    { view with
      drops := if view.isOpen then view.drops else view.drops - settled.fee
      txs := tx.transactionID :: view.txs },
    ids)

/-- What becomes of a transaction. -/
structure TxOutcome where
  result : Ter
  applied : Bool
  view : View
  /-- What `finalizeHookResult` has inserted in the emission directory. -/
  inserted : List UInt256
  /-- The transaction was applied with its own changes, not those of a reset. -/
  own : Bool

/-- The transaction is not applied. -/
def refuse (result : Ter) (view : View) : Except String TxOutcome :=
  .ok ⟨result, false, view, [], false⟩

/-- The part of `Transactor::operator()` from where the transaction is applied. -/
def finish (before : View) (strong : StrongPhase) :
    Except String TxOutcome := do
  let (result, view) ←
    (if strong.result.isTesSuccess then apply env tx strong.view
    else .ok (strong.result, strong.view) : Except String (Ter × View))
  match settle env tx before result view with
  | (result, none) => refuse result before
  | (result, some settled) => do
    let (result, view, ids) ← conclude env tx strong.aawMap result settled
    .ok {
      result
      applied := true
      view
      inserted := (if settled.own then strong.inserted else []) ++ ids
      own := settled.own }

/-- `Transactor::operator()`. -/
def operator (preclaimResult : Ter) (before : View) :
    Except String TxOutcome := do
  -- an absolute bar to emitted transactions that were not emitted here by a hook here
  if env.flags.preflightEmit = true ∨ (tx.isEmittedTxn = true ∧ env.routerEmitted = false) then
    refuse .tecINTERNAL before
  else
    let strong ←
      (if before.rules.enabled .featureHooks = true ∧ preclaimResult.isTesSuccess = true then
        strongPhase env tx before
      else .ok ⟨preclaimResult, before, [], []⟩ : Except String StrongPhase)
    finish env tx before strong

/-- `applyTransaction`: the checks, and the application if a fee is likely claimed. -/
def applyTransaction (before : View) : Except String TxOutcome :=
  let preflightResult := preflight env before.rules tx
  if preflightResult.isTesSuccess = false then refuse preflightResult before
  else
    let preclaimResult := invokePreclaim env before tx
    if preclaimResult.isTesSuccess = true ∨
        (preclaimResult.isTecClaim = true ∧ env.flags.retry = false) then
      operator env tx preclaimResult before
    else refuse preclaimResult before

end

end Xahau.Transactor
