import Xahau.Hook.StakeHolders

/-! # The base fee of a transaction (`Transactor::calculateBaseFee`)

A transaction pays for its memos, hook parameters and signers, and for the hooks that it runs: those
of its account and of its strong stakeholders, or the callback of an emitted one. What an emitted
transaction pays grows with its burden. -/

namespace Xahau.Hook

/-! ## Hooks -/

section

variable (tsh : List (AccountID × Bool)) (view : View) (tx : STTx)

/-- `calculateHookChainFee` of the hooks of an account. -/
def chainFeeOf (acc : AccountID) : Int :=
  match view.hooks acc with
  | none => 0
  | some hooks => calculateHookChainFee view tx hooks false

/-- The fee for the callback of an emitted transaction. -/
def callbackFeeOf (emitDetails : EmitDetails) : Int :=
  match (view.hookDefinition emitDetails.emitHookHash).bind HookDefinition.hookCallbackFee with
  | none => 0
  | some toAdd => if toAdd < 0 then initialXrp else toAdd

/-- The fee for the account's hooks, or for the callback of an emitted transaction. -/
def originatorFee : Int :=
  match tx.emitDetails with
  | some emitDetails => callbackFeeOf view emitDetails
  | none => chainFeeOf view tx tx.account

/-- The fees for the hooks of the stakeholders who can reject the transaction. -/
def stakeHoldersFee (tsh : List (AccountID × Bool)) : Int :=
  (tsh.map fun tsh => if tsh.2 then chainFeeOf view tx tsh.1 else 0).sum

/-- The hook fees in `Transactor::calculateBaseFee`. A "cleanup" transaction is regarded as paid up.
-/
def hookExecutionFee : Int :=
  if view.rules.enabled .featureHooks = false ∨ tx.txnType = ttEmitFailure then 0
  else originatorFee view tx + stakeHoldersFee view tx tsh

/-! ## The fee -/

/-- An `int64_t`: arithmetic wraps around. -/
def int64 (x : Int) : Int := (x + 2 ^ 63) % 2 ^ 64 - 2 ^ 63

/-- The fee of a reference transaction; an import pays ten times as much. -/
def referenceFee : Int :=
  let baseFee := view.fees.base
  if tx.txnType = ttImport then max baseFee (int64 (baseFee * 10)) else baseFee

/-- The bytes of hook parameters, a drop each as of `fixXahauV1`. -/
def paramBytes : Nat :=
  if view.rules.enabled .featureHooks = true ∧ view.rules.enabled .fixXahauV1 = true then
    (tx.hookParameters.map fun param => param.1.length + param.2.length).sum
  else 0

/-- The fee for memos, a drop for each byte, unless there is an overflow. -/
def addMemos : List Blob → Int → Option Int
  | [], accumulator => some accumulator
  | memoElement :: memoElements, accumulator =>
    if int64 (accumulator + memoElement.length) < accumulator then none
    else addMemos memoElements (int64 (accumulator + memoElement.length))

/-- `Transactor::calculateBaseFee`. The largest fee stands for an overflow. -/
def calculateBaseFee : Int :=
  if view.rules.enabled .featureHooks = true ∧ tx.txnType = ttEmitFailure then 0
  else
    let baseFee := referenceFee view tx
    let burden := int64 (if view.rules.enabled .featureHooks then
      ((tx.emitDetails.map EmitDetails.emitBurden).getD 1 : Nat) else 1)
    let signerFee := int64 ((if tx.hasSigners then tx.signerCount else 0) * baseFee)
    let fee := do
      let accumulator ← addMemos tx.memos.flatten (int64 (baseFee + paramBytes view tx))
      guard (accumulator ≤ int64 (accumulator * burden))
      let accumulator := int64 (accumulator * burden)
      guard (accumulator ≤ int64 (accumulator + signerFee))
      let accumulator := int64 (accumulator + signerFee)
      guard (accumulator ≤ int64 (accumulator + hookExecutionFee tsh view tx))
      pure (int64 (accumulator + hookExecutionFee tsh view tx))
    fee.getD initialXrp

end

end Xahau.Hook
