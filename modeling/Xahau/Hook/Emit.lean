import Xahau.Hook.StateApi

/-! # Emitting transactions (`emit` in `applyHook.cpp`)

A hook emits a transaction by handing over a blob that holds it. The transaction must say who emits
it: its details name the transaction for which the hook runs, the hook and its account. -/

namespace Xahau.Hook

open Checked

/-- `hook::canHook`: every bit but that of `ttHOOK_SET` is active low. -/
def canHook (txType : Nat) (hookOn : UInt256) : Bool :=
  !(hookOn.toNat ^^^ (1 <<< ttHookSet)).testBit txType

/-- `otxn_burden`, of the transaction for which the hook runs. -/
def otxnBurden (otxn : STTx) : Nat :=
  match otxn.emitDetails with
  | none => 1
  | some emitDetails => emitDetails.emitBurden % 0x8000000000000000

/-- `etxn_burden`, as a `uint64_t`; the number of `FEE_TOO_LARGE` if it overflows. -/
def etxnBurden (otxn : STTx) (expectedEtxnCount : Nat) : Nat :=
  let burden := otxnBurden otxn * expectedEtxnCount % 0x10000000000000000
  if burden < otxnBurden otxn then 0xFFFFFFFFFFFFFFF6 else burden

/-- `etxn_generation`, as a `uint32_t`. -/
def etxnGeneration (otxn : STTx) : Nat :=
  match otxn.emitDetails with
  | none => 1
  | some emitDetails => (emitDetails.emitGeneration + 1) % 0x100000000

/-- A call of `emit`. -/
structure EmitCall where
  /-- The transaction that the blob holds. -/
  tx : STTx
  /-- What `etxn_reserve` was called with, or minus one. -/
  expectedEtxnCount : Int
  /-- What `etxn_nonce` has returned. -/
  nonceUsed : List UInt256
  /-- `etxn_fee_base` of the blob. -/
  minfee : Int
  /-- The `Transaction` that is made of it is new. -/
  isNew : Bool
  /-- What `preflight` says of it. -/
  preflight : Ter

/-- Who calls `emit`, and in which ledger. -/
structure EmitContext where
  /-- The transaction for which the hook runs. -/
  otxn : STTx
  hook : HookId
  hookCanEmit : UInt256
  ledgerSeq : Nat

section

variable (ctx : EmitContext) (count : Nat) (call : EmitCall)

/-- The rule of `emit` about the details of the transaction. -/
def checkEmitDetails (emitDetails : EmitDetails) :
    Except HookReturnCode Unit := do
  failIf (10 ≤ emitDetails.emitGeneration) .emissionFailure
  failIf (emitDetails.emitGeneration ≠ etxnGeneration ctx.otxn) .emissionFailure
  failIf (emitDetails.emitBurden ≠ etxnBurden ctx.otxn call.expectedEtxnCount.toNat) .emissionFailure
  failIf (emitDetails.emitParentTxnID ≠ ctx.otxn.transactionID) .emissionFailure
  failIf (emitDetails.emitNonce ∉ call.nonceUsed) .emissionFailure
  failIf (∃ callback ∈ emitDetails.emitCallback, callback ≠ ctx.hook.account) .emissionFailure
  failIf (emitDetails.emitHookHash ≠ ctx.hook.hookHash) .emissionFailure

/-- The rules of `emit` about the ledgers in which the transaction can be applied. -/
def checkEmitLedgers (tx : STTx) : Except HookReturnCode Unit :=
  match tx.firstLedgerSequence, tx.lastLedgerSequence with
  | some first, some last => do
    failIf (last < ctx.ledgerSeq + 1) .emissionFailure
    failIf (ctx.ledgerSeq + 5 < last) .emissionFailure
    failIf (last < first) .emissionFailure
  | _, _ => .error .emissionFailure

/-- `emit` of a transaction in memory, by a hook that has emitted `count`. -/
def emit : Except HookReturnCode Unit := do
  failIf (call.expectedEtxnCount < 0) .prerequisiteNotMet
  failIf (call.expectedEtxnCount ≤ count) .tooManyEmittedTxn
  failIf (call.tx.isPseudoTx = true) .emissionFailure
  failIf (canHook call.tx.txnType ctx.hookCanEmit = false) .emissionFailure
  failIf (call.tx.account ≠ ctx.hook.account) .emissionFailure
  failIf (call.tx.sequence ≠ 0) .emissionFailure
  failIf (call.tx.signingPubKey.length ≠ 33 ∧ call.tx.signingPubKey.length ≠ 0) .emissionFailure
  failIf (∃ b ∈ call.tx.signingPubKey, b ≠ 0) .emissionFailure
  failIf (call.tx.hasSigners = true) .emissionFailure
  failIf (call.tx.ticketSequence ≠ none) .emissionFailure
  failIf (call.tx.accountTxnID ≠ none) .emissionFailure
  match call.tx.emitDetails with
  | none => .error .emissionFailure
  | some emitDetails => do
    checkEmitDetails ctx call emitDetails
    failIf (call.tx.txnSignature ≠ none) .emissionFailure
    checkEmitLedgers ctx call.tx
    failIf (call.minfee < 0) .emissionFailure
    failIf (call.tx.fee < call.minfee) .emissionFailure
    failIf (call.isNew = false) .emissionFailure
    failIf (call.preflight.isTesSuccess = false) .emissionFailure

end

/-- The transactions that a hook has emitted by its calls, oldest first. -/
def emitAll (ctx : EmitContext) : List EmitCall → List STTx → List STTx
  | [], emitted => emitted
  | call :: calls, emitted =>
    match emit ctx emitted.length call with
    | .error _ => emitAll ctx calls emitted
    | .ok _ => emitAll ctx calls (emitted ++ [call.tx])

/-- Emitted for another one: no pseudo-transaction, and its details say so. -/
def EmittedFor (otxn tx : STTx) : Prop :=
  tx.isPseudoTx = false ∧
    ∃ emitDetails, tx.emitDetails = some emitDetails ∧
      emitDetails.emitParentTxnID = otxn.transactionID

variable {ctx : EmitContext}

/-- What `emit` has checked of the details. -/
theorem details_of_emit {count : Nat} {call : EmitCall} {u : Unit}
    (h : emit ctx count call = .ok u) :
    call.tx.isPseudoTx = false ∧ ∃ d, call.tx.emitDetails = some d ∧ d.emitGeneration < 10 ∧
      d.emitGeneration = etxnGeneration ctx.otxn ∧ d.emitParentTxnID = ctx.otxn.transactionID ∧
      d.emitNonce ∈ call.nonceUsed ∧ d.emitHookHash = ctx.hook.hookHash := by
  unfold emit at h
  simp only [bind_eq_ok, failIf_eq_ok] at h
  obtain ⟨-, -, -, -, -, hpse, -, -, -, -, -, -, -, -, -, -, -, -, -, -, -, -, h⟩ := h
  split at h
  · cases h
  rename_i d hdet
  simp only [bind_eq_ok, failIf_eq_ok, checkEmitDetails] at h
  obtain ⟨-, ⟨-, hlt, -, hgen, -, -, -, hpar, -, hnon, -, -, hhash⟩, -⟩ := h
  exact ⟨Bool.eq_false_iff.mpr hpse, d, hdet, not_le.mp hlt, not_not.mp hgen, not_not.mp hpar,
    not_not.mp hnon, not_not.mp hhash⟩

theorem mem_emitAll {calls : List EmitCall} {emitted : List STTx} {tx : STTx}
    (h : tx ∈ emitAll ctx calls emitted) :
    tx ∈ emitted ∨ EmittedFor ctx.otxn tx ∧ ∃ call ∈ calls, call.tx = tx := by
  induction calls generalizing emitted with
  | nil => exact .inl h
  | cons call calls ih =>
    -- what the remaining calls emit was among the calls
    have hlat : EmittedFor ctx.otxn tx ∧ (∃ call ∈ calls, call.tx = tx) →
        EmittedFor ctx.otxn tx ∧ ∃ c ∈ call :: calls, c.tx = tx := by
      rintro ⟨hfor, c, hc, htx⟩
      exact ⟨hfor, c, List.mem_cons_of_mem _ hc, htx⟩
    unfold emitAll at h
    split at h
    · exact (ih h).imp_right hlat
    rename_i hemit
    rcases ih h with h | h
    · rcases List.mem_append.mp h with h | h
      · exact .inl h
      · rw [List.mem_singleton] at h
        subst h
        obtain ⟨hpse, d, hdet, -, -, hpar, -⟩ := details_of_emit hemit
        exact .inr ⟨⟨hpse, d, hdet, hpar⟩, call, List.mem_cons_self, rfl⟩
    · exact .inr (hlat h)

end Xahau.Hook
