import Xahau.Hook.WeakPhase

/-! # Chains of emitted transactions

A transaction that a hook emits can run hooks in its turn. Every transaction in such a chain has a
generation one above that of the one before, and generations stay below ten. So chains end. -/

namespace Xahau.Hook

open Checked List

/-- The generation of a transaction: zero unless it says that it was emitted. -/
def generation (tx : STTx) : Nat := (tx.emitDetails.map EmitDetails.emitGeneration).getD 0

/-- Some hook that is run for `p` emits `t`. -/
def EmittedBy (p t : STTx) : Prop :=
  ∃ vm invocation view stateMap, t ∈ (apply vm p invocation view stateMap).1.result.emittedTxn

/-- The transactions for which hooks are run: not emitted, or emitted by a hook for such a
transaction, or clearing away a failed emission with its details. -/
inductive Runnable : STTx → Prop
  | signed {tx : STTx} (h : tx.emitDetails = none) : Runnable tx
  | emitted {p tx : STTx} (hp : Runnable p) (h : EmittedBy p tx) : Runnable tx
  | failed {tx failure : STTx} (htx : Runnable tx) (htype : failure.txnType = ttEmitFailure)
      (h : failure.emitDetails = tx.emitDetails) : Runnable failure

variable {p t : STTx} {vm : Vm} {invocation : Invocation} {view : View} {stateMap : HookStateMap}

/-- What the details of an emitted transaction say. -/
structure Descends (p t : STTx) (hookHash : UInt256) (d : EmitDetails) : Prop where
  emitDetails : t.emitDetails = some d
  generation : d.emitGeneration = etxnGeneration p
  generation_lt : d.emitGeneration < 10
  parent : d.emitParentTxnID = p.transactionID
  emitHookHash : d.emitHookHash = hookHash

variable {ctx : EmitContext}

theorem descends_of_emitAll {calls : List EmitCall} {emitted : List STTx}
    (h : t ∈ emitAll ctx calls emitted) :
    t ∈ emitted ∨ ∃ emitDetails, Descends ctx.otxn t ctx.hook.hookHash emitDetails := by
  induction calls generalizing emitted with
  | nil => exact .inl h
  | cons call calls ih =>
    unfold emitAll at h
    split at h
    · exact ih h
    rename_i hemit
    rcases ih h with hmem | hdes
    · rcases mem_append.mp hmem with hold | hnew
      · exact .inl hold
      · rw [mem_singleton.mp hnew]
        obtain ⟨-, d, hdet, hlt, hgen, hpar, -, hhash⟩ := details_of_emit hemit
        exact .inr ⟨d, hdet, hgen, hlt, hpar, hhash⟩
    · exact .inr hdes

/-- **What a hook emits descends from the transaction of the hook.** -/
theorem descends_of_apply (h : t ∈ (apply vm p invocation view stateMap).1.result.emittedTxn) :
    ∃ emitDetails, Descends p t invocation.hook.hookHash emitDetails :=
  (descends_of_emitAll h).resolve_left not_mem_nil

theorem Runnable.generation_lt (h : Runnable t) : generation t < 10 := by
  induction h with
  | signed h => simp [generation, h]
  | emitted _ hemi _ =>
    obtain ⟨vm, invocation, view, stateMap, hmem⟩ := hemi
    obtain ⟨emitDetails, hdes⟩ := descends_of_apply hmem
    rw [generation, hdes.emitDetails]
    exact hdes.generation_lt
  | failed _ _ hdet ih =>
    rw [generation, hdet]
    exact ih

theorem Runnable.etxnGeneration (h : Runnable p) : Hook.etxnGeneration p = generation p + 1 := by
  have hlt := h.generation_lt
  unfold Hook.etxnGeneration
  cases hdet : p.emitDetails with
  | none => simp [generation, hdet]
  | some emitDetails =>
    have hgen : generation p = emitDetails.emitGeneration := by
      simp [generation, hdet]
    rw [hgen] at hlt ⊢
    exact Nat.mod_eq_of_lt (by omega)

theorem Runnable.generation_emitted (h : Runnable p) (hemi : EmittedBy p t) :
    generation t = generation p + 1 := by
  obtain ⟨vm, invocation, view, stateMap, hmem⟩ := hemi
  obtain ⟨emitDetails, hdes⟩ := descends_of_apply hmem
  have hgen : generation t = emitDetails.emitGeneration := by
    simp [generation, hdes.emitDetails]
  rw [hgen, hdes.generation, h.etxnGeneration]

theorem Runnable.generation_pos (h : Runnable t) (hemi : t.isEmittedTxn = true) :
    0 < generation t := by
  induction h with
  | signed h =>
    rw [STTx.isEmittedTxn, h] at hemi
    cases hemi
  | emitted hp hemit _ =>
    rw [hp.generation_emitted hemit]
    exact Nat.succ_pos _
  | failed _ _ hdet ih =>
    rw [STTx.isEmittedTxn, hdet] at hemi
    rw [generation, hdet]
    exact ih hemi

theorem Runnable.length_chain {ts : List STTx} (h : Runnable p) (hcha : (p :: ts).IsChain EmittedBy) :
    generation p + ts.length < 10 := by
  -- on the rest of the chain, which starts at a later generation
  induction ts generalizing p with
  | nil => exact h.generation_lt
  | cons t ts ih =>
    obtain ⟨hemi, hcha⟩ := isChain_cons_cons.mp hcha
    have hrest := ih (.emitted h hemi) hcha
    rw [h.generation_emitted hemi] at hrest
    rw [length_cons]
    omega

/-- **Chains of emitted transactions are short.** What a hook emits is of the next generation, below
ten, and names the transaction and the hook. A chain in which each was emitted by a hook run for the
one before holds at most nine that were emitted. -/
theorem emission_chain_bounded (hp : Runnable p) :
    (∀ vm invocation view stateMap,
      ∀ t ∈ (apply vm p invocation view stateMap).1.result.emittedTxn,
        ∃ emitDetails, t.emitDetails = some emitDetails ∧
          emitDetails.emitGeneration = generation p + 1 ∧ emitDetails.emitGeneration < 10 ∧
          emitDetails.emitParentTxnID = p.transactionID ∧
          emitDetails.emitHookHash = invocation.hook.hookHash) ∧
    ∀ ts, (p :: ts).IsChain EmittedBy → ((p :: ts).filter STTx.isEmittedTxn).length ≤ 9 := by
  constructor
  · intro vm invocation view stateMap t ht
    obtain ⟨emitDetails, h⟩ := descends_of_apply ht
    exact ⟨emitDetails, h.emitDetails, h.generation.trans hp.etxnGeneration, h.generation_lt,
      h.parent, h.emitHookHash⟩
  intro ts hchain
  have hlength := hp.length_chain hchain
  have hrest := length_filter_le STTx.isEmittedTxn ts
  rw [filter_cons]
  split
  next hemitted =>
    have hpos := hp.generation_pos hemitted
    rw [length_cons]
    omega
  · omega

theorem emittedBy_strangerPayment : EmittedBy strangerPayment emittedByOwner := by
  refine ⟨rollbackVm [] [emitByOwner], ownerInvocation, emptyView collectRegistry, .empty, ?_⟩
  decide +kernel

/-- A payment, and what the hook of the owner emits for it, are such a chain. -/
theorem strangerPayment_chain_bounded :
    [strangerPayment, emittedByOwner].IsChain EmittedBy ∧
      ([strangerPayment, emittedByOwner].filter STTx.isEmittedTxn).length ≤ 9 := by
  have hchain : [strangerPayment, emittedByOwner].IsChain EmittedBy :=
    isChain_cons_cons.mpr ⟨emittedBy_strangerPayment, isChain_singleton _⟩
  exact ⟨hchain, (emission_chain_bounded (.signed rfl)).2 _ hchain⟩

end Xahau.Hook
