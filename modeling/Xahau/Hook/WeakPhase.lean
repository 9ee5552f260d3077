import Xahau.Hook.Chain

/-! # The weak phase of a transaction (`Transactor.cpp`)

Once a transaction is applied, the hooks of its weak stakeholders run, and those that have asked to
be run again. Their state changes and emitted transactions are written at the end. Whether a hook
ended with `accept` plays no part, so one that rolls back leaves what it has done. -/

namespace Xahau.Hook

open Checked

/-- `finalizeHookResult` for each result, with what it returns. -/
def finalizeHookResults :
    List HookResult → View → Bool → Except String (View × List (Ter × List (UInt256 × UInt256)))
  | [], view, _ => .ok (view, [])
  | hookResult :: hookResults, view, doEmit => do
    let (result, view, emissionTxnid) ← finalizeHookResult hookResult view doEmit
    let (view, emissions) ← finalizeHookResults hookResults view doEmit
    .ok (view, (result, emissionTxnid) :: emissions)

/-- What happened in a weak phase. -/
structure WeakPhase where
  /-- The executions, and the cache that they leave. -/
  session : Session
  /-- What `finalizeHookState` returned. -/
  stateResult : Ter
  /-- The entries that it has written. -/
  written : List SetRequest
  /-- What `finalizeHookResult` returned for each result, and what it inserted. -/
  emissions : List (Ter × List (UInt256 × UInt256))
  view : View

section

variable (result : Ter) (view : View) (phase : WeakPhase)

/-- The transactions that were inserted in the emission directory. -/
def WeakPhase.inserted : List UInt256 :=
  (phase.emissions.flatMap Prod.snd).map Prod.fst

/-- The hooks after the transaction in `Transactor::operator()`: those of its stakeholders and those
to run again. -/
def weakPhase (vm : Vm) (tx : STTx) (tsh : List (AccountID × Bool))
    (aawMap : List (AccountID × List UInt256)) (result : Ter) (view : View) :
    Except String WeakPhase := do
  let (_, view, session) := doTSH vm tx false tsh [] view .start
  let session := aawMap.foldl (fun session aaw => doAgainAsWeak vm view tx aaw.1 aaw.2 session) session
  let (stateResult, view, written) ← finalizeHookState session.stateMap view
  let (view, emissions) ← finalizeHookResults session.results view result.isTesSuccess
  .ok { session, stateResult, written, emissions, view }

/-! ## Traces -/

/-- No execution without `accept` leaves a trace: nothing it has set or emitted is in the ledger. -/
def NoTrace : Prop :=
  ∀ execution ∈ phase.session.executions, execution.accepted = false →
    (∀ request ∈ execution.sets, ∀ entry ∈ phase.written, ¬ entry.SameEntry request) ∧
    ∀ tx ∈ execution.emitted, tx.transactionID ∉ phase.inserted

/-- Every execution without `accept` has set nothing, and emitted only what was already in the
directory. -/
def Quiet : Prop :=
  ∀ execution ∈ phase.session.executions, execution.accepted = false →
    execution.sets = [] ∧ ∀ tx ∈ execution.emitted, view.emittedTxn tx.transactionID ≠ none

/-- The changes are written in full: the transaction has succeeded in a closed ledger, and nothing
failed. -/
def Complete : Prop :=
  result.isTesSuccess = true ∧ view.isOpen = false ∧ phase.stateResult = .tesSUCCESS ∧
    ∀ emission ∈ phase.emissions, emission.1 = .tesSUCCESS

end

instance (r r' : SetRequest) : Decidable (r.SameEntry r') :=
  inferInstanceAs (Decidable (_ ∧ _ ∧ _))

instance (phase : WeakPhase) : Decidable (NoTrace phase) :=
  inferInstanceAs (Decidable (∀ execution ∈ phase.session.executions, _ → _ ∧ _))

instance (view : View) (phase : WeakPhase) : Decidable (Quiet view phase) :=
  inferInstanceAs (Decidable (∀ execution ∈ phase.session.executions, _ → _ ∧ _))

theorem emits_finalizeHookResults {P : STTx → Prop} {hookResults : List HookResult}
    {view view' : View} {doEmit : Bool} {emissions : List (Ter × List (UInt256 × UInt256))}
    (htxs : ∀ hookResult ∈ hookResults, ∀ tx ∈ hookResult.emittedTxn, P tx)
    (h : finalizeHookResults hookResults view doEmit = .ok (view', emissions)) :
    Emits P view view' ((emissions.flatMap Prod.snd).map Prod.fst) ∧
      (view.isOpen = false → doEmit = true → (∀ emission ∈ emissions, emission.1 = .tesSUCCESS) →
        ∀ hookResult ∈ hookResults, ∀ tx ∈ hookResult.emittedTxn,
          view'.emittedTxn tx.transactionID ≠ none) := by
  induction hookResults generalizing view emissions with
  | nil =>
    cases h
    exact ⟨.refl, nofun⟩
  | cons hookResult hookResults ih =>
    simp only [finalizeHookResults, bind_eq_ok] at h
    obtain ⟨⟨result, view₁, emissionTxnid⟩, hone, ⟨view₂, emissions₂⟩, hrest, h⟩ := h
    cases h
    rw [List.forall_mem_cons] at htxs
    obtain ⟨hemi, hall⟩ := emits_finalizeHookResult htxs.1 hone
    obtain ⟨hemi', hall'⟩ := ih htxs.2 hrest
    constructor
    · rw [List.flatMap_cons, List.map_append]
      exact hemi.trans hemi'
    intro hclo hemit hok
    rw [List.forall_mem_cons] at hok ⊢
    constructor
    · intro tx htx
      -- what the first result has inserted is kept by the others
      obtain ⟨entry, hent⟩ := Option.ne_none_iff_exists'.mp (hall hclo hemit hok.1 tx htx)
      rw [hemi'.kept _ _ hent]
      exact nofun
    · rw [← hemi.isOpen] at hclo
      exact hall' hclo hemit hok.2

theorem Session.mem_results {session : Session} {execution : Execution}
    (h : execution ∈ session.executions) {tx : STTx} (htx : tx ∈ execution.emitted) :
    ∃ hookResult ∈ session.results, tx ∈ hookResult.emittedTxn := by
  unfold Execution.emitted at htx
  split at htx
  · exact nomatch htx
  rename_i hret
  refine ⟨execution.result, List.mem_filterMap.mpr ⟨execution, h, ?_⟩, htx⟩
  rw [if_neg hret]

/-- **What a weak phase does**: the hooks run in turn, and then what they have set is written and
what they have emitted is inserted. -/
theorem weakPhase_eq_ok {vm : Vm} {tx : STTx} {tsh : List (AccountID × Bool)}
    {aawMap : List (AccountID × List UInt256)} {result : Ter} {view : View} {phase : WeakPhase}
    (h : weakPhase vm tx tsh aawMap result view = .ok phase) :
    (∃ es, Run (Session.Step vm tx) .start es phase.session) ∧
    ∃ view₁ view₂, Unmoved view view₁ ∧
      finalizeHookState phase.session.stateMap view₁
        = .ok (phase.stateResult, view₂, phase.written) ∧
      finalizeHookResults phase.session.results view₂ result.isTesSuccess
        = .ok (phase.view, phase.emissions) := by
  unfold weakPhase at h
  obtain ⟨⟨es, hrun⟩, account, drops, himp, hacc⟩ := run_doTSH vm tx false tsh [] view .start
  generalize doTSH vm tx false tsh [] view .start = weak at h hrun hacc
  obtain ⟨_, view₁, session⟩ := weak
  simp only [bind_eq_ok] at h
  obtain ⟨⟨stateResult, view₂, written⟩, hst, ⟨view₃, emissions⟩, hemit, h⟩ := h
  cases h
  refine ⟨run_againAsWeak vm tx view₁ aawMap hrun, view₁, view₂, ?_, hst, hemit⟩
  rw [show view₁ = _ from hacc]
  exact ⟨⟨rfl, rfl, rfl, rfl⟩, himp⟩

section

variable {vm : Vm} {tx : STTx} {tsh : List (AccountID × Bool)}
  {aawMap : List (AccountID × List UInt256)} {result : Ter} {view : View} {phase : WeakPhase}

section

variable (h : weakPhase vm tx tsh aawMap result view = .ok phase)

include h

theorem emittedTxn_of_inserted
    {id : UInt256} (hid : id ∈ phase.inserted) : view.emittedTxn id = none := by
  obtain ⟨-, view₁, view₂, hunm, hst, hemit⟩ := weakPhase_eq_ok h
  obtain ⟨_, _, _, -, rfl⟩ := frame_of_writeEntries hst
  rw [← hunm.emittedTxn]
  have hemi := (emits_finalizeHookResults (P := fun _ => True) (fun _ _ _ _ => trivial) hemit).1
  exact (hemi.inserted id hid).1

variable {execution : Execution}

section

variable (hcomplete : Complete result view phase) (hmem : execution ∈ phase.session.executions)

include hcomplete hmem

theorem inserted_of_emitted {etx : STTx} (hetx : etx ∈ execution.emitted)
    (hnew : view.emittedTxn etx.transactionID = none) : etx.transactionID ∈ phase.inserted := by
  obtain ⟨hok, hclo, -, hemi⟩ := hcomplete
  obtain ⟨-, view₁, view₂, hunm, hst, hemit⟩ := weakPhase_eq_ok h
  obtain ⟨_, _, _, -, rfl⟩ := frame_of_writeEntries hst
  obtain ⟨hemits, hall⟩ :=
    emits_finalizeHookResults (P := fun _ => True) (fun _ _ _ _ => trivial) hemit
  obtain ⟨hookResult, hres, htx⟩ := Session.mem_results hmem hetx
  rw [← hunm.emittedTxn] at hnew
  rw [← hunm.isOpen] at hclo
  exact hemits.mem_of_new hnew (hall hclo hok hemi hookResult hres etx htx)

theorem written_of_sets {request : SetRequest}
    (hreq : request ∈ execution.sets) : ∃ entry ∈ phase.written, entry.SameEntry request := by
  obtain ⟨⟨es, hrun⟩, view₁, view₂, -, hst, -⟩ := weakPhase_eq_ok h
  have hmar := Session.marked_of_run hrun execution hmem request hreq
  obtain ⟨entry, hent, hkey⟩ := HookStateMap.exists_mem_modifiedEntries hmar
  rw [written_of_writeEntries hst hcomplete.2.2.1]
  rw [Prod.mk.injEq, Prod.mk.injEq] at hkey
  exact ⟨entry, hent, hkey.1.symm, hkey.2.1.symm, hkey.2.2.symm⟩

end

end

/-- **Traces of hooks that did not accept.** A weak phase has none if those hooks are quiet, and
only then when its changes are written in full. -/
theorem weakPhase_noTrace (vm : Vm) (tx : STTx) (tsh : List (AccountID × Bool))
    (aawMap : List (AccountID × List UInt256)) (result : Ter) (view : View) (phase : WeakPhase)
    (h : weakPhase vm tx tsh aawMap result view = .ok phase) :
    (Quiet view phase → NoTrace phase) ∧
      (Complete result view phase → (NoTrace phase ↔ Quiet view phase)) := by
  have hquiet : Quiet view phase → NoTrace phase := by
    intro hquiet execution hmem hrejected
    obtain ⟨hsets, hemitted⟩ := hquiet execution hmem hrejected
    constructor
    · rw [hsets]
      exact nofun
    · intro etx hetx hinserted
      exact hemitted etx hetx (emittedTxn_of_inserted h hinserted)
  refine ⟨hquiet, fun hcomplete => ⟨fun hno execution hmem hrejected => ?_, hquiet⟩⟩
  obtain ⟨hsets, hemitted⟩ := hno execution hmem hrejected
  constructor
  · -- an entry that was set would have been written
    rw [List.eq_nil_iff_forall_not_mem]
    intro request hrequest
    obtain ⟨entry, hentry, hsame⟩ := written_of_sets h hcomplete hmem hrequest
    exact hsets request hrequest entry hentry hsame
  · intro etx hetx hnew
    exact hemitted etx hetx (inserted_of_emitted h hcomplete hmem hetx hnew)

end

/-! ## A hook that rolls back -/

/-- A payment by another account. -/
def strangerPayment : STTx where
  transactionID := .ofByte 20
  txnType := 0
  account := strangerHook.account
  sequence := 1

/-- A transaction that the hook of the owner can emit for the payment. -/
def emittedByOwner : STTx where
  transactionID := .ofByte 30
  txnType := 0
  account := owner
  firstLedgerSequence := some 6
  lastLedgerSequence := some 7
  emitDetails := some {
    emitGeneration := 1
    emitBurden := 1
    emitParentTxnID := strangerPayment.transactionID
    emitNonce := .ofByte 31
    emitCallback := none
    emitHookHash := ownerHook.hookHash }

def emitByOwner : EmitCall where
  tx := emittedByOwner
  expectedEtxnCount := 1
  nonceUsed := [.ofByte 31]
  minfee := 0
  isNew := true
  preflight := .tesSUCCESS

def ownerInvocation : Invocation where
  hook := ownerHook
  hookCanEmit := hookCanEmitDefault
  wasm := []
  hookParams := ∅
  hookParamOverrides := ∅
  hasCallback := false
  isCallback := false
  isStrong := true
  wasmParam := 0
  hookChainPosition := 0

/-- The owner has one hook, which may be run weakly. -/
def collectRegistry : HookRegistry where
  hooks acc :=
    if acc = owner then
      some [{
        hookHash := some ownerHook.hookHash
        hookNamespace := none
        hookGrants := none
        hookOn := none
        hookCanEmit := none
        flags := some 4
        hookParameters := none }]
    else none
  hookDefinition hash :=
    if hash = ownerHook.hookHash then
      some {
        hookNamespace := ownerHook.hookNamespace
        hookOn := .zero
        hookCanEmit := none
        flags := 0
        hookParameters := some []
        createCode := []
        referenceCount := 1
        fee := 1
        hookCallbackFee := none }
    else none

/-- The hook makes the given calls and rolls back. -/
def rollbackVm (calls : List (Memory × Call)) (emits : List EmitCall) : Vm := fun _ _ _ => {
  calls
  emits
  hookParamOverrides := ∅
  hookSkips := []
  exitType := .rollback
  executeAgainAsWeak := false
  threw := false }

/-- A hook that rolls back without having set or emitted anything leaves no trace. -/
theorem quietRollback_noTrace :
    ∃ phase, weakPhase (rollbackVm [] []) strangerPayment [(owner, false)] [] .tesSUCCESS
        (emptyView collectRegistry) = .ok phase ∧
      (phase.session.executions.map Execution.accepted = [false] ∧ NoTrace phase) := by
  have hrun : ∃ phase, weakPhase (rollbackVm [] []) strangerPayment [(owner, false)] [] .tesSUCCESS
        (emptyView collectRegistry) = .ok phase ∧
      (phase.session.executions.map Execution.accepted = [false] ∧
        Quiet (emptyView collectRegistry) phase) := by
    decide +kernel
  obtain ⟨phase, h, haccepted, hquiet⟩ := hrun
  exact ⟨phase, h, haccepted, (weakPhase_noTrace _ _ _ _ _ _ phase h).1 hquiet⟩

/-- **A hook that rolls back leaves a trace**: the state and the transaction are in the ledger after
the phase. -/
theorem rollback_leaves_trace :
    ∃ phase, weakPhase (rollbackVm [([0, 9, 7], .stateSet 1 1 2 1)] [emitByOwner])
        strangerPayment [(owner, false)] [] .tesSUCCESS (emptyView collectRegistry) = .ok phase ∧
      (phase.session.executions.map Execution.accepted = [false] ∧ ¬ NoTrace phase ∧
        phase.view.stateData owner ownerHook.hookNamespace (.ofByte 7) = some [9] ∧
        phase.view.emittedTxn emittedByOwner.transactionID ≠ none) := by
  decide +kernel

end Xahau.Hook
