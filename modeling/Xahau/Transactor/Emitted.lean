import Xahau.Transactor.Apply

/-! # Emitted transactions are authentic and used once

An emitted transaction is applied only if the emission directory holds it, because a hook of an
applied transaction has emitted it, and its entry is gone afterwards. The pseudo-transaction that
clears away a failed emission carries its details, but has no entry of its own. -/

namespace Xahau.Transactor

open Hook Checked

variable {aawMap : List (AccountID × List UInt256)} {settled : Settled} {strong : StrongPhase}
  {result result' : Ter} {outcome : TxOutcome} {id : UInt256} {vm : Vm}

/-! ## What applying a transaction does to the emission directory -/

/-- The transaction was handed over by a hook that ran for `tx`. -/
def HandedOver (G : Set STTx) (tx etx : STTx) : Prop := EmittedFor tx etx ∧ etx ∈ G

section

variable {G : Set STTx} {env : Env} {tx : STTx} {view view' before : View} {ids : List UInt256}

theorem unmoved_finalizeHookState {stateMap : HookStateMap}
    {written : List SetRequest} (h : finalizeHookState stateMap view = .ok (result, view', written)) :
    Unmoved view view' := by
  obtain ⟨account, hookState, hookStateDir, hkept, rfl⟩ := frame_of_writeEntries h
  exact ⟨⟨rfl, rfl, rfl, rfl⟩, importsOf_of_heldOf (heldOf_of_keptOf hkept)⟩

theorem emits_of_run {session : Session} {es : List (Invocation × View)} {doEmit : Bool}
    {emissions : List (Ter × List (UInt256 × UInt256))} (hvm : vm.EmitsOnly (· ∈ G))
    (hrun : Run (Session.Step vm tx) .start es session)
    (h : finalizeHookResults session.results view doEmit = .ok (view', emissions)) :
    Emits (HandedOver G tx) view view' ((emissions.flatMap Prod.snd).map Prod.fst) := by
  refine (emits_finalizeHookResults ?_ h).1
  intro hookResult hmem etx hetx
  obtain ⟨execution, hexe, hres⟩ := List.mem_filterMap.mp hmem
  split at hres
  · cases hres
  · cases hres
    exact Session.emittedFor_of_run hvm hrun execution hexe etx hetx

theorem emits_weakPhase {tsh : List (AccountID × Bool)} {phase : WeakPhase}
    (hvm : vm.EmitsOnly (· ∈ G)) (h : weakPhase vm tx tsh aawMap result view = .ok phase) :
    Emits (HandedOver G tx) view phase.view phase.inserted := by
  obtain ⟨⟨es, hrun⟩, view₁, view₂, hunm, hst, hemit⟩ := weakPhase_eq_ok h
  exact (Emits.of_unmoved (hunm.trans (unmoved_finalizeHookState hst))).trans
    (emits_of_run hvm hrun hemit)

theorem run_strongHooks (env : Env) (tx : STTx) (view : View) :
    (∃ es, Run (Session.Step env.vm tx) .start es (strongHooks env tx view).2.2) ∧
      Unmoved view (strongHooks env tx view).2.1 := by
  have hori : ∃ es, Run (Session.Step env.vm tx) .start es
      (originatorHooks env tx view).2 := by
    unfold originatorHooks
    split
    · split
      · exact ⟨[], .nil⟩
      · exact run_executeHookChain ..
    · exact ⟨[], .nil⟩
  obtain ⟨es₁, hrun₁⟩ := hori
  unfold strongHooks
  dsimp only
  split
  · obtain ⟨⟨es₂, hrun₂⟩, account, drops, himp, hacc⟩ := run_doTSH env.vm tx true
      (stakeHolders env tx view) [] view (originatorHooks env tx view).2
    refine ⟨⟨_, hrun₁.trans hrun₂⟩, ?_⟩
    rw [hacc]
    exact ⟨⟨rfl, rfl, rfl, rfl⟩, himp⟩
  · exact ⟨⟨es₁, hrun₁⟩, .refl⟩

theorem emits_strongPhase (hvm : env.vm.EmitsOnly (· ∈ G))
    (h : strongPhase env tx before = .ok strong) :
    Emits (HandedOver G tx) before strong.view strong.inserted := by
  obtain ⟨⟨es, hrun⟩, hhs⟩ := run_strongHooks env tx before
  unfold strongPhase at h
  generalize strongHooks env tx before = phase at h hrun hhs
  obtain ⟨result, view₁, session⟩ := phase
  simp only [bind_eq_ok] at h
  obtain ⟨⟨_, view₂, _⟩, hst, ⟨view₃, emissions⟩, hemit, h⟩ := h
  cases h
  have hunm : Unmoved view₁ view₂ := by
    split at hst
    · exact unmoved_finalizeHookState hst
    · cases hst
      exact .refl
  exact (Emits.of_unmoved (hhs.trans hunm)).trans (emits_of_run hvm hrun hemit)

theorem emits_runCallback {invocation : Invocation} (hvm : vm.EmitsOnly (· ∈ G))
    (h : runCallback vm tx invocation view = .ok (view', ids)) :
    Emits (HandedOver G tx) view view' ids := by
  replace h := of_check h
  dsimp only at h
  split at h
  · cases h
    exact .refl
  obtain ⟨⟨_, view₁, _⟩, hst, h⟩ := bind_eq_ok.mp h
  obtain ⟨⟨_, view₂, emissionTxnid⟩, hemit, h⟩ := bind_eq_ok.mp h
  cases h
  -- the states are written only if the callback accepts, but that is no matter here
  have hunm : Unmoved view view₁ := by
    split at hst
    · exact unmoved_finalizeHookState hst
    · cases hst
      exact .refl
  exact (Emits.of_unmoved hunm).trans
    (emits_finalizeHookResult (fun etx hetx => emittedFor_of_apply hvm hetx) hemit).1

/-- The invocations of `doHookCallback`: one for each entry with the hash. -/
def callbackInvocations (tx : STTx) (callbackAccountID : AccountID) (callbackHookHash : UInt256)
    (hookDef : HookDefinition) : List HookObj → Nat → List Invocation
  | [], _ => []
  | hookObj :: hooks, hookNo =>
    if hookObj.hookHash ≠ some callbackHookHash then
      callbackInvocations tx callbackAccountID callbackHookHash hookDef hooks (hookNo + 1)
    else
      match gatherHookParameters hookDef hookObj with
      | none => []
      | some parameters =>
        { hookObj.invocation callbackHookHash hookDef callbackAccountID parameters ∅ false
            (if tx.txnType = ttEmitFailure then 1 else 0) hookNo with
          hasCallback := true
          isCallback := true } ::
        callbackInvocations tx callbackAccountID callbackHookHash hookDef hooks (hookNo + 1)

/-- The invocations of `doHookCallback`, with the fee of each. -/
def callbacks (tx : STTx) (view : View) : List Invocation × Int :=
  match tx.emitDetails with
  | none => ([], 0)
  | some emitDetails =>
    match emitDetails.emitCallback, view.hookDefinition emitDetails.emitHookHash with
    | some callbackAccountID, some hookDef =>
      match hookDef.hookCallbackFee, view.hooks callbackAccountID with
      | some fee, some hooks =>
        (callbackInvocations tx callbackAccountID emitDetails.emitHookHash hookDef hooks 0, fee)
      | _, _ => ([], 0)
    | _, _ => ([], 0)

/-- The callbacks, one after another. -/
def runCallbacks (vm : Vm) (tx : STTx) : List Invocation → View → Except String (View × List UInt256)
  | [], view => .ok (view, [])
  | invocation :: invocations, view => do
    let (view, ids) ← runCallback vm tx invocation view
    let (view, ids') ← runCallbacks vm tx invocations view
    .ok (view, ids ++ ids')

theorem callbackLoop_eq (vm : Vm) (tx : STTx) (acc : AccountID) (hash : UInt256)
    (hookDef : HookDefinition) (hooks : List HookObj) (hookNo : Nat) (view : View) :
    callbackLoop vm tx acc hash hookDef hooks hookNo view
      = runCallbacks vm tx (callbackInvocations tx acc hash hookDef hooks hookNo) view := by
  induction hooks generalizing hookNo view with
  | nil => rfl
  | cons hookObj hooks ih =>
    unfold callbackLoop callbackInvocations
    split
    · exact ih _ _
    cases gatherHookParameters hookDef hookObj with
    | none => rfl
    | some parameters =>
      simp only [ih]
      rfl

/-- **The executions of `doHookCallback`** are those that are counted. -/
theorem doHookCallback_eq (vm : Vm) (tx : STTx) (view : View) :
    doHookCallback vm tx view = runCallbacks vm tx (callbacks tx view).1 view := by
  unfold doHookCallback callbacks
  cases tx.emitDetails with
  | none => rfl
  | some emitDetails =>
    dsimp only
    cases emitDetails.emitCallback with
    | none => rfl
    | some acc =>
      cases view.hookDefinition emitDetails.emitHookHash with
      | none => rfl
      | some hookDef =>
        dsimp only
        cases hookDef.hookCallbackFee with
        | none => rfl
        | some fee =>
          cases view.hooks acc with
          | none => rfl
          | some hooks => exact callbackLoop_eq ..

/-- **What every callback does, `doHookCallback` does**, for relations that are reflexive and
transitive. -/
theorem doHookCallback_induction {R : View → View → List UInt256 → Prop}
    (hrefl : ∀ view, R view view [])
    (htra : ∀ {view view₁ view₂ ids ids'}, R view view₁ ids → R view₁ view₂ ids' →
      R view view₂ (ids ++ ids'))
    (hrun : ∀ {invocation view view' ids}, runCallback vm tx invocation view = .ok (view', ids) →
      R view view' ids) (h : doHookCallback vm tx view = .ok (view', ids)) : R view view' ids := by
  rw [doHookCallback_eq] at h
  generalize (callbacks tx view).1 = invocations at h
  induction invocations generalizing view ids with
  | nil =>
    cases h
    exact hrefl _
  | cons invocation invocations ih =>
    rw [runCallbacks] at h
    obtain ⟨⟨view₁, ids₁⟩, hone, h⟩ := bind_eq_ok.mp h
    obtain ⟨⟨view₂, ids₂⟩, hrest, h⟩ := bind_eq_ok.mp h
    cases h
    exact htra (hrun hone) (ih hrest)

/-- Every entry was there before, or was handed over and inserted. -/
structure Traces (G : Set STTx) (tx : STTx) (view view' : View) (ids : List UInt256) : Prop where
  new : ∀ id entry, view'.emittedTxn id = some entry → view.emittedTxn id = some entry ∨
    HandedOver G tx entry.tx ∧ entry.tx.transactionID = id ∧ id ∈ ids
  rules : view'.rules = view.rules

namespace Traces

variable {view₁ : View} {ids' : List UInt256}

theorem of_emits (h : Emits (HandedOver G tx) view view' ids) : Traces G tx view view' ids :=
  ⟨h.new, h.rules⟩

theorem of_same (h : SameEmissions view view') : Traces G tx view view' [] where
  new id entry hent := by
    rw [h.emittedTxn] at hent
    exact .inl hent
  rules := h.rules

theorem trans (h : Traces G tx view view₁ ids) (h' : Traces G tx view₁ view' ids') :
    Traces G tx view view' (ids ++ ids') where
  new id entry hent := by
    rcases h'.new id entry hent with hent | ⟨htx, hid, hmem⟩
    · rcases h.new id entry hent with hent | ⟨htx, hid, hmem⟩
      · exact .inl hent
      · exact .inr ⟨htx, hid, List.mem_append_left _ hmem⟩
    · exact .inr ⟨htx, hid, List.mem_append_right _ hmem⟩
  rules := h'.rules.trans h.rules

theorem of_eraseEmission
    (h : eraseEmission id view = .ok (result, view')) : Traces G tx view view' [] := by
  rcases eraseEmission_cases h with ⟨rfl, -⟩ | ⟨dir, rfl⟩
  · exact of_emits .refl
  refine ⟨fun id' entry hent => .inl ?_, rfl⟩
  by_cases hid : id' = id
  · subst hid
    rw [View.emittedTxn_setEmission] at hent
    cases hent
  · rwa [View.emittedTxn_setEmission_of_ne _ _ _ hid] at hent

end Traces

/-- The transaction is in the emission directory, on the page that its entry names. -/
def Waits (view : View) (id : UInt256) : Prop :=
  ∃ entry, view.emittedTxn id = some entry ∧ view.emittedDir.Holds entry.ownerNode id

theorem Waits.of_emits {P : STTx → Prop} (hwai : Waits view id)
    (h : Emits P view view' ids) : Waits view' id := by
  obtain ⟨entry, hent, hh⟩ := hwai
  exact ⟨entry, h.kept id entry hent, h.holds _ _ hh⟩

theorem Waits.of_same (hwai : Waits view id) (h : SameEmissions view view') : Waits view' id := by
  obtain ⟨entry, hent, hh⟩ := hwai
  refine ⟨entry, ?_, ?_⟩
  · rw [h.emittedTxn]
    exact hent
  · rw [h.emittedDir]
    exact hh

theorem Waits.emittedTxn_of_eraseEmission (hwai : Waits view id)
    (h : eraseEmission id view = .ok (result, view')) : view'.emittedTxn id = none := by
  obtain ⟨entry, hent, hh⟩ := hwai
  rcases eraseEmission_cases h with ⟨-, hnot⟩ | ⟨dir, rfl⟩
  · exact absurd hh (hnot entry hent)
  · exact View.emittedTxn_setEmission ..

theorem unmoved_consumeSeqProxy {sle sle' : AccountRoot} (hacc : view.account tx.account = some sle)
    (himp : sle'.importSequence = sle.importSequence) :
    Unmoved view (consumeSeqProxy tx sle' view).2 := by
  unfold consumeSeqProxy
  split
  · exact .refl
  split
  · exact ⟨⟨rfl, rfl, rfl, rfl⟩, View.imports_setAccount hacc himp⟩
  split
  · refine ⟨⟨rfl, rfl, rfl, rfl⟩, ?_⟩
    exact View.imports_setAccount hacc himp
  · exact .refl

theorem unmoved_payFee (tx : STTx) (view : View) : Unmoved view (payFee tx view) := by
  unfold payFee
  split
  · exact .refl
  next sle hacc =>
    exact ⟨⟨rfl, rfl, rfl, rfl⟩, View.imports_setAccount hacc rfl⟩

/-- **Applying a transaction**: the fee is taken, and then the transactor works, unless the sequence
number cannot be used. -/
theorem apply_cases (h : apply env tx view = .ok (result, view')) :
    Unmoved view view' ∨
      ∃ view₁, Unmoved view view₁ ∧ doApply env tx view₁ = .ok (result, view') := by
  unfold apply at h
  split at h
  · exact .inr ⟨view, .refl, h⟩
  rename_i sle hacc
  have hcon := unmoved_consumeSeqProxy hacc rfl
  generalize consumeSeqProxy tx sle view = consumed at h hcon
  obtain ⟨result₁, view₁⟩ := consumed
  dsimp only at h
  split at h
  · cases h
    exact .inl hcon
  · exact .inr ⟨_, hcon.trans (unmoved_payFee ..), h⟩

theorem returned_cases {x : Except Ter View} (h : returned view x = (result, view')) :
    x = .error result ∧ view' = view ∨ x = .ok view' := by
  cases x with
  | error result =>
    cases h
    exact .inl ⟨rfl, rfl⟩
  | ok view' =>
    cases h
    exact .inr rfl

theorem rootsOnly_returned {x : Except Ter View}
    (hx : ∀ {view' : View}, x = .ok view' → RootsOnly view view')
    (h : returned view x = (result, view')) : RootsOnly view view' := by
  rcases returned_cases h with ⟨-, rfl⟩ | h
  · exact .refl
  · exact hx h

theorem rootsOnly_applyXahauGenesis (genesis : Change.Genesis) (view : View) :
    RootsOnly view (Change.applyXahauGenesis genesis view).2 := by
  unfold Change.applyXahauGenesis
  split
  · exact RootsOnly.stepwise.activateXahauGenesis ..
  · exact .refl

/-- **A transactor does nothing to the emission directory**, but clear away a failed emission. -/
theorem doApply_cases (h : doApply env tx view = .ok (result, view')) :
    SameEmissions view view' ∨
      (tx.txnType = ttEmitFailure ∧ eraseEmission tx.transactionHash view = .ok (result, view')) := by
  unfold doApply at h
  split at h
  next htype =>
    exact .inr ⟨htype, h⟩
  refine .inl ?_
  split at h
  · exact (rootsOnly_returned rootsOnly_importDoApply (Except.ok.inj h)).toSameEmissions
  split at h
  · exact (rootsOnly_returned RootsOnly.stepwise.genesisMint (Except.ok.inj h)).toSameEmissions
  split at h
  · cases h
    exact (rootsOnly_applyXahauGenesis ..).toSameEmissions
  · cases h
    exact ⟨rfl, rfl, rfl, rfl⟩

theorem traces_apply (h : apply env tx view = .ok (result, view')) : Traces G tx view view' [] := by
  rcases apply_cases h with hunm | ⟨view₁, hunm, h⟩
  · exact .of_same hunm.toSameEmissions
  refine (Traces.of_same hunm.toSameEmissions).trans ?_
  rcases doApply_cases h with hs | ⟨-, hera⟩
  · exact .of_same hs
  · exact .of_eraseEmission hera

theorem sameEmissions_apply (hpse : tx.isPseudoTx = false)
    (h : apply env tx view = .ok (result, view')) : SameEmissions view view' := by
  rcases apply_cases h with hunm | ⟨view₁, hunm, h⟩
  · exact hunm.toSameEmissions
  rcases doApply_cases h with hs | ⟨htype, -⟩
  · exact hunm.toSameEmissions.trans hs
  unfold STTx.isPseudoTx at hpse
  rw [htype] at hpse
  cases hpse

theorem unmoved_reset (tx : STTx) (fee : Int) (view : View) :
    Unmoved view (reset tx fee view).2.1 := by
  unfold reset
  split
  · exact .refl
  rename_i txnAcct hacc
  have hset : Unmoved view (view.setAccount tx.account
      { txnAcct with balance := txnAcct.balance - min fee txnAcct.balance }) :=
    ⟨⟨rfl, rfl, rfl, rfl⟩, View.imports_setAccount hacc rfl⟩
  exact hset.trans (unmoved_consumeSeqProxy (Function.update_self ..) rfl)

theorem rootsOnly_removeOffers (env : Env) (result : Ter) (view : View) :
    RootsOnly view (removeOffers env result view) := by
  unfold removeOffers
  split
  · exact List.foldlRecOn _ _ .refl fun _ h _ _ => h.trans .modifyAccount
  · exact .refl

theorem reset_charged (tx : STTx) (fee : Int) (view : View) :
    reset tx (reset tx fee view).2.2 view = reset tx fee view := by
  unfold reset
  split
  · rfl
  · rw [min_assoc, min_self]

theorem checkInvariants_of_isTesSuccess {fee : Int} (h : result.isTesSuccess = true) :
    checkInvariants env tx before view fee result = result ∨
      checkInvariants env tx before view fee result = .tecINVARIANT_FAILED := by
  unfold checkInvariants
  dsimp only
  split
  · exact .inl rfl
  · refine .inr (if_neg ?_)
    rintro (rfl | rfl) <;> exact absurd h (by decide)

/-- **Checking the invariants** lets a transaction through, or undoes all but the fee. -/
theorem claim_cases {settled' : Settled}
    (h : claim env tx before result settled = (result', some settled')) :
    (settled' = settled ∧ result' ≠ .tecINVARIANT_FAILED ∧
      checkInvariants env tx before settled.view settled.fee result = result') ∨
    settled' = ⟨(reset tx settled.fee before).2.1, false, (reset tx settled.fee before).2.2⟩ := by
  unfold claim at h
  generalize hche : checkInvariants env tx before settled.view settled.fee result = result₁ at h
  dsimp only at h
  split at h
  · rcases ite_eq_iff.mp h with ⟨-, h⟩ | ⟨-, h⟩
    · cases h
      exact .inr rfl
    · cases h
  rename_i hpas
  split at h
  · cases h
    exact .inl ⟨rfl, hpas, rfl⟩
  · cases h

/-- The changes of a reset: the fee, the sequence number or ticket, and removed offers. -/
structure ResetView (env : Env) (tx : STTx) (before : View) (settled : Settled) : Prop where
  own : settled.own = false
  fee : settled.fee = (reset tx tx.fee before).2.2
  view : settled.view = (reset tx tx.fee before).2.1 ∨
    ∃ result, settled.view = removeOffers env result (reset tx tx.fee before).2.1

/-- **How a transaction is settled**: with its own changes, which pass the invariants, or a reset.
-/
theorem settle_cases (h : settle env tx before result view = (result', some settled)) :
    (settled = ⟨view, true, tx.fee⟩ ∧ result.isTesSuccess = true ∧ result' = result ∧
      checkInvariants env tx before view tx.fee result = result) ∨
    ResetView env tx before settled := by
  unfold settle at h
  generalize hsize : (if oversizeMetaDataCap < env.size view then Ter.tecOVERSIZE else result)
    = result₁ at h
  dsimp only at h
  split at h
  · cases h
  split at h
  · generalize (if (reset tx tx.fee before).1.isTesSuccess = false then
      (reset tx tx.fee before).1 else result₁) = result₂ at h
    split at h
    · cases h
    rcases claim_cases h with ⟨rfl, -⟩ | rfl
    · exact .inr ⟨rfl, rfl, .inr ⟨result₂, rfl⟩⟩
    · refine .inr ⟨rfl, ?_, .inl ?_⟩ <;> rw [reset_charged]
  next hres =>
    split at h
    · cases h
    rename_i hok
    rw [Bool.not_eq_false] at hok
    have hfits : ¬ oversizeMetaDataCap < env.size view := by
      intro hover
      rw [if_pos hover] at hsize
      exact hres (.inl hsize.symm)
    rw [if_neg hfits] at hsize
    subst hsize
    rcases claim_cases h with ⟨rfl, hpas, rfl⟩ | rfl
    · rcases checkInvariants_of_isTesSuccess hok with hche | hche
      · exact .inl ⟨rfl, hok, hche, hche⟩
      · exact absurd hche hpas
    · exact .inr ⟨rfl, rfl, .inl rfl⟩

theorem ResetView.sameEmissions (h : ResetView env tx before settled) :
    SameEmissions before settled.view := by
  rcases h.view with heq | ⟨result, heq⟩
  · rw [heq]
    exact (unmoved_reset ..).toSameEmissions
  · rw [heq]
    exact (unmoved_reset ..).toSameEmissions.trans (rootsOnly_removeOffers ..).toSameEmissions

theorem rootsOnly_rewards (env : Env) (view : View) : RootsOnly view (rewards env view) := by
  unfold rewards
  split
  · refine List.foldlRecOn _ _ .refl fun view h node _ => h.trans ?_
    unfold reward
    split
    · exact .setAccount
    · exact .refl
  · exact .refl

/-- After the application, what enters the emission directory was handed over by a hook, and the
transaction's entry is removed before its weak hooks run. -/
theorem postApplication_cases (hvm : env.vm.EmitsOnly (· ∈ G))
    (h : postApplication env tx aawMap result view = .ok (view', ids)) :
    Traces G tx view view' ids ∧
      (tx.isEmittedTxn = true → Waits view tx.transactionID →
        ∀ entry, view'.emittedTxn tx.transactionID = some entry → HandedOver G tx entry.tx ∧
          entry.tx.transactionID = tx.transactionID) := by
  unfold postApplication at h
  simp only [bind_eq_ok] at h
  obtain ⟨⟨view₁, ids₁⟩, hcal, ⟨_, view₂⟩, hrem, phase, hweak, h⟩ := h
  cases h
  have hcal : Emits (HandedOver G tx) view view₁ ids₁ :=
    doHookCallback_induction (fun _ => .refl) .trans (emits_runCallback hvm) hcal
  have hweak := emits_weakPhase hvm hweak
  unfold removeEmissionEntry at hrem
  split at hrem
  next hemi =>
    cases hrem
    refine ⟨(Traces.of_emits hcal).trans (.of_emits hweak), fun htrue => ?_⟩
    rw [htrue] at hemi
    cases hemi
  · refine ⟨(Traces.of_emits hcal).trans
      ((Traces.of_eraseEmission hrem).trans (.of_emits hweak)), ?_⟩
    intro _ hwai entry hent
    have hgone := (hwai.of_emits hcal).emittedTxn_of_eraseEmission hrem
    rcases hweak.new _ entry hent with hold | ⟨hhan, hid, -⟩
    · rw [hgone] at hold
      cases hold
    · exact ⟨hhan, hid⟩

/-- **What an applied transaction does to the emission directory**: what enters it was handed over
by a hook that ran for it, and its own waiting entry is removed. -/
structure Applied (G : Set STTx) (tx : STTx) (before : View) (outcome : TxOutcome) : Prop where
  traces : Traces G tx before outcome.view outcome.inserted
  removed : before.rules.enabled .featureHooks = true → tx.isPseudoTx = false →
    tx.isEmittedTxn = true → Waits before tx.transactionID →
      ∀ entry, outcome.view.emittedTxn tx.transactionID = some entry →
        HandedOver G tx entry.tx ∧ entry.tx.transactionID = tx.transactionID

theorem traces_settle (hstr : Emits (HandedOver G tx) before strong.view strong.inserted)
    (happ : (if strong.result.isTesSuccess then apply env tx strong.view
      else .ok (strong.result, strong.view)) = .ok (result, view))
    (h : settle env tx before result view = (result', some settled)) :
    Traces G tx before settled.view (if settled.own then strong.inserted else []) ∧
      (tx.isPseudoTx = false → ∀ id, Waits before id → Waits settled.view id) := by
  rcases settle_cases h with ⟨rfl, -⟩ | hres
  · split at happ
    · have htra : Traces G tx before view (strong.inserted ++ []) :=
        (Traces.of_emits hstr).trans (traces_apply happ)
      rw [List.append_nil] at htra
      refine ⟨htra, fun hpse id hwai => ?_⟩
      exact (hwai.of_emits hstr).of_same (sameEmissions_apply hpse happ)
    · cases happ
      exact ⟨.of_emits hstr, fun _ id hwai => hwai.of_emits hstr⟩
  · have hs := hres.sameEmissions
    rw [hres.own]
    exact ⟨.of_same hs, fun _ id hwai => hwai.of_same hs⟩

section

variable (hvm : env.vm.EmitsOnly (· ∈ G))

include hvm

/-- After a transaction is settled: later hooks, account roots and the header. -/
theorem conclude_cases (h : conclude env tx aawMap result settled = .ok (result', view', ids)) :
    Traces G tx settled.view view' ids ∧
      (settled.view.rules.enabled .featureHooks = true → tx.isEmittedTxn = true →
        Waits settled.view tx.transactionID →
        ∀ entry, view'.emittedTxn tx.transactionID = some entry → HandedOver G tx entry.tx ∧
          entry.tx.transactionID = tx.transactionID) := by
  have hrew := (rootsOnly_rewards env settled.view).toSameEmissions
  obtain ⟨⟨view₂, ids₂⟩, hpost, h⟩ := bind_eq_ok.mp h
  replace h := of_check h
  cases h
  rw [hrew.rules] at hpost
  split at hpost
  · obtain ⟨htra, hrem⟩ := postApplication_cases hvm hpost
    have hall := (Traces.of_same hrew).trans htra
    refine ⟨⟨hall.new, hall.rules⟩, fun _ hemi hwai => ?_⟩
    exact hrem hemi (hwai.of_same hrew)
  next hdis =>
    cases hpost
    have hall : Traces G tx settled.view _ [] := Traces.of_same hrew
    exact ⟨⟨hall.new, hall.rules⟩, fun hena => absurd hena hdis⟩

theorem finish_cases (hstr : Emits (HandedOver G tx) before strong.view strong.inserted)
    (h : finish env tx before strong = .ok outcome) :
    (outcome.applied = false ∧ outcome.view = before) ∨
      (outcome.applied = true ∧ Applied G tx before outcome) := by
  obtain ⟨⟨result, view⟩, happ, h⟩ := bind_eq_ok.mp h
  dsimp only at h
  split at h
  · cases h
    exact .inl ⟨rfl, rfl⟩
  rename_i result₁ settled hset
  obtain ⟨htra, hwait⟩ := traces_settle hstr happ hset
  obtain ⟨⟨result₂, view₂, ids⟩, hcon, h⟩ := bind_eq_ok.mp h
  cases h
  obtain ⟨htra₂, hrem⟩ := conclude_cases hvm hcon
  refine .inr ⟨rfl, htra.trans htra₂, fun hena hpse hemi hwai => ?_⟩
  rw [htra.rules] at hrem
  exact hrem hena hemi (hwait hpse _ hwai)

theorem operator_cases {preclaimResult : Ter}
    (h : operator env tx preclaimResult before = .ok outcome) :
    (outcome.applied = false ∧ outcome.view = before) ∨
      (outcome.applied = true ∧ Applied G tx before outcome) := by
  unfold operator at h
  split at h
  · cases h
    exact .inl ⟨rfl, rfl⟩
  obtain ⟨strong, hstr, h⟩ := bind_eq_ok.mp h
  refine finish_cases hvm ?_ h
  split at hstr
  · exact emits_strongPhase hvm hstr
  · cases hstr
    exact .refl

end

/-! ## Checks of emitted transactions -/

theorem waits_of_checkEmission (h : (checkEmission view tx).isTesSuccess = true) :
    Waits view tx.transactionID := by
  unfold checkEmission at h
  split at h
  · exact absurd h (by decide)
  rename_i sleE hent
  split at h
  · exact absurd h (by decide)
  rename_i node hnode
  split at h
  next hmem =>
    exact ⟨sleE, hent, node, hnode, hmem⟩
  · exact absurd h (by decide)

theorem isTecClaim_checkSeqProxy (view : View) (tx : STTx) :
    (checkSeqProxy view tx).isTecClaim = false := by
  unfold checkSeqProxy
  repeat' split
  all_goals rfl

theorem isTecClaim_checkPriorTxAndLastLedger (view : View) (tx : STTx) :
    (checkPriorTxAndLastLedger view tx).isTecClaim = false := by
  unfold checkPriorTxAndLastLedger checkEmission
  dsimp only
  repeat' split
  all_goals rfl

/-- The amendments under which emitted transactions are checked. -/
def EmissionChecked (rules : Rules) : Prop :=
  rules.enabled .featureHooks = true ∧ rules.enabled .fixXahauV2 = true

section

variable (hrul : EmissionChecked view.rules) (hemi : tx.isEmittedTxn = true)

include hrul hemi

theorem waits_of_checkPriorTxAndLastLedger
    (h : (checkPriorTxAndLastLedger view tx).isTesSuccess = true) :
    Waits view tx.transactionID := by
  unfold checkPriorTxAndLastLedger at h
  dsimp only at h
  rw [if_pos (⟨hemi, hrul⟩ : _ ∧ _ ∧ _)] at h
  repeat' split at h
  case isFalse => exact waits_of_checkEmission h
  all_goals exact absurd h (by decide)

theorem waits_of_invokePreclaim (hacc : tx.account ≠ .zero)
    (h : (invokePreclaim env view tx).isTesSuccess = true ∨
      (invokePreclaim env view tx).isTecClaim = true) : Waits view tx.transactionID := by
  unfold invokePreclaim at h
  rw [if_neg hacc] at h
  split at h
  next hfail =>
    rw [hfail, isTecClaim_checkSeqProxy] at h
    simp at h
  split at h
  next hfail =>
    rw [hfail, isTecClaim_checkPriorTxAndLastLedger] at h
    simp at h
  next hpass =>
    exact waits_of_checkPriorTxAndLastLedger hrul hemi (Bool.not_eq_false _ ▸ hpass)

end

theorem account_ne_zero_of_preflight {rules : Rules} (hpse : tx.isPseudoTx = false)
    (h : (preflight env rules tx).isTesSuccess = true) : tx.account ≠ .zero := by
  rintro hacc
  unfold preflight at h
  rw [hpse, if_neg Bool.false_ne_true, if_pos hacc] at h
  exact absurd h (by decide)

/-- A transaction that hooks have emitted, and no pseudo-transaction. -/
def OrdinaryEmitted (tx : STTx) : Prop := tx.isEmittedTxn = true ∧ tx.isPseudoTx = false

/-- **`applyTransaction`** refuses the transaction and the ledger stays, or applies it, and then an
ordinary emitted one was waiting. -/
theorem applyTransaction_cases (hvm : env.vm.EmitsOnly (· ∈ G))
    (h : applyTransaction env tx before = .ok outcome) :
    (outcome.applied = false ∧ outcome.view = before) ∨
      (outcome.applied = true ∧ Applied G tx before outcome ∧
        (EmissionChecked before.rules → OrdinaryEmitted tx → Waits before tx.transactionID)) := by
  unfold applyTransaction at h
  dsimp only at h
  split at h
  · cases h
    exact .inl ⟨rfl, rfl⟩
  rename_i hpre
  rw [Bool.not_eq_false] at hpre
  split at h
  next hprec =>
    rcases operator_cases hvm h with href | ⟨happl, happ⟩
    · exact .inl href
    refine .inr ⟨happl, happ, fun hrul htx => ?_⟩
    exact waits_of_invokePreclaim hrul htx.1
      (account_ne_zero_of_preflight htx.2 hpre) (hprec.imp_right And.left)
  · cases h
    exact .inl ⟨rfl, rfl⟩

end

end Xahau.Transactor
