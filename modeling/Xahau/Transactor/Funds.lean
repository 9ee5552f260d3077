import Xahau.Data.Total
import Xahau.Transactor.Emitted

/-! # The native funds of a ledger

A ledger holds the balances of accounts, the escrows and what the payment channels have not paid
yet. The header has a total of its own. Hooks do not change either, but for the fee of a hook that
is run weakly, which is taken from both. -/

namespace Xahau.Transactor

open Hook Checked Total

variable {ids : List UInt256} {tx : STTx} {result : Ter} {vm : Vm}

/-- The drops that are held in a ledger. -/
noncomputable def holdings (view : View) : Int :=
  total (fun acc => rootDrops (view.account acc)) +
  total (fun key => escrowDrops (view.escrow key)) +
  total (fun key => payChanDrops (view.payChan key))

/-- What the total in the header is more than what is held. -/
noncomputable def surplus (view : View) : Int := view.drops - holdings view

/-- Native funds, import sequences and installed hooks stay. -/
structure SameFunds (view view' : View) : Prop where
  held : view'.held = view.held
  escrow : view'.escrow = view.escrow
  payChan : view'.payChan = view.payChan
  drops : view'.drops = view.drops
  rules : view'.rules = view.rules
  isOpen : view'.isOpen = view.isOpen
  registry : view'.toHookRegistry = view.toHookRegistry

/-- The header follows what is held, and the import sequences stay. -/
structure Conserves (view view' : View) : Prop where
  surplus : surplus view' = surplus view
  imports : view'.imports = view.imports
  rules : view'.rules = view.rules
  isOpen : view'.isOpen = view.isOpen

section

variable {view view₁ view' : View} {acc : AccountID} {sle sle' : AccountRoot}

section

variable (view : View) (acc : AccountID) (sle : AccountRoot)

@[simp] theorem rootDrops_some : rootDrops (some sle) = sle.balance := rfl

@[simp] theorem rootDrops_none : rootDrops none = 0 := rfl

theorem rootDrops_eq (sle : Option AccountRoot) :
    rootDrops sle = ((sle.map AccountRoot.held).map Prod.snd).getD 0 := by
  cases sle <;> rfl

theorem holdings_setAccount :
    holdings (view.setAccount acc sle)
      = holdings view + (sle.balance - rootDrops (view.account acc)) := by
  have htot := total_update view.account rootDrops acc (some sle)
  unfold holdings
  rw [show (view.setAccount acc sle).account = Function.update view.account acc (some sle) from rfl,
    htot, rootDrops_some]
  show _ + total (fun key => escrowDrops (view.escrow key))
    + total (fun key => payChanDrops (view.payChan key)) = _
  ring

theorem surplus_setAccount :
    surplus (view.setAccount acc sle) = surplus view - (sle.balance - rootDrops (view.account acc)) := by
  unfold surplus
  rw [holdings_setAccount]
  show view.drops - _ = _
  ring

theorem surplus_drops (drops : Int) :
    surplus { view with drops } = surplus view + (drops - view.drops) := by
  show drops - holdings view = view.drops - holdings view + _
  ring

end

namespace SameFunds

theorem refl : SameFunds view view := ⟨rfl, rfl, rfl, rfl, rfl, rfl, rfl⟩

theorem trans (h : SameFunds view view₁) (h' : SameFunds view₁ view') : SameFunds view view' :=
  ⟨h'.held.trans h.held, h'.escrow.trans h.escrow, h'.payChan.trans h.payChan,
    h'.drops.trans h.drops, h'.rules.trans h.rules, h'.isOpen.trans h.isOpen,
    h'.registry.trans h.registry⟩

theorem setAccount (hacc : view.account acc = some sle) (hheld : sle'.held = sle.held) :
    SameFunds view (view.setAccount acc sle') :=
  ⟨View.map_setAccount hacc hheld, rfl, rfl, rfl, rfl, rfl, rfl⟩

theorem modifyAccount {f : AccountRoot → AccountRoot} (hf : ∀ sle, (f sle).held = sle.held) :
    SameFunds view (View.modifyAccount f view acc) := by
  unfold View.modifyAccount
  split
  · exact .refl
  next sle hacc =>
    exact .setAccount hacc (hf sle)

theorem rootDrops (h : SameFunds view view') (acc : AccountID) :
    rootDrops (view'.account acc) = rootDrops (view.account acc) := by
  have hheld := congrFun h.held acc
  unfold View.held heldOf at hheld
  rw [rootDrops_eq, rootDrops_eq, hheld]

theorem account_eq_none (h : SameFunds view view') :
    view'.account acc = none ↔ view.account acc = none := by
  have hheld := congrFun h.held acc
  unfold View.held heldOf at hheld
  rw [← Option.map_eq_none_iff (f := AccountRoot.held), hheld, Option.map_eq_none_iff]

theorem conserves (h : SameFunds view view') : Conserves view view' := by
  refine ⟨?_, importsOf_of_heldOf h.held, h.rules, h.isOpen⟩
  unfold surplus holdings
  rw [h.drops, h.escrow, h.payChan]
  simp only [h.rootDrops]

end SameFunds

namespace Conserves

theorem refl : Conserves view view := ⟨rfl, rfl, rfl, rfl⟩

theorem trans (h : Conserves view view₁) (h' : Conserves view₁ view') : Conserves view view' :=
  ⟨h'.surplus.trans h.surplus, h'.imports.trans h.imports, h'.rules.trans h.rules,
    h'.isOpen.trans h.isOpen⟩

theorem collect {fee : Int} (hacc : view.account acc = some sle) :
    Conserves view (view.collect acc sle fee) := by
  refine ⟨?_, View.imports_setAccount hacc rfl, rfl, rfl⟩
  unfold View.collect
  rw [surplus_drops, surplus_setAccount, hacc, rootDrops_some]
  show _ - (sle.balance - fee - sle.balance) + (view.drops - fee - view.drops) = _
  ring

end Conserves

/-! ## Hooks -/

/-- What hooks write: states, what account roots say about them, and emissions. -/
def HookWrites (view view' : View) : Prop :=
  ∃ account hookState hookStateDir emittedTxn emittedDir, keptOf account = keptOf view.account ∧
    view' = { view with account, hookState, hookStateDir, emittedTxn, emittedDir }

namespace HookWrites

theorem refl : HookWrites view view := ⟨_, _, _, _, _, rfl, rfl⟩

theorem trans (h : HookWrites view view₁) (h' : HookWrites view₁ view') : HookWrites view view' := by
  obtain ⟨_, _, _, _, _, hkept, rfl⟩ := h
  obtain ⟨_, _, _, _, _, hkept', rfl⟩ := h'
  exact ⟨_, _, _, _, _, hkept'.trans hkept, rfl⟩

theorem sameFunds (h : HookWrites view view') : SameFunds view view' := by
  obtain ⟨_, _, _, _, _, hkept, rfl⟩ := h
  exact ⟨heldOf_of_keptOf hkept, rfl, rfl, rfl, rfl, rfl, rfl⟩

end HookWrites

theorem hookWrites_finalizeHookState {stateMap : HookStateMap}
    {written : List SetRequest} (h : finalizeHookState stateMap view = .ok (result, view', written)) :
    HookWrites view view' := by
  obtain ⟨account, hookState, hookStateDir, hkept, rfl⟩ := frame_of_writeEntries h
  exact ⟨account, hookState, hookStateDir, _, _, hkept, rfl⟩

variable {doEmit : Bool} {env : Env} {aawMap : List (AccountID × List UInt256)}
  {emissionTxnid : List (UInt256 × UInt256)}

theorem hookWrites_insertEmissions {txs : List STTx}
    (h : insertEmissions txs view = .ok (result, view', emissionTxnid)) : HookWrites view view' := by
  induction txs generalizing view emissionTxnid with
  | nil =>
    cases h
    exact .refl
  | cons tx txs ih =>
    rcases insertEmissions_cons h with ⟨-, hrest⟩ | ⟨_, page, dir, _, -, -, -, hrest, -⟩ |
      ⟨-, rfl, -⟩
    · exact ih hrest
    · refine .trans ?_ (ih hrest)
      exact ⟨_, _, _, _, _, rfl, rfl⟩
    · exact .refl

theorem hookWrites_finalizeHookResult {hookResult : HookResult}
    (h : finalizeHookResult hookResult view doEmit = .ok (result, view', emissionTxnid)) :
    HookWrites view view' := by
  unfold finalizeHookResult at h
  split at h
  · cases h
    exact .refl
  · exact hookWrites_insertEmissions h

theorem hookWrites_finalizeHookResults {hookResults : List HookResult}
    {emissions : List (Ter × List (UInt256 × UInt256))}
    (h : finalizeHookResults hookResults view doEmit = .ok (view', emissions)) :
    HookWrites view view' := by
  induction hookResults generalizing view emissions with
  | nil =>
    cases h
    exact .refl
  | cons hookResult hookResults ih =>
    simp only [finalizeHookResults, bind_eq_ok] at h
    obtain ⟨⟨result, view₁, emissionTxnid⟩, hone, ⟨view₂, emissions₂⟩, hrest, h⟩ := h
    cases h
    exact (hookWrites_finalizeHookResult hone).trans (ih hrest)

theorem hookWrites_eraseEmission {id : UInt256}
    (h : eraseEmission id view = .ok (result, view')) : HookWrites view view' := by
  rcases eraseEmission_cases h with ⟨rfl, -⟩ | ⟨dir, rfl⟩
  · exact .refl
  · exact ⟨_, _, _, _, _, rfl, rfl⟩

theorem hookWrites_removeEmissionEntry
    (h : removeEmissionEntry tx view = .ok (result, view')) : HookWrites view view' := by
  unfold removeEmissionEntry at h
  split at h
  · cases h
    exact .refl
  · exact hookWrites_eraseEmission h

section

variable (vm : Vm) (tx : STTx) (strong : Bool) (tsh : List (AccountID × Bool))
  (alreadyProcessed : List AccountID) (view : View) (session : Session)

theorem view_doTSH_strong : (doTSH vm tx true tsh alreadyProcessed view session).2.1 = view := by
  refine doTSH_induction vm tx (R := fun s t => t.1 = s.1) (fun _ => rfl)
    (fun h h' => h'.trans h) ?_ tsh alreadyProcessed view session
  intro view view₁ session tshAccountID hooks hchg
  obtain ⟨-, tshAcc, -, ⟨-, hview⟩ | ⟨hweak, -⟩⟩ := chargeTSH_cases tx hchg
  · exact hview
  · cases hweak

theorem conserves_doTSH :
    Conserves view (doTSH vm tx strong tsh alreadyProcessed view session).2.1 := by
  refine doTSH_induction vm tx (R := fun s t => Conserves s.1 t.1) (fun _ => .refl)
    .trans ?_ tsh alreadyProcessed view session
  intro view view₁ session tshAccountID hooks hchg
  obtain ⟨-, tshAcc, hacc, ⟨-, rfl⟩ | ⟨-, rfl⟩⟩ := chargeTSH_cases tx hchg
  · exact .refl
  split
  · exact .collect hacc
  · exact .refl

end

theorem conserves_weakPhase {tsh : List (AccountID × Bool)} {phase : WeakPhase}
    (h : weakPhase vm tx tsh aawMap result view = .ok phase) : Conserves view phase.view := by
  have hpaid := conserves_doTSH vm tx false tsh [] view .start
  unfold weakPhase at h
  generalize doTSH vm tx false tsh [] view .start = weak at h hpaid
  obtain ⟨_, view₁, session⟩ := weak
  simp only [bind_eq_ok] at h
  obtain ⟨⟨stateResult, view₂, written⟩, hst, ⟨view₃, emissions⟩, hemit, h⟩ := h
  cases h
  exact hpaid.trans ((hookWrites_finalizeHookState hst).trans
    (hookWrites_finalizeHookResults hemit)).sameFunds.conserves

theorem hookWrites_runCallback {invocation : Invocation}
    (h : runCallback vm tx invocation view = .ok (view', ids)) : HookWrites view view' := by
  replace h := of_check h
  dsimp only at h
  split at h
  · cases h
    exact .refl
  obtain ⟨⟨_, view₁, _⟩, hst, h⟩ := bind_eq_ok.mp h
  obtain ⟨⟨_, view₂, emissionTxnid⟩, hemit, h⟩ := bind_eq_ok.mp h
  cases h
  refine .trans ?_ (hookWrites_finalizeHookResult hemit)
  split at hst
  · exact hookWrites_finalizeHookState hst
  · cases hst
    exact .refl

theorem hookWrites_doHookCallback
    (h : doHookCallback vm tx view = .ok (view', ids)) : HookWrites view view' :=
  doHookCallback_induction (R := fun view view' _ => HookWrites view view') (fun _ => .refl) .trans
    hookWrites_runCallback h

theorem held_accrue (rules : Rules) (lgrCur : Nat) (drops : Int) (sle : AccountRoot) :
    (accrue rules lgrCur drops sle).held = sle.held := by
  unfold accrue
  split
  · dsimp only
    repeat' split
    all_goals rfl
  · rfl

theorem sameFunds_rewards (env : Env) (view : View) : SameFunds view (rewards env view) := by
  unfold rewards
  split
  · refine List.foldlRecOn _ _ .refl fun view h node _ => h.trans ?_
    unfold reward
    split
    next sle drops hacc _ =>
      exact .setAccount hacc (held_accrue ..)
    · exact .refl
  · exact .refl

theorem conserves_postApplication
    (h : postApplication env tx aawMap result view = .ok (view', ids)) : Conserves view view' := by
  unfold postApplication at h
  simp only [bind_eq_ok] at h
  obtain ⟨⟨view₁, ids₁⟩, hcal, ⟨_, view₂⟩, hrem, phase, hweak, h⟩ := h
  cases h
  exact ((hookWrites_doHookCallback hcal).trans
    (hookWrites_removeEmissionEntry hrem)).sameFunds.conserves.trans (conserves_weakPhase hweak)

theorem hookWrites_strongPhase {strong : StrongPhase}
    (h : strongPhase env tx view = .ok strong) : HookWrites view strong.view := by
  have hhs : (strongHooks env tx view).2.1 = view := by
    unfold strongHooks
    dsimp only
    split
    · exact view_doTSH_strong ..
    · rfl
  unfold strongPhase at h
  generalize strongHooks env tx view = phase at h hhs
  obtain ⟨result, view₁, session⟩ := phase
  simp only [bind_eq_ok] at h
  obtain ⟨⟨_, view₂, _⟩, hst, ⟨view₃, emissions⟩, hemit, h⟩ := h
  cases h
  cases hhs
  refine .trans ?_ (hookWrites_finalizeHookResults hemit)
  split at hst
  · exact hookWrites_finalizeHookState hst
  · cases hst
    exact .refl

end

end Xahau.Transactor
