import Xahau.Hook.BaseFee
import Xahau.Transactor.Supply

/-! # What hook executions cost, and who pays (`Transactor.cpp`)

The definition of a hook has a fee for one execution. The transaction pays for the hooks of its
account and of the strong stakeholders, and an emitted one for the callback, as part of its base
fee, computed from the ledger before. Weak stakeholders pay for their own hooks. Nobody pays for a
hook that is run again as weak, and a callback is paid for once, however often the hook is
installed. -/

namespace Xahau.Transactor

open Checked Hook List

/-! ## The costs of executions -/

/-- The fee of the definition that an execution has run. -/
def executionFee (registry : HookRegistry) (execution : Execution) : Int :=
  ((registry.hookDefinition execution.result.hookHash).map HookDefinition.fee).getD 0

/-- The fees of executions. -/
def cost (registry : HookRegistry) (executions : List Execution) : Int :=
  (executions.map (executionFee registry)).sum

section

variable (env : Env) (tx : STTx) (preclaimResult : Ter) (before : View)

def callbackCost (view : View) : Int := (callbacks tx view).1.length * (callbacks tx view).2

/-- What the executions of a transaction cost, and what is collected for them. -/
structure HookCosts where
  /-- The hooks of the account, and of the strong stakeholders. -/
  strong : Int := 0
  callback : Int := 0
  weak : Int := 0
  /-- The hooks that were run again as weak. -/
  again : Int := 0
  /-- The fees that `doTSH` has deducted from the weak stakeholders. -/
  collected : Int := 0

/-- All executions together. -/
def HookCosts.total (costs : HookCosts) : Int :=
  costs.strong + costs.callback + costs.weak + costs.again

/-- The costs of what follows when it is settled that a transaction is applied. -/
def postCosts (aawMap : List (AccountID × List UInt256)) (view : View) :
    Except String HookCosts := do
  let callback := callbackCost tx view
  let (view, _) ← doHookCallback env.vm tx view
  let (_, view) ← removeEmissionEntry tx view
  let tsh := stakeHolders env tx view ++ env.additionalWeakTSH.map fun acc => (acc, false)
  let (_, view', session) := doTSH env.vm tx false (if tx.isPseudoTx then [] else tsh) [] view .start
  let session' := aawMap.foldl
    (fun session aaw => doAgainAsWeak env.vm view' tx aaw.1 aaw.2 session) session
  .ok {
    callback
    weak := cost view.toHookRegistry session.executions
    again := cost view.toHookRegistry (session'.executions.drop session.executions.length)
    collected := view.drops - view'.drops }

/-- The costs of a transaction, from where it is applied. -/
def finishCosts (strong : StrongPhase) :
    Except String HookCosts := do
  let (result, view) ←
    (if strong.result.isTesSuccess then apply env tx strong.view
    else .ok (strong.result, strong.view) : Except String (Ter × View))
  match settle env tx before result view with
  | (_, none) => .ok {}
  | (_, some settled) =>
    let view := rewards env settled.view
    if view.rules.enabled .featureHooks then postCosts env tx strong.aawMap view else .ok {}

/-- The hooks before the transaction is applied. -/
def strongCost : Int :=
  if before.rules.enabled .featureHooks = true ∧ preclaimResult.isTesSuccess = true then
    cost before.toHookRegistry (strongHooks env tx before).2.2.executions
  else 0

/-- The costs of the executions of `operator()`. -/
def operatorCosts :
    Except String HookCosts := do
  if env.flags.preflightEmit = true ∨ (tx.isEmittedTxn = true ∧ env.routerEmitted = false) then
    .ok {}
  else
    let strong ←
      (if before.rules.enabled .featureHooks = true ∧ preclaimResult.isTesSuccess = true then
        strongPhase env tx before
      else .ok ⟨preclaimResult, before, [], []⟩ : Except String StrongPhase)
    let costs ← finishCosts env tx before strong
    .ok { costs with strong := strongCost env tx preclaimResult before }

end

/-! ## Chains -/

/-- No definition has a negative fee. -/
def NonnegFees (registry : HookRegistry) : Prop :=
  ∀ hash hookDef, registry.hookDefinition hash = some hookDef →
    0 ≤ hookDef.fee ∧ ∀ fee ∈ hookDef.hookCallbackFee, 0 ≤ fee

/-- The fee for the entry of `sfHooks`, if its hook fires. -/
def firedFee (view : View) (tx : STTx) (strong : Bool) (hookObj : HookObj) : Int :=
  match hookObj.fires view tx strong [] with
  | none => 0
  | some (_, hookDef) => hookDef.fee

section

variable {env : Env} {vm : Vm} {tx : STTx} {before view view' : View} {acc : AccountID}
  {strong : Bool} {session : Session} {hookDef : HookDefinition} {P : HookRegistry → Prop}
  {settled : Settled} {phase : StrongPhase} {result result' : Ter}

theorem definition_of_fires {hookObj : HookObj} {hookSkips : List UInt256} {hookHash : UInt256}
    (h : hookObj.fires view tx strong hookSkips = some (hookHash, hookDef)) :
    view.hookDefinition hookHash = some hookDef ∧
      hookObj.fires view tx strong [] = some (hookHash, hookDef) := by
  unfold HookObj.fires at h ⊢
  simp only [Option.bind_eq_bind, Option.bind_eq_some_iff, Option.guard_eq_some', Option.pure_def,
    Option.some.injEq] at h ⊢
  obtain ⟨hash, hhash, -, -, definition, hdefi, -, hcan, -, hcol, heq⟩ := h
  cases heq
  exact ⟨hdefi, hookHash, hhash, (), not_mem_nil, hookDef, hdefi, (), hcan, (), hcol, rfl⟩

section

variable (h : NonnegFees view.toHookRegistry)

include h

section

variable (tx : STTx) (strong : Bool) (hooks : List HookObj)

theorem firedFee_nonneg (hookObj : HookObj) : 0 ≤ firedFee view tx strong hookObj := by
  unfold firedFee
  split
  · exact le_rfl
  next hookHash hookDef hfir =>
    exact (h _ _ (definition_of_fires hfir).1).1

theorem sum_firedFee_nonneg : 0 ≤ (hooks.map (firedFee view tx strong)).sum := by
  refine sum_nonneg fun fee hfee => ?_
  obtain ⟨hookObj, -, rfl⟩ := mem_map.mp hfee
  exact firedFee_nonneg h tx strong hookObj

/-- **The fee of a chain** is the sum over the hooks that fire, without overflow. -/
theorem calculateHookChainFee_eq (collectCallsOnly : Bool) :
    calculateHookChainFee view tx hooks collectCallsOnly
      = (hooks.map (firedFee view tx (!collectCallsOnly))).sum := by
  unfold calculateHookChainFee
  -- the sum so far is the accumulator of the loop
  rw [← zero_add (List.sum _)]
  generalize (0 : Int) = fee
  induction hooks generalizing fee with
  | nil => exact (add_zero fee).symm
  | cons hookObj hooks ih =>
    have hnn := firedFee_nonneg h tx (!collectCallsOnly) hookObj
    rw [foldl_cons, ih, map_cons, sum_cons, ← add_assoc]
    congr 1
    unfold firedFee at hnn ⊢
    cases hfir : hookObj.fires view tx (!collectCallsOnly) [] with
    | none => exact (add_zero fee).symm
    | some fired =>
      rw [hfir] at hnn
      exact if_neg (by linarith)

theorem chainFeeOf_nonneg (acc : AccountID) : 0 ≤ chainFeeOf view tx acc := by
  unfold chainFeeOf
  split
  · exact le_rfl
  · rw [calculateHookChainFee_eq h]
    exact sum_firedFee_nonneg h ..

theorem stakeHoldersFee_nonneg (tsh : List (AccountID × Bool)) :
    0 ≤ stakeHoldersFee view tx tsh := by
  refine sum_nonneg fun fee hfee => ?_
  obtain ⟨p, -, rfl⟩ := mem_map.mp hfee
  split
  · exact chainFeeOf_nonneg h tx p.1
  · exact le_rfl

end

end

theorem cost_append (registry : HookRegistry) (l l' : List Execution) :
    cost registry (l ++ l') = cost registry l + cost registry l' := by
  unfold cost
  rw [map_append, sum_append]

theorem cost_execute {registry : HookRegistry} (invocation : Invocation)
    (h : registry.hookDefinition invocation.hook.hookHash = some hookDef) (vm : Vm) (tx : STTx)
    (view : View) (session : Session) :
    cost registry (session.execute vm tx invocation view).2.executions
      = cost registry session.executions + hookDef.fee := by
  have hone : cost registry [(session.execute vm tx invocation view).1] = hookDef.fee := by
    show ((registry.hookDefinition invocation.hook.hookHash).map HookDefinition.fee).getD 0 + 0 = _
    rw [h]
    exact add_zero _
  rw [← hone, ← cost_append]
  rfl

/-- **A chain costs at most its fee.** -/
theorem cost_executeHookChain (h : NonnegFees view.toHookRegistry) (vm : Vm) (tx : STTx)
    (acc : AccountID) (strong : Bool) (hooks : List HookObj) (hookNo : Nat)
    (hookSkips : List UInt256) (overrides : ParamOverrides) (session : Session) :
    cost view.toHookRegistry
        (executeHookChain vm view tx acc strong hooks hookNo hookSkips overrides session).2.executions
      ≤ cost view.toHookRegistry session.executions
        + (hooks.map (firedFee view tx strong)).sum := by
  induction hooks generalizing hookNo hookSkips overrides session with
  | nil => exact (add_zero _).ge
  | cons hookObj hooks ih =>
    have hrest := sum_firedFee_nonneg h tx strong hooks
    have hnn := firedFee_nonneg h tx strong hookObj
    rw [map_cons, sum_cons]
    unfold executeHookChain
    split
    · refine (ih _ _ _ _).trans ?_
      linarith
    rename_i hookHash hookDef hfir
    obtain ⟨hdefi, hfir⟩ := definition_of_fires hfir
    have hfee : firedFee view tx strong hookObj = hookDef.fee := by
      unfold firedFee
      rw [hfir]
    split
    · linarith
    rename_i parameters _
    have hone := fun wasmParam => cost_execute (hookObj.invocation hookHash hookDef acc
      parameters overrides strong wasmParam hookNo) hdefi vm tx view session
    dsimp only
    generalize (if strong = true then 0 else 1) = wasmParam
    split
    · linarith [hone wasmParam]
    · refine (ih _ _ _ _).trans ?_
      linarith [hone wasmParam]

/-! ## Stakeholders -/

section

variable (h : NonnegFees view.toHookRegistry)

include h

section

variable (vm : Vm) (tx : STTx) (tsh : List (AccountID × Bool)) (alreadyProcessed : List AccountID)
  (session : Session)

/-- **The strong hooks of the stakeholders cost at most their fees.** -/
theorem cost_doTSH_strong :
    cost view.toHookRegistry (doTSH vm tx true tsh alreadyProcessed view session).2.2.executions
      ≤ cost view.toHookRegistry session.executions + stakeHoldersFee view tx tsh := by
  induction tsh generalizing alreadyProcessed session with
  | nil => exact (add_zero _).ge
  | cons p tsh ih =>
    obtain ⟨tshAccountID, canRollback⟩ := p
    have hcons : stakeHoldersFee view tx ((tshAccountID, canRollback) :: tsh)
        = (if canRollback then chainFeeOf view tx tshAccountID else 0)
          + stakeHoldersFee view tx tsh := sum_cons
    have hfee : 0 ≤ if canRollback then chainFeeOf view tx tshAccountID else 0 := by
      split
      · exact chainFeeOf_nonneg h tx tshAccountID
      · exact le_rfl
    have hrest := stakeHoldersFee_nonneg h tx tsh
    rw [hcons]
    generalize hpart : (if canRollback then chainFeeOf view tx tshAccountID else 0) = part at hfee
    -- a stakeholder whose hooks are not run adds to the fee only
    have hskip : ∀ alreadyProcessed,
        cost view.toHookRegistry (doTSH vm tx true tsh alreadyProcessed view session).2.2.executions
          ≤ cost view.toHookRegistry session.executions
            + (part + stakeHoldersFee view tx tsh) := by
      intro alreadyProcessed
      linarith [ih alreadyProcessed session]
    unfold doTSH
    split
    · exact hskip _
    split
    · exact hskip _
    split
    · exact hskip _
    rename_i hstr _ hooks view₁ hchg
    rw [ne_eq, not_not] at hstr
    obtain ⟨hhs, tshAcc, -, ⟨-, rfl⟩ | ⟨hweak, -⟩⟩ := chargeTSH_cases tx hchg
    · have hcha := cost_executeHookChain h vm tx tshAccountID true hooks 0 [] ∅ session
      have hpaid : part = (hooks.map (firedFee view₁ tx true)).sum := by
        rw [← hpart, if_pos hstr]
        unfold chainFeeOf
        rw [hhs]
        exact calculateHookChainFee_eq h tx hooks false
      rw [hpaid]
      dsimp only
      split
      · linarith
      · refine (ih _ _).trans ?_
        linarith
    · rw [hweak] at hstr
      cases hstr

/-- **The weak hooks of the stakeholders cost at most what is collected for them.** -/
theorem cost_doTSH_weak :
    cost view.toHookRegistry (doTSH vm tx false tsh alreadyProcessed view session).2.2.executions
      ≤ cost view.toHookRegistry session.executions
        + (view.drops - (doTSH vm tx false tsh alreadyProcessed view session).2.1.drops) := by
  induction tsh generalizing alreadyProcessed view session with
  | nil =>
    show cost view.toHookRegistry session.executions ≤ _ + (view.drops - view.drops)
    linarith
  | cons p tsh ih =>
    obtain ⟨tshAccountID, canRollback⟩ := p
    unfold doTSH
    split
    · exact ih h _ _
    split
    · exact ih h _ _
    split
    · exact ih h _ _
    rename_i hooks view₁ hchg
    obtain ⟨-, tshAcc, -, ⟨hstr, -⟩ | ⟨hweak, hview⟩⟩ := chargeTSH_cases tx hchg
    next hs _ =>
      rw [ne_eq, not_not, hstr] at hs
      cases hs
    have hfee : calculateHookChainFee view tx hooks true
        = (hooks.map (firedFee view tx false)).sum := calculateHookChainFee_eq h tx hooks true
    have hnn := sum_firedFee_nonneg h tx false hooks
    -- the fee is deducted, and the hooks stay
    have hdro : view₁.drops = view.drops - (hooks.map (firedFee view tx false)).sum := by
      rw [hview, hfee]
      split
      · rfl
      · linarith
    have hreg : view₁.toHookRegistry = view.toHookRegistry := by
      rw [hview]
      split <;> rfl
    have hfir : firedFee view₁ tx false = firedFee view tx false := by
      rw [hview]
      split <;> rfl
    rw [← hreg] at h ⊢
    have hcha := cost_executeHookChain h vm tx tshAccountID false hooks 0 [] ∅ session
    rw [hfir] at hcha
    dsimp only
    split
    next hroll =>
      rw [hweak] at hroll
      cases hroll.1
    · refine (ih h _ _).trans ?_
      linarith

end

theorem cost_originatorHooks (env : Env) (tx : STTx) :
    cost view.toHookRegistry (originatorHooks env tx view).2.executions
      ≤ if tx.isEmittedTxn then 0 else chainFeeOf view tx tx.account := by
  have hnn := chainFeeOf_nonneg h tx tx.account
  unfold originatorHooks
  split
  next hooks hhs =>
    split
    · exact le_rfl
    have hcha := cost_executeHookChain h env.vm tx tx.account true hooks 0 [] ∅ .start
    unfold chainFeeOf
    rw [hhs]
    dsimp only
    rw [calculateHookChainFee_eq h]
    exact hcha.trans (zero_add _).le
  · split
    · exact le_rfl
    · exact hnn

/-- **The strong hooks cost at most their fees.** -/
theorem cost_strongHooks (env : Env) (tx : STTx) :
    cost view.toHookRegistry (strongHooks env tx view).2.2.executions
      ≤ (if tx.isEmittedTxn then 0 else chainFeeOf view tx tx.account)
        + stakeHoldersFee view tx (stakeHolders env tx view) := by
  have hori := cost_originatorHooks h env tx
  have hrest := stakeHoldersFee_nonneg h tx (stakeHolders env tx view)
  unfold strongHooks
  dsimp only
  split
  · refine (cost_doTSH_strong h ..).trans ?_
    linarith
  · linarith

end

/-! ## Running again -/

theorem againMap_eq_nil {hookResults : List HookResult}
    (h : ∀ hookResult ∈ hookResults, hookResult.executeAgainAsWeak = false) :
    againMap hookResults = [] := by
  induction hookResults with
  | nil =>
    unfold againMap sortedEntries
    simp
  | cons hookResult hookResults ih =>
    obtain ⟨hfirst, hrest⟩ := forall_mem_cons.mp h
    rw [← ih hrest]
    unfold againMap
    rw [foldl_cons, hfirst]
    rfl

theorem executeAgainAsWeak_of_run {es : List (Invocation × View)}
    (hvm : ∀ invocation view stateMap, (vm invocation view stateMap).executeAgainAsWeak = false)
    (h : Run (Session.Step vm tx) .start es session) :
    ∀ hookResult ∈ session.results, hookResult.executeAgainAsWeak = false := by
  have hexec : ∀ execution ∈ session.executions, execution.result.executeAgainAsWeak = false := by
    apply h.invariant fun _ session =>
      ∀ execution ∈ session.executions, execution.result.executeAgainAsWeak = false
    · intro execution hexe
      exact nomatch hexe
    intro es session e session' hkept hstep execution hexe
    rw [show session' = _ from hstep] at hexe
    rcases mem_append.mp hexe with hexe | hexe
    · exact hkept execution hexe
    rw [mem_singleton] at hexe
    subst hexe
    exact hvm ..
  intro hookResult hmem
  obtain ⟨execution, hexe, heq⟩ := mem_filterMap.mp hmem
  split at heq
  · cases heq
  · cases heq
    exact hexec execution hexe

theorem aawMap_eq (h : strongPhase env tx view = .ok phase) :
    phase.aawMap = againMap (strongHooks env tx view).2.2.results := by
  unfold strongPhase at h
  generalize strongHooks env tx view = hooks at h
  obtain ⟨result, view₁, session⟩ := hooks
  simp only [bind_eq_ok] at h
  obtain ⟨⟨_, view₂, _⟩, -, ⟨view₃, emissions⟩, -, h⟩ := h
  cases h
  rfl

theorem aawMap_of_strongPhase
    (hvm : ∀ invocation view stateMap, (env.vm invocation view stateMap).executeAgainAsWeak = false)
    (h : strongPhase env tx view = .ok phase) : phase.aawMap = [] := by
  obtain ⟨⟨es, hrun⟩, -⟩ := run_strongHooks env tx view
  rw [aawMap_eq h]
  exact againMap_eq_nil (executeAgainAsWeak_of_run hvm hrun)

/-! ## Callbacks -/

theorem length_callbackInvocations_le (tx : STTx) (acc : AccountID) (hash : UInt256)
    (hookDef : HookDefinition) (hooks : List HookObj) (hookNo : Nat) :
    (callbackInvocations tx acc hash hookDef hooks hookNo).length
      ≤ hooks.countP fun hookObj => hookObj.hookHash = some hash := by
  induction hooks generalizing hookNo with
  | nil => exact le_rfl
  | cons hookObj hooks ih =>
    rw [countP_cons]
    unfold callbackInvocations
    split
    · exact (ih _).trans (Nat.le_add_right ..)
    rename_i hhash
    rw [ne_eq, not_not] at hhash
    rw [if_pos (decide_eq_true hhash)]
    split
    · exact Nat.zero_le _
    · exact Nat.succ_le_succ (ih _)

/-- What is paid for the callback of an emitted transaction. -/
def callbackFee (view : View) (tx : STTx) : Int :=
  match tx.emitDetails with
  | none => 0
  | some emitDetails => callbackFeeOf view emitDetails

theorem callbackFee_nonneg (view : View) (tx : STTx) : 0 ≤ callbackFee view tx := by
  unfold callbackFee
  split
  · exact le_rfl
  unfold callbackFeeOf
  split
  · exact le_rfl
  split
  · decide
  next hnn =>
    exact not_lt.mp hnn

/-- The account that is told of the outcome has the hook installed at most once. -/
def CallbackOnce (registry : HookRegistry) (tx : STTx) : Prop :=
  ∀ emitDetails ∈ tx.emitDetails, ∀ acc ∈ emitDetails.emitCallback, ∀ hooks ∈ registry.hooks acc,
    (hooks.countP fun hookObj => hookObj.hookHash = some emitDetails.emitHookHash) ≤ 1

/-- **A callback that is run once is paid for.** -/
theorem callbackCost_le (h : NonnegFees view.toHookRegistry)
    (honce : CallbackOnce view.toHookRegistry tx) : callbackCost tx view ≤ callbackFee view tx := by
  have hnn := callbackFee_nonneg view tx
  unfold callbackCost callbacks callbackFee at *
  cases hdet : tx.emitDetails with
  | none => exact (zero_mul _).le
  | some emitDetails =>
    rw [hdet] at hnn
    dsimp only at hnn ⊢
    split
    next acc hookDef hacc hdefi =>
      split
      next fee hooks hfee hhs =>
        have hlen := (length_callbackInvocations_le tx acc emitDetails.emitHookHash hookDef
          hooks 0).trans (honce emitDetails hdet acc hacc hooks hhs)
        have hfeeNonneg : 0 ≤ fee := (h _ _ hdefi).2 fee hfee
        have hpaid : callbackFeeOf view emitDetails = fee := by
          unfold callbackFeeOf
          rw [hdefi, Option.bind_some, hfee]
          exact if_neg (not_lt.mpr hfeeNonneg)
        rw [hpaid]
        exact mul_le_of_le_one_left hfeeNonneg (by exact_mod_cast hlen)
      · exact (zero_mul _).le.trans hnn
    · exact (zero_mul _).le.trans hnn

/-! ## Whole transactions -/

/-- The transactor keeps what holds of the installed hooks. -/
def KeepsHooks (env : Env) (tx : STTx) (P : HookRegistry → Prop) : Prop :=
  ∀ view result view', doApply env tx view = .ok (result, view') →
    P view.toHookRegistry → P view'.toHookRegistry

theorem hooks_of_apply (hkee : KeepsHooks env tx P)
    (hP : P view.toHookRegistry) (h : apply env tx view = .ok (result, view')) :
    P view'.toHookRegistry ∧ view'.rules = view.rules := by
  refine ⟨?_, ?_⟩
  · unfold apply at h
    split at h
    · exact hkee _ _ _ h hP
    rename_i sle hacc
    have hcon := (sameFunds_consumeSeqProxy hacc).registry
    generalize consumeSeqProxy tx sle view = consumed at h hcon
    obtain ⟨result₁, view₁⟩ := consumed
    dsimp only at h hcon
    rw [← hcon] at hP
    split at h
    · cases h
      exact hP
    refine hkee _ _ _ h ?_
    have hpaid : (payFee tx view₁).toHookRegistry = view₁.toHookRegistry := by
      unfold payFee
      split <;> rfl
    rw [hpaid]
    exact hP
  · rcases apply_cases h with hunm | ⟨view₁, hunm, hdo⟩
    · exact hunm.rules
    · rcases doApply_cases hdo with hs | ⟨-, hera⟩
      · exact hs.rules.trans hunm.rules
      · exact (hookWrites_eraseEmission hera).sameFunds.rules.trans hunm.rules

theorem registry_reset (tx : STTx) (fee : Int) (view : View) :
    (reset tx fee view).2.1.toHookRegistry = view.toHookRegistry := by
  unfold reset
  split
  · rfl
  · exact (sameFunds_consumeSeqProxy (Function.update_self ..)).registry

theorem hooks_of_settle (hkee : KeepsHooks env tx P) (hP : P before.toHookRegistry)
    (hfun : SameFunds before phase.view)
    (happ : (if phase.result.isTesSuccess then apply env tx phase.view
      else .ok (phase.result, phase.view)) = .ok (result, view))
    (h : settle env tx before result view = (result', some settled)) :
    P settled.view.toHookRegistry ∧ settled.view.rules = before.rules := by
  rcases settle_cases h with ⟨rfl, -⟩ | hres
  · rw [← hfun.rules]
    rw [← hfun.registry] at hP
    split at happ
    · exact hooks_of_apply hkee hP happ
    · cases happ
      exact ⟨hP, rfl⟩
  · refine ⟨?_, hres.sameEmissions.rules⟩
    have hreg : settled.view.toHookRegistry = before.toHookRegistry := by
      rw [← registry_reset tx tx.fee before]
      rcases hres.view with heq | ⟨result, heq⟩
      · rw [heq]
      · rw [heq]
        exact (sameFunds_removeOffers ..).registry
    rw [hreg]
    exact hP

theorem originatorFee_eq (view : View) (tx : STTx) :
    originatorFee view tx
      = callbackFee view tx + if tx.isEmittedTxn then 0 else chainFeeOf view tx tx.account := by
  unfold originatorFee callbackFee STTx.isEmittedTxn
  cases tx.emitDetails with
  | none => exact (zero_add _).symm
  | some emitDetails => exact (add_zero _).symm

/-- **The costs after the application**: not for the callback, and weak hooks are paid for. -/
theorem postCosts_spec {ids : List UInt256} (hfees : NonnegFees view.toHookRegistry)
    (h : postApplication env tx [] result view = .ok (view', ids)) :
    ∃ weak collected, postCosts env tx [] view
      = .ok { callback := callbackCost tx view, weak, collected } ∧ weak ≤ collected := by
  unfold postApplication at h
  simp only [bind_eq_ok] at h
  obtain ⟨⟨view₁, ids₁⟩, hcal, ⟨result₂, view₂⟩, hrem, -⟩ := h
  have hreg : view₂.toHookRegistry = view.toHookRegistry :=
    ((hookWrites_doHookCallback hcal).trans
      (hookWrites_removeEmissionEntry hrem)).sameFunds.registry
  rw [← hreg] at hfees
  have hweak := cost_doTSH_weak hfees env.vm tx (if tx.isPseudoTx then [] else
    stakeHolders env tx view₂ ++ env.additionalWeakTSH.map fun acc => (acc, false)) [] .start
  unfold postCosts
  rw [hcal, ok_bind]
  dsimp only at hrem ⊢
  rw [hrem, ok_bind]
  refine ⟨_, _, ?_, hweak.trans (zero_add _).le⟩
  rw [foldl_nil, drop_length]
  rfl

/-- **The conditions for all executions to be paid**: hooks have fees, none asks to be run again,
the transaction clears away no failed emission, and a hook called back is installed once and the
transactor leaves the hooks. -/
structure PaysInAdvance (env : Env) (tx : STTx) (before : View) : Prop where
  fees : NonnegFees before.toHookRegistry
  keepsFees : KeepsHooks env tx NonnegFees
  notAgain : ∀ invocation view stateMap,
    (env.vm invocation view stateMap).executeAgainAsWeak = false
  notCleanup : tx.txnType ≠ ttEmitFailure
  once : CallbackOnce before.toHookRegistry tx
  keepsHooks : (∃ emitDetails ∈ tx.emitDetails, emitDetails.emitCallback ≠ none) →
    KeepsHooks env tx (· = before.toHookRegistry)

section

variable (hpays : PaysInAdvance env tx before) {outcome : TxOutcome}
  (hfun : SameFunds before phase.view)

include hpays hfun

theorem PaysInAdvance.callback (happ : (if phase.result.isTesSuccess then apply env tx phase.view
      else .ok (phase.result, phase.view)) = .ok (result, view))
    (h : settle env tx before result view = (result', some settled)) :
    callbackCost tx (rewards env settled.view) ≤ callbackFee before tx := by
  have hrew := (sameFunds_rewards env settled.view).registry
  by_cases hcal : ∃ emitDetails ∈ tx.emitDetails, emitDetails.emitCallback ≠ none
  · have hkept := (hooks_of_settle (hpays.keepsHooks hcal) rfl hfun happ h).1
    rw [hkept] at hrew
    have hcost : callbackCost tx (rewards env settled.view)
        ≤ callbackFee (rewards env settled.view) tx := by
      apply callbackCost_le
      · rw [hrew]
        exact hpays.fees
      · rw [hrew]
        exact hpays.once
    have hfee : callbackFee (rewards env settled.view) tx = callbackFee before tx := by
      unfold callbackFee callbackFeeOf
      rw [hrew]
    exact hcost.trans hfee.le
  · have hn : callbackCost tx (rewards env settled.view) = 0 := by
      unfold callbackCost callbacks
      cases hdet : tx.emitDetails with
      | none => exact zero_mul _
      | some emitDetails =>
        cases hacc : emitDetails.emitCallback with
        | none =>
          dsimp only
          rw [hacc]
          exact zero_mul _
        | some acc =>
          refine absurd ⟨emitDetails, hdet, ?_⟩ hcal
          rw [hacc]
          exact nofun
    rw [hn]
    exact callbackFee_nonneg before tx

theorem PaysInAdvance.finish (haaw : phase.aawMap = [])
    (h : finish env tx before phase = .ok outcome) :
    ∃ callback weak collected, finishCosts env tx before phase
      = .ok { callback, weak, collected } ∧ weak ≤ collected ∧
        callback ≤ if before.rules.enabled .featureHooks then callbackFee before tx else 0 := by
  have hnn : 0 ≤ if before.rules.enabled .featureHooks then callbackFee before tx else 0 := by
    split
    · exact callbackFee_nonneg before tx
    · exact le_rfl
  obtain ⟨⟨result, view⟩, happ, h⟩ := bind_eq_ok.mp h
  unfold finishCosts
  rw [happ, ok_bind]
  dsimp only at h ⊢
  generalize hset : settle env tx before result view = outcome₁ at h ⊢
  obtain ⟨result₁, _ | settled⟩ := outcome₁
  · exact ⟨0, 0, 0, rfl, le_rfl, hnn⟩
  obtain ⟨⟨result₂, view₂, ids⟩, hcon, -⟩ := bind_eq_ok.mp h
  have hrew := sameFunds_rewards env settled.view
  obtain ⟨hfees, hrul⟩ := hooks_of_settle hpays.keepsFees hpays.fees hfun happ hset
  have hcal := hpays.callback hfun happ hset
  obtain ⟨⟨view₃, ids₃⟩, hpost, -⟩ := bind_eq_ok.mp hcon
  rw [haaw] at hpost ⊢
  dsimp only
  rw [hrew.rules, hrul] at hpost ⊢
  split at hpost
  next hena =>
    rw [← hrew.registry] at hfees
    obtain ⟨weak, collected, hcos, hpaid⟩ := postCosts_spec hfees hpost
    rw [if_pos hena, if_pos hena]
    exact ⟨_, weak, collected, hcos, hpaid, hcal⟩
  next hdis =>
    rw [if_neg hdis, if_neg hdis]
    exact ⟨0, 0, 0, rfl, le_rfl, le_rfl⟩

end

end

/-! ## A hook that runs again -/

theorem paysInAdvance_strangerPayment :
    PaysInAdvance (acceptingEnv [(owner, true)] []) strangerPayment hookedLedger := by
  have hkee : ∀ P, KeepsHooks (acceptingEnv [(owner, true)] []) strangerPayment P := by
    intro P view result view' h hP
    cases h
    exact hP
  refine ⟨?_, hkee _, fun _ _ _ => rfl, by decide, ?_, fun _ => hkee _⟩
  · intro hash hookDef hdefi
    have hdefi : collectRegistry.hookDefinition hash = some hookDef := hdefi
    unfold collectRegistry at hdefi
    dsimp only at hdefi
    split at hdefi
    · cases hdefi
      exact ⟨by decide, fun fee hfee => by cases hfee⟩
    · cases hdefi
  · intro emitDetails hdet
    cases hdet

/-- The owner's hook accepts, and asks to be run again. -/
def againEnv : Env :=
  { acceptingEnv [(owner, true)] [] with
    vm := fun invocation view stateMap =>
      { rollbackVm [] [] invocation view stateMap with
        exitType := .accept
        executeAgainAsWeak := invocation.isStrong } }

end Xahau.Transactor
