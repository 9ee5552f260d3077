import Xahau.Hook.Authority
import Xahau.Hook.Emission
import Xahau.Hook.Emit
import Xahau.Hook.Finalize

/-! # Running hooks (`Transactor.cpp`, `applyHook.cpp`)

A transaction runs the hooks of the accounts that it concerns: strongly before it is applied, when a
hook can still reject it, and weakly afterwards. The hooks of a phase share one state cache. The
virtual machine is a parameter: given what a hook can see, it answers with the calls that the hook
makes and how it ends. -/

namespace Xahau.Hook

/-- The arguments of `hook::apply`. -/
structure Invocation where
  hook : HookId
  hookCanEmit : UInt256
  wasm : Blob
  hookParams : ParameterMap
  hookParamOverrides : ParamOverrides
  hasCallback : Bool
  isCallback : Bool
  isStrong : Bool
  wasmParam : Nat
  hookChainPosition : Nat

/-- What a hook does when it is run. -/
structure Outcome where
  /-- Its calls of state functions, each with the memory of the hook at that time. -/
  calls : List (Memory × Call)
  /-- Its calls of `emit`. -/
  emits : List EmitCall
  hookParamOverrides : ParamOverrides
  hookSkips : List UInt256
  exitType : ExitType
  executeAgainAsWeak : Bool
  /-- It ended in an exception. -/
  threw : Bool

/-- The virtual machine. -/
abbrev Vm := Invocation → View → HookStateMap → Outcome

/-- An execution of a hook. -/
structure Execution where
  /-- What it returned; lost if it threw. -/
  result : HookResult
  threw : Bool
  /-- The entries that it has set, oldest first. -/
  sets : List SetRequest

/-- The execution ended with `accept`. -/
def Execution.accepted (execution : Execution) : Bool :=
  !execution.threw && decide (execution.result.exitType = .accept)

/-- The transactions that it hands over to be emitted: none if it threw. -/
def Execution.emitted (execution : Execution) : List STTx :=
  if execution.threw then [] else execution.result.emittedTxn

/-- The calls of a hook in turn: the context left and the entries set. -/
def runCalls (hook : HookId) (view : View) :
    List (Memory × Call) → HookContext → HookContext × List SetRequest
  | [], ctx => (ctx, [])
  | (memory, call) :: calls, ctx =>
    let c : ApiCall := ⟨hook, view, memory, call⟩
    let rest := runCalls hook view calls (c.run ctx)
    (rest.1, (c.sets ctx).toList ++ rest.2)

/-- `hook::apply` for a transaction, with the cache that it leaves. -/
def apply (vm : Vm) (otxn : STTx) (invocation : Invocation) (view : View) (stateMap : HookStateMap) :
    Execution × HookStateMap :=
  let outcome := vm invocation view stateMap
  let run := runCalls invocation.hook view outcome.calls (.ofHook invocation.hook stateMap)
  ({ result := {
        account := invocation.hook.account
        hookHash := invocation.hook.hookHash
        emittedTxn :=
          emitAll ⟨otxn, invocation.hook, invocation.hookCanEmit, view.seq⟩ outcome.emits []
        hookParamOverrides := outcome.hookParamOverrides
        hookSkips := outcome.hookSkips
        exitType := outcome.exitType
        executeAgainAsWeak := outcome.executeAgainAsWeak }
     threw := outcome.threw
     sets := run.2 }, run.1.stateMap)

/-- Hooks hand over only transactions with the property. -/
def Vm.EmitsOnly (vm : Vm) (P : STTx → Prop) : Prop :=
  ∀ invocation view stateMap, ∀ call ∈ (vm invocation view stateMap).emits, P call.tx

theorem emittedFor_of_apply {vm : Vm} {otxn tx : STTx} {invocation : Invocation} {view : View}
    {stateMap : HookStateMap} {P : STTx → Prop} (hvm : vm.EmitsOnly P)
    (h : tx ∈ (apply vm otxn invocation view stateMap).1.result.emittedTxn) :
    EmittedFor otxn tx ∧ P tx := by
  rcases mem_emitAll h with h | ⟨hfor, call, hcall, rfl⟩
  · exact nomatch h
  · exact ⟨hfor, hvm invocation view stateMap call hcall⟩

/-- The cache that hooks share, and the executions so far, oldest first. -/
structure Session where
  stateMap : HookStateMap
  executions : List Execution

namespace Session

/-- No hook has been run yet. -/
def start : Session := ⟨.empty, []⟩

/-- The results of the executions that did not throw. -/
def results (session : Session) : List HookResult :=
  session.executions.filterMap fun execution =>
    if execution.threw then none else some execution.result

def execute (session : Session) (vm : Vm) (otxn : STTx) (invocation : Invocation) (view : View) :
    Execution × Session :=
  let (execution, stateMap) := apply vm otxn invocation view session.stateMap
  (execution, ⟨stateMap, session.executions ++ [execution]⟩)

end Session

/-! ## Chains -/

/-- The default of `HookCanEmit`, which allows all types of transactions. -/
def hookCanEmitDefault : UInt256 := ⟨List.replicate 29 0 ++ [0x40, 0, 0], by simp⟩

/-- `hook::getHookCanEmit`. -/
def getHookCanEmit (hookObj : HookObj) (hookDef : HookDefinition) : UInt256 :=
  (hookObj.hookCanEmit.or hookDef.hookCanEmit).getD hookCanEmitDefault

/-- `hsfCOLLECT`: the hook may be run weakly. -/
def isCollect (flags : Nat) : Bool := flags.testBit 2

/-- `gatherHookParameters`: the defaults and then the custom ones. -/
def gatherHookParameters (hookDef : HookDefinition) (hookObj : HookObj) : Option ParameterMap :=
  let assign (parameters : ParameterMap) (given : List (Blob × Blob)) : ParameterMap :=
    given.foldl (fun parameters p => parameters.insert p.1 p.2) parameters
  hookDef.hookParameters.map fun defaults =>
    assign (assign ∅ defaults) (hookObj.hookParameters.getD [])

/-- The hook that runs for an entry of `sfHooks`: it is installed, not skipped, and fires. -/
def HookObj.fires (hookObj : HookObj) (view : View) (tx : STTx) (strong : Bool)
    (hookSkips : List UInt256) : Option (UInt256 × HookDefinition) := do
  let hookHash ← hookObj.hookHash
  guard (hookHash ∉ hookSkips)
  let hookDef ← view.hookDefinition hookHash
  guard (canHook tx.txnType (hookObj.hookOn.getD hookDef.hookOn) = true)
  -- skip weakly executed hooks that lack a collect flag
  guard (strong = true ∨ isCollect (hookObj.flags.getD hookDef.flags) = true)
  pure (hookHash, hookDef)

/-- The invocation of the hook of an entry of `sfHooks`. -/
def HookObj.invocation (hookObj : HookObj) (hookHash : UInt256) (hookDef : HookDefinition)
    (account : AccountID) (parameters : ParameterMap) (overrides : ParamOverrides)
    (isStrong : Bool) (wasmParam hookNo : Nat) : Invocation where
  hook := ⟨account, hookHash, hookObj.hookNamespace.getD hookDef.hookNamespace⟩
  hookCanEmit := getHookCanEmit hookObj hookDef
  wasm := hookDef.createCode
  hookParams := parameters
  hookParamOverrides := overrides
  hasCallback := hookDef.hookCallbackFee.isSome
  isCallback := false
  isStrong
  wasmParam
  hookChainPosition := hookNo

/-- The overrides that a hook has left are added to those so far. -/
def mergeOverrides (overrides new : ParamOverrides) : ParamOverrides :=
  new.entries.foldl (fun overrides entry =>
    overrides.insert entry.1 (entry.2 ∪ (overrides.lookup entry.1).getD ∅)) overrides

/-- `Transactor::executeHookChain`, from the hook with the number `hookNo` on. -/
def executeHookChain (vm : Vm) (view : View) (tx : STTx) (account : AccountID) (strong : Bool) :
    List HookObj → Nat → List UInt256 → ParamOverrides → Session → Ter × Session
  | [], _, _, _, session => (.tesSUCCESS, session)
  | hookObj :: hooks, hookNo, hookSkips, overrides, session =>
    match hookObj.fires view tx strong hookSkips with
    | none =>
      executeHookChain vm view tx account strong hooks (hookNo + 1) hookSkips overrides session
    | some (hookHash, hookDef) =>
      match gatherHookParameters hookDef hookObj with
      | none => (.tecINTERNAL, session)
      | some parameters =>
        let (execution, session) := session.execute vm tx
          (hookObj.invocation hookHash hookDef account parameters overrides strong
            (if strong then 0 else 1) hookNo) view
        if execution.accepted = false then (.tecHOOK_REJECTED, session)
        else
          executeHookChain vm view tx account strong hooks (hookNo + 1)
            (hookSkips ++ execution.result.hookSkips)
            (mergeOverrides overrides execution.result.hookParamOverrides) session

/-! ## Stakeholders -/

/-- `INITIAL_XRP`, in drops. -/
def initialXrp : Int := 100000000000000000

/-- `Transactor::calculateHookChainFee`. -/
def calculateHookChainFee (view : View) (tx : STTx) (hooks : List HookObj)
    (collectCallsOnly : Bool) : Int :=
  hooks.foldl (fun fee hookObj =>
    match hookObj.fires view tx (!collectCallsOnly) [] with
    | none => fee
    | some (_, hookDef) => if fee + hookDef.fee < fee then initialXrp else fee + hookDef.fee) 0

/-- Drops are deducted from an account and destroyed. -/
def View.collect (view : View) (acc : AccountID) (sleAccount : AccountRoot) (fee : Int) : View :=
  { view.setAccount acc { sleAccount with balance := sleAccount.balance - fee } with
    drops := view.drops - fee }

/-- The part of `Transactor::doTSH` that finds the hooks of a stakeholder and collects the fee for
running them weakly. -/
def chargeTSH (view : View) (tx : STTx) (tshAccountID : AccountID) (canRollback : Bool) :
    Option (List HookObj × View) :=
  match view.hooks tshAccountID, view.account tshAccountID with
  | some hooks, some tshAcc =>
    let tshFeeDrops := calculateHookChainFee view tx hooks (!canRollback)
    if tshFeeDrops = 0 then none
    else if canRollback then some (hooks, view)
    else if tshAcc.tshCollect = false then none
    else if tshAcc.balance < tshFeeDrops + view.fees.accountReserve tshAcc.ownerCount then none
    else if 0 < tshFeeDrops then some (hooks, view.collect tshAccountID tshAcc tshFeeDrops)
    else some (hooks, view)
  | _, _ => none

/-- `Transactor::doTSH`: strong stakeholders, who can reject, or weak ones. -/
def doTSH (vm : Vm) (tx : STTx) (strong : Bool) :
    List (AccountID × Bool) → List AccountID → View → Session → Ter × View × Session
  | [], _, view, session => (.tesSUCCESS, view, session)
  | (tshAccountID, canRollback) :: tsh, alreadyProcessed, view, session =>
    if tshAccountID = tx.account ∨ tshAccountID ∈ alreadyProcessed then
      doTSH vm tx strong tsh alreadyProcessed view session
    else if canRollback ≠ strong then
      doTSH vm tx strong tsh (tshAccountID :: alreadyProcessed) view session
    else
      match chargeTSH view tx tshAccountID canRollback with
      | none => doTSH vm tx strong tsh (tshAccountID :: alreadyProcessed) view session
      | some (hooks, view) =>
        let (tshResult, session) :=
          executeHookChain vm view tx tshAccountID strong hooks 0 [] ∅ session
        if canRollback = true ∧ tshResult.isTesSuccess = false then (tshResult, view, session)
        else doTSH vm tx strong tsh (tshAccountID :: alreadyProcessed) view session

/-- The loop of `Transactor::doAgainAsWeak`, from the hook `hookNo` on. -/
def againAsWeak (vm : Vm) (view : View) (tx : STTx) (hookAccountID : AccountID)
    (hookHashes : List UInt256) : List HookObj → Nat → Session → Session
  | [], _, session => session
  | hookObj :: hooks, hookNo, session =>
    let hookDef? := do
      let hookHash ← hookObj.hookHash
      guard (hookHash ∈ hookHashes)
      let hookDef ← view.hookDefinition hookHash
      pure (hookHash, hookDef)
    match hookDef? with
    | none => againAsWeak vm view tx hookAccountID hookHashes hooks (hookNo + 1) session
    | some (hookHash, hookDef) =>
      match gatherHookParameters hookDef hookObj with
      | none => session
      | some parameters =>
        let (_, session) := session.execute vm tx
          (hookObj.invocation hookHash hookDef hookAccountID parameters ∅ false 2 hookNo) view
        againAsWeak vm view tx hookAccountID hookHashes hooks (hookNo + 1) session

/-- `Transactor::doAgainAsWeak`. -/
def doAgainAsWeak (vm : Vm) (view : View) (tx : STTx) (hookAccountID : AccountID)
    (hookHashes : List UInt256) (session : Session) : Session :=
  match view.hooks hookAccountID with
  | none => session
  | some hooks => againAsWeak vm view tx hookAccountID hookHashes hooks 0 session

/-! ## What hooks leave in the cache -/

section

variable {ctx : HookContext} {acc : AccountID} {ns key : UInt256} {c : ApiCall}

section

variable (hhook : c.hook = ctx.toHookId)

include hhook

theorem ApiCall.toHookId_run : (c.run ctx).toHookId = ctx.toHookId := by
  rcases c.run_cases ctx hhook with ⟨-, disabled, hrun⟩ | ⟨request, -, -, hcac, -⟩ |
    ⟨-, -, acc, ns, key, hookState, -, -, hcac⟩
  · rw [hrun]
  · obtain ⟨_, _, _, _, hrun⟩ := setStateCache_eq_ok hcac
    rw [hrun]
  · obtain ⟨_, _, _, _, hrun⟩ := setStateCache_eq_ok hcac
    rw [hrun]

theorem ApiCall.isModified_run (h : ctx.stateMap.isModified acc ns key = true) :
    (c.run ctx).stateMap.isModified acc ns key = true := by
  -- whichever entry is set, its mark is kept
  have hset : ∀ acc' ns' key' data modified,
      setStateCache c.view acc' ns' key' data modified ctx = .ok (c.run ctx) →
        (c.run ctx).stateMap.isModified acc ns key = true := by
    intro acc' ns' key' data modified hcac
    rw [isModified_setStateCache hcac]
    split
    next hent =>
      cases hent
      rw [h, Bool.true_or]
    · exact h
  rcases c.run_cases ctx hhook with ⟨-, disabled, hrun⟩ | ⟨request, -, -, hcac, -⟩ |
    ⟨-, -, acc', ns', key', hookState, -, -, hcac⟩
  · rw [hrun]
    exact h
  · exact hset _ _ _ _ _ hcac
  · exact hset _ _ _ _ _ hcac

theorem ApiCall.isModified_of_sets {request : SetRequest} (h : c.sets ctx = some request) :
    (c.run ctx).stateMap.isModified request.acc request.ns request.key = true := by
  rcases c.run_cases ctx hhook with ⟨hn, -⟩ | ⟨request', -, hsets, hcac, -⟩ | ⟨-, hn, -⟩
  · rw [hn] at h
    cases h
  · rw [hsets] at h
    cases h
    rw [isModified_setStateCache hcac, if_pos rfl, Bool.or_true]
  · rw [hn] at h
    cases h

end

theorem isModified_runCalls (hook : HookId) (view : View) (calls : List (Memory × Call))
    (ctx : HookContext) (hhook : hook = ctx.toHookId) :
    (∀ acc ns key, ctx.stateMap.isModified acc ns key = true →
      (runCalls hook view calls ctx).1.stateMap.isModified acc ns key = true) ∧
    ∀ request ∈ (runCalls hook view calls ctx).2,
      (runCalls hook view calls ctx).1.stateMap.isModified request.acc request.ns request.key
        = true := by
  induction calls generalizing ctx with
  | nil => exact ⟨fun _ _ _ h => h, nofun⟩
  | cons p calls ih =>
    obtain ⟨memory, call⟩ := p
    have hcall : (ApiCall.mk hook view memory call).hook = ctx.toHookId := hhook
    have hrun := ApiCall.toHookId_run hcall
    obtain ⟨hkept, hmar⟩ := ih _ (hhook.trans hrun.symm)
    refine ⟨fun acc ns key h => hkept acc ns key (ApiCall.isModified_run hcall h), ?_⟩
    intro request hreq
    rcases List.mem_append.mp hreq with hreq | hreq
    · rw [Option.mem_toList] at hreq
      exact hkept _ _ _ (ApiCall.isModified_of_sets hcall hreq)
    · exact hmar request hreq

end

namespace Session

/-- One execution after another. -/
def Step (vm : Vm) (otxn : STTx) (session : Session) (e : Invocation × View) (session' : Session) :
    Prop :=
  session' = (session.execute vm otxn e.1 e.2).2

theorem run_execute (session : Session) (vm : Vm) (otxn : STTx) (invocation : Invocation)
    (view : View) :
    Run (Step vm otxn) session [(invocation, view)] (session.execute vm otxn invocation view).2 :=
  Run.single rfl

/-- Every entry that an execution has set is marked as modified in the cache. -/
def Marked (session : Session) : Prop :=
  ∀ execution ∈ session.executions, ∀ request ∈ execution.sets,
    session.stateMap.isModified request.acc request.ns request.key = true

variable {es : List (Invocation × View)} {otxn : STTx} {session : Session} {vm : Vm}

theorem Marked.execute (h : session.Marked) (vm : Vm) (otxn : STTx)
    (invocation : Invocation) (view : View) :
    (session.execute vm otxn invocation view).2.Marked := by
  have hcal := isModified_runCalls invocation.hook view
    (vm invocation view session.stateMap).calls (.ofHook invocation.hook session.stateMap) rfl
  intro execution hexe request hreq
  rcases List.mem_append.mp hexe with hexe | hexe
  · exact hcal.1 _ _ _ (h execution hexe request hreq)
  rw [List.mem_singleton] at hexe
  subst hexe
  exact hcal.2 request hreq

theorem marked_of_run (h : Run (Step vm otxn) start es session) : session.Marked := by
  apply h.invariant (fun _ session => session.Marked)
  · intro execution hexe
    exact nomatch hexe
  intro es session e session' hmar hstep
  rw [show session' = _ from hstep]
  exact hmar.execute vm otxn e.1 e.2

theorem emittedFor_of_run
    {P : STTx → Prop} (hvm : vm.EmitsOnly P) (h : Run (Step vm otxn) start es session) :
    ∀ execution ∈ session.executions, ∀ tx ∈ execution.result.emittedTxn,
      EmittedFor otxn tx ∧ P tx := by
  apply h.invariant (fun _ session => ∀ execution ∈ session.executions,
    ∀ tx ∈ execution.result.emittedTxn, EmittedFor otxn tx ∧ P tx)
  · intro execution hexe
    exact nomatch hexe
  intro es session e session' hemi hstep execution hexe tx htx
  rw [show session' = _ from hstep] at hexe
  rcases List.mem_append.mp hexe with hexe | hexe
  · exact hemi execution hexe tx htx
  rw [List.mem_singleton] at hexe
  subst hexe
  exact emittedFor_of_apply hvm htx

end Session

/-! ## Chains are runs -/

section

variable (vm : Vm) (tx : STTx)

theorem run_executeHookChain (view : View) (account : AccountID) (strong : Bool)
    (hooks : List HookObj) (hookNo : Nat) (hookSkips : List UInt256) (overrides : ParamOverrides)
    (session : Session) :
    ∃ es, Run (Session.Step vm tx) session es
      (executeHookChain vm view tx account strong hooks hookNo hookSkips overrides session).2 := by
  induction hooks generalizing hookNo hookSkips overrides session with
  | nil => exact ⟨[], .nil⟩
  | cons hookObj hooks ih =>
    unfold executeHookChain
    split
    · exact ih _ _ _ _
    split
    · exact ⟨[], .nil⟩
    generalize HookObj.invocation .. = invocation
    have hstep := session.run_execute vm tx invocation view
    dsimp only
    split
    · exact ⟨_, hstep⟩
    · obtain ⟨es, hrun⟩ := ih _ _ _ _
      exact ⟨_, hstep.trans hrun⟩

variable {tshAccountID : AccountID} {canRollback : Bool} {hooks : List HookObj} {view view' : View}

section

variable (h : chargeTSH view tx tshAccountID canRollback = some (hooks, view'))

include h

/-- **What charging a stakeholder can do**: find the hooks to run, and deduct the fee if they are
run weakly. -/
theorem chargeTSH_cases :
    view.hooks tshAccountID = some hooks ∧ ∃ tshAcc, view.account tshAccountID = some tshAcc ∧
      ((canRollback = true ∧ view' = view) ∨
        (canRollback = false ∧
          view' = if 0 < calculateHookChainFee view tx hooks true then
              view.collect tshAccountID tshAcc (calculateHookChainFee view tx hooks true)
            else view)) := by
  unfold chargeTSH at h
  split at h
  next hooks tshAcc hhs hacc =>
    dsimp only at h
    split at h
    · cases h
    split at h
    next hstr =>
      cases h
      exact ⟨hhs, tshAcc, hacc, .inl ⟨hstr, rfl⟩⟩
    rename_i hweak
    rw [Bool.not_eq_true] at hweak
    subst hweak
    split at h
    · cases h
    split at h
    · cases h
    split at h
    next hfee =>
      cases h
      exact ⟨hhs, tshAcc, hacc, .inr ⟨rfl, (if_pos hfee).symm⟩⟩
    next hfee =>
      cases h
      exact ⟨hhs, tshAcc, hacc, .inr ⟨rfl, (if_neg hfee).symm⟩⟩
  · cases h

theorem account_of_chargeTSH :
    ∃ account drops, importsOf account = view.imports ∧ view' = { view with account, drops } := by
  obtain ⟨-, tshAcc, hacc, ⟨-, rfl⟩ | ⟨-, rfl⟩⟩ := chargeTSH_cases tx h
  · exact ⟨view'.account, view'.drops, rfl, rfl⟩
  split
  · refine ⟨_, _, ?_, rfl⟩
    exact View.imports_setAccount hacc rfl
  · exact ⟨view.account, view.drops, rfl, rfl⟩

end

/-- **What the turn of a stakeholder does, the loop does**, for reflexive and transitive relations.
-/
theorem doTSH_induction {strong : Bool} {R : View × Session → View × Session → Prop}
    (hrefl : ∀ s, R s s) (htra : ∀ {s t u}, R s t → R t u → R s u)
    (hturn : ∀ {view view₁ : View} {session : Session} {tshAccountID : AccountID}
      {hooks : List HookObj}, chargeTSH view tx tshAccountID strong = some (hooks, view₁) →
      R (view, session)
        (view₁, (executeHookChain vm view₁ tx tshAccountID strong hooks 0 [] ∅ session).2))
    (tsh : List (AccountID × Bool)) (alreadyProcessed : List AccountID) (view : View)
    (session : Session) :
    R (view, session) (doTSH vm tx strong tsh alreadyProcessed view session).2 := by
  induction tsh generalizing alreadyProcessed view session with
  | nil => exact hrefl _
  | cons p tsh ih =>
    obtain ⟨tshAccountID, canRollback⟩ := p
    unfold doTSH
    split
    · exact ih _ _ _
    split
    · exact ih _ _ _
    rename_i hpha
    obtain rfl : canRollback = strong := not_not.mp hpha
    split
    · exact ih _ _ _
    rename_i hchg
    dsimp only
    split
    · exact hturn hchg
    · exact htra (hturn hchg) (ih _ _ _)

theorem run_doTSH (strong : Bool) (tsh : List (AccountID × Bool)) (alreadyProcessed : List AccountID)
    (view : View) (session : Session) :
    (∃ es, Run (Session.Step vm tx) session es
      (doTSH vm tx strong tsh alreadyProcessed view session).2.2) ∧
    ∃ account drops, importsOf account = view.imports ∧
      (doTSH vm tx strong tsh alreadyProcessed view session).2.1
        = { view with account, drops } := by
  refine doTSH_induction vm tx (R := fun s t => (∃ es, Run (Session.Step vm tx) s.2 es t.2) ∧
    ∃ account drops, importsOf account = s.1.imports ∧ t.1 = { s.1 with account, drops })
    (fun s => ⟨⟨[], .nil⟩, s.1.account, s.1.drops, rfl, rfl⟩) ?_ ?_ tsh alreadyProcessed view session
  · rintro ⟨view, _⟩ ⟨_, _⟩ ⟨_, _⟩ ⟨⟨es₁, hrun⟩, account₁, drops₁, himp₁, rfl⟩
      ⟨⟨es₂, hrest⟩, account₂, drops₂, himp₂, rfl⟩
    exact ⟨⟨_, hrun.trans hrest⟩, account₂, drops₂, himp₂.trans himp₁, rfl⟩
  · intro view view₁ session tshAccountID hooks hchg
    exact ⟨run_executeHookChain vm tx view₁ tshAccountID strong hooks 0 [] ∅ session,
      account_of_chargeTSH tx hchg⟩

theorem run_doAgainAsWeak (view : View) (hookAccountID : AccountID) (hookHashes : List UInt256)
    (session : Session) :
    ∃ es, Run (Session.Step vm tx) session es
      (doAgainAsWeak vm view tx hookAccountID hookHashes session) := by
  have hloop : ∀ (hooks : List HookObj) (hookNo : Nat) (session : Session),
      ∃ es, Run (Session.Step vm tx) session es
        (againAsWeak vm view tx hookAccountID hookHashes hooks hookNo session) := by
    intro hooks
    induction hooks with
    | nil => exact fun _ _ => ⟨[], .nil⟩
    | cons hookObj hooks ih =>
      intro hookNo session
      unfold againAsWeak
      dsimp only
      split
      · exact ih _ _
      split
      · exact ⟨[], .nil⟩
      · obtain ⟨es, hrun⟩ := ih _ _
        exact ⟨_, (session.run_execute vm tx _ view).trans hrun⟩
  unfold doAgainAsWeak
  split
  · exact ⟨[], .nil⟩
  · exact hloop _ _ _

theorem run_againAsWeak (view : View) (aawMap : List (AccountID × List UInt256))
    {session session' : Session} {es : List (Invocation × View)}
    (h : Run (Session.Step vm tx) session es session') :
    ∃ es', Run (Session.Step vm tx) session es' (aawMap.foldl
      (fun session aaw => doAgainAsWeak vm view tx aaw.1 aaw.2 session) session') := by
  induction aawMap generalizing session' es with
  | nil => exact ⟨es, h⟩
  | cons aaw aawMap ih =>
    obtain ⟨es₁, hrun⟩ := run_doAgainAsWeak vm tx view aaw.1 aaw.2 session'
    exact ih (h.trans hrun)

end

end Xahau.Hook
