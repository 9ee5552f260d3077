import Xahau.Hook.StateCache

/-! # Runs of hooks on a shared cache

What hooks set in a shared cache reaches the ledger, and until then a read finds what the ledger
will have. Both fail at the edges: a weak stakeholder that pays for its hooks after its states were
set may no longer afford them, and an entry that was deleted in the cache reads as empty. -/

namespace Xahau.Hook

open Checked HookStateMap List Option

variable {acc : AccountID} {args : GetArgs} {hook : HookId} {sets : List SetRequest}
  {memory : Memory} {key ns : UInt256} {view : View}

/-! ## Runs -/

/-- The ledger and the cache while hooks run. -/
structure Sharing where
  view : View
  /-- The context of the hook that runs, with the cache. -/
  ctx : HookContext
  /-- The entries that were set, oldest first. -/
  sets : List SetRequest

/-- What happens while hooks run. -/
inductive SharedEvent : Type where
  /-- The next hook begins. -/
  | begin (hook : HookId)
  /-- The hook calls a state function. -/
  | call (memory : Memory) (apiCall : Call)
  /-- A weak stakeholder pays for its hooks. -/
  | charge (tx : STTx) (tshAccountID : AccountID)

def SharedEvent.Step (s : Sharing) (e : SharedEvent) (s' : Sharing) : Prop :=
  match e with
  | .begin hook => s' = { s with ctx := .ofHook hook s.ctx.stateMap }
  | .call memory apiCall =>
    let c : ApiCall := ⟨s.ctx.toHookId, s.view, memory, apiCall⟩
    s' = { s with ctx := c.run s.ctx, sets := s.sets ++ (c.sets s.ctx).toList }
  | .charge tx tshAccountID => ∃ hooks view',
      chargeTSH s.view tx tshAccountID false = some (hooks, view') ∧ s' = { s with view := view' }

/-- A stakeholder that pays has not been looked at by the cache. -/
def SharedEvent.Unseen (s : Sharing) : SharedEvent → Prop
  | .begin _ => True
  | .call _ _ => True
  | .charge _ tshAccountID => s.ctx.stateMap.accounts.lookup tshAccountID = none

/-- The data with which an entry was set last. -/
def lastSet (sets : List SetRequest) (entry : AccountID × UInt256 × UInt256) : Option Blob :=
  (sets.reverse.find? fun r => decide (r.entry = entry)).map SetRequest.data

variable {stateMap : HookStateMap} {r : SetRequest}

theorem lastSet_append {entry : AccountID × UInt256 × UInt256} :
    lastSet (sets ++ [r]) entry = if r.entry = entry then some r.data else lastSet sets entry := by
  unfold lastSet
  rw [reverse_append, reverse_singleton, singleton_append, List.find?_cons]
  by_cases h : r.entry = entry <;> simp [h]

theorem exists_lastSet (h : r ∈ sets) : ∃ data, lastSet sets r.entry = some data := by
  unfold lastSet
  obtain ⟨r', hr'⟩ := isSome_iff_exists.mp
    (List.find?_isSome.mpr ⟨r, mem_reverse.mpr h, decide_eq_true rfl⟩ :
      (sets.reverse.find? fun r' => decide (r'.entry = r.entry)).isSome = true)
  exact ⟨r'.data, by rw [hr']; rfl⟩

/-- The modified entries of the cache have the data with which they were set last. -/
def Recorded (sets : List SetRequest) (stateMap : HookStateMap) : Prop :=
  ∀ acc ns key data, stateMap.lookupStateCache acc ns key = some ⟨true, data⟩ ↔
    lastSet sets (acc, ns, key) = some data

theorem Recorded.lastSet_eq_none (h : Recorded sets stateMap)
    (hunm : ∀ data, stateMap.lookupStateCache acc ns key ≠ some ⟨true, data⟩) :
    lastSet sets (acc, ns, key) = none := by
  rw [eq_none_iff_forall_ne_some]
  intro data hlast
  exact hunm data ((h acc ns key data).mpr hlast)

theorem Recorded.isModified_eq (h : Recorded sets stateMap) (acc : AccountID) (ns key : UInt256) :
    stateMap.isModified acc ns key = (lastSet sets (acc, ns, key)).isSome := by
  unfold isModified
  cases hlast : lastSet sets (acc, ns, key) with
  | some data =>
    rw [(h acc ns key data).mpr hlast]
    rfl
  | none =>
    cases hlk : stateMap.lookupStateCache acc ns key with
    | none => rfl
    | some entry =>
      obtain ⟨modified, data⟩ := entry
      cases modified with
      | false => rfl
      | true =>
        rw [(h acc ns key data).mp hlk] at hlast
        cases hlast

/-- **While hooks run** the ledger is consistent and the cache agrees with it. -/
structure Sharing.Inv (view₀ : View) (s : Sharing) : Prop where
  filed : Filed s.view
  cached : Cached s.view s.ctx.stateMap
  recorded : Recorded s.sets s.ctx.stateMap
  rules : s.view.rules = view₀.rules
  fees : s.view.fees = view₀.fees
  hookStateDir : s.view.hookStateDir = view₀.hookStateDir

section

variable {view₀ : View} {s s' : Sharing} {ctx : HookContext}

theorem Recorded.call {c : ApiCall} (h : Recorded sets ctx.stateMap)
    (hhook : c.hook = ctx.toHookId) :
    Recorded (sets ++ (c.sets ctx).toList) (c.run ctx).stateMap := by
  rcases c.run_cases ctx hhook with ⟨hn, disabled, hrun⟩ | ⟨request, -, hsets, hcac, -⟩ |
    ⟨-, hn, acc, ns, key, hookState, hmiss, -, hcac⟩
  · rw [hn, hrun, toList_none, append_nil]
    exact h
  · obtain ⟨available, count, n, changed, hass⟩ := setStateCache_eq_ok hcac
    rw [hsets, hass, toList_some]
    intro acc ns key data
    rw [lastSet_append]
    by_cases hent : (acc, ns, key) = request.entry
    · rw [if_pos hent.symm]
      cases hent
      rw [lookupStateCache_assign, Bool.or_true]
      simp
    · rw [if_neg (fun heq => hent heq.symm)]
      rw [lookupStateCache_assign_of_ne _ hent]
      exact h acc ns key data
  · obtain ⟨available, count, n, changed, hass⟩ := setStateCache_eq_ok hcac
    rw [hn, hass, toList_none, append_nil]
    intro acc' ns' key' data
    by_cases hent : (acc', ns', key') = (acc, ns, key)
    · -- the entry is cached without a mark, and was not set
      cases hent
      have hunm : ctx.stateMap.isModified acc ns key = false := by
        unfold isModified
        rw [hmiss]
        rfl
      rw [lookupStateCache_assign, ← h acc ns key data, hmiss, hunm]
      simp
    · rw [lookupStateCache_assign_of_ne _ hent]
      exact h acc' ns' key' data

theorem inv_start (h : Filed view) : Sharing.Inv view ⟨view, .ofHook hook .empty, []⟩ := by
  refine ⟨h, cached_empty, ?_, rfl, rfl, rfl⟩
  intro acc ns key data
  exact iff_of_false (by rintro ⟨⟩) (by rintro ⟨⟩)

theorem Filed.collect {sleAccount : AccountRoot} {fee : Int}
    (h : Filed view) : Filed (view.collect acc sleAccount fee) := by
  have hset : Filed (view.setAccount acc { sleAccount with balance := sleAccount.balance - fee }) :=
    h.setAccount
  exact ⟨hset.linked, hset.holds_iff, hset.owned⟩

/-- **Every step keeps the invariant** if those who pay have not been looked at. -/
theorem Sharing.Inv.step {e : SharedEvent} (h : s.Inv view₀) (hstep : e.Step s s')
    (huns : e.Unseen s) : s'.Inv view₀ := by
  cases e with
  | begin hook =>
    rw [show s' = _ from hstep]
    exact ⟨h.filed, h.cached, h.recorded, h.rules, h.fees, h.hookStateDir⟩
  | call memory apiCall =>
    rw [show s' = _ from hstep]
    exact ⟨h.filed, Cached.call (c := ⟨s.ctx.toHookId, s.view, memory, apiCall⟩) h.cached rfl,
      h.recorded.call rfl, h.rules, h.fees, h.hookStateDir⟩
  | charge tx tshAccountID =>
    obtain ⟨hooks, view', hchg, rfl⟩ := hstep
    obtain ⟨-, tshAcc, -, ⟨htrue, -⟩ | ⟨-, rfl⟩⟩ := chargeTSH_cases tx hchg
    · cases htrue
    split
    · refine ⟨h.filed.collect, h.cached.of_account ?_, h.recorded, h.rules, h.fees, h.hookStateDir⟩
      intro acc hseen
      apply Function.update_of_ne
      rintro rfl
      exact hseen huns
    · exact h

variable {es : List SharedEvent}

theorem inv_of_run (hfil : Filed view)
    (hrun : Run (fun s e s' => SharedEvent.Step s e s' ∧ e.Unseen s)
      ⟨view, .ofHook hook .empty, []⟩ es s) : s.Inv view := by
  apply hrun.invariant (fun _ s => s.Inv view) (inv_start hfil)
  rintro es s e s' hinv ⟨hstep, huns⟩
  exact hinv.step hstep huns

theorem Sharing.Inv.finalizeHookState_eq_ok (h : s.Inv view₀)
    (hinc : 0 ≤ view₀.fees.increment) (hroom : Roomy view₀) :
    ∃ view', finalizeHookState s.ctx.stateMap s.view
        = .ok (.tesSUCCESS, view', s.ctx.stateMap.modifiedEntries) ∧ Filed view' ∧
      ∀ acc ns key, view'.stateData acc ns key =
        match lastSet s.sets (acc, ns, key) with
        | some data => storedData data
        | none => s.view.stateData acc ns key := by
  obtain ⟨view', heq, hfil⟩ := h.cached.finalizeHookState_eq_ok h.filed
    (by rw [h.fees]; exact hinc) (by
      unfold Roomy
      rw [h.hookStateDir, h.rules]
      exact hroom)
  refine ⟨view', heq, hfil, fun acc ns key => ?_⟩
  rw [stateData_finalizeHookState heq, h.recorded.isModified_eq]
  cases hlast : lastSet s.sets (acc, ns, key) with
  | some data =>
    rw [(h.recorded acc ns key data).mpr hlast]
    rfl
  | none => rfl

/-! ## No state is lost -/

/-- **What hooks have set is written to the ledger**, with the data set last, in every run in which
no stakeholder pays after the cache has looked at its account. -/
theorem finalizeHookState_loses_nothing {view : View} {hook : HookId} {es : List SharedEvent}
    (hfiled : Filed view) (hincrement : 0 ≤ view.fees.increment) (hroom : Roomy view)
    (hrun : Run (fun s e s' => SharedEvent.Step s e s' ∧ e.Unseen s)
      ⟨view, .ofHook hook .empty, []⟩ es s) :
    ∃ view', finalizeHookState s.ctx.stateMap s.view
        = .ok (.tesSUCCESS, view', s.ctx.stateMap.modifiedEntries) ∧
      ∀ request ∈ s.sets,
        s.ctx.stateMap.isModified request.acc request.ns request.key = true ∧
        ∃ data, lastSet s.sets request.entry = some data ∧
          view'.stateData request.acc request.ns request.key = storedData data := by
  have hinv := inv_of_run hfiled hrun
  obtain ⟨view', heq, -, hdata⟩ := hinv.finalizeHookState_eq_ok hincrement hroom
  refine ⟨view', heq, fun request hrequest => ?_⟩
  obtain ⟨data, hlast⟩ := exists_lastSet hrequest
  refine ⟨?_, data, hlast, ?_⟩
  · rw [hinv.recorded.isModified_eq, show lastSet s.sets (_, _, _) = some data from hlast]
    rfl
  · rw [hdata, show lastSet s.sets (request.acc, request.ns, request.key) = some data from hlast]

theorem filed_emptyView (registry : HookRegistry) : Filed (emptyView registry) :=
  filed_of_empty (fun _ _ => rfl) (fun _ _ _ => rfl)

theorem roomy_emptyView (registry : HookRegistry) : Roomy (emptyView registry) := by
  intro acc ns
  show 0 + maxStateModifications < Directory.pageLimit false
  decide

/-- The call of `state_set` that sets the entry with key seven to the data nine. -/
def setSeven : SharedEvent := .call [0, 9, 7] (.stateSet 1 1 2 1)

/-- The call of `state_set` that deletes the entry with key seven. -/
def deleteSeven : SharedEvent := .call [0, 9, 7] (.stateSet 0 0 2 1)

/-- A state that the hook of the owner sets is written. -/
theorem setSeven_written :
    ∃ s, Run (fun s e s' => SharedEvent.Step s e s' ∧ e.Unseen s)
        ⟨emptyView noHooks, .ofHook ownerHook .empty, []⟩ [setSeven] s ∧ s.sets ≠ [] ∧
      ∃ view', finalizeHookState s.ctx.stateMap s.view
          = .ok (.tesSUCCESS, view', s.ctx.stateMap.modifiedEntries) ∧
        ∀ request ∈ s.sets,
          s.ctx.stateMap.isModified request.acc request.ns request.key = true ∧
          ∃ data, lastSet s.sets request.entry = some data ∧
            view'.stateData request.acc request.ns request.key = storedData data := by
  refine ⟨_, Run.single ⟨rfl, trivial⟩, ?_, ?_⟩
  · decide +kernel
  · exact finalizeHookState_loses_nothing (filed_emptyView noHooks) (by decide)
      (roomy_emptyView noHooks) (Run.single (e := setSeven) ⟨rfl, trivial⟩)

/-- Owner and stranger have one weak hook each; the owner's may set the stranger's states. -/
def sharingRegistry : HookRegistry where
  hooks acc :=
    if acc = owner ∨ acc = strangerHook.account then
      some [{
        hookHash := some (if acc = owner then ownerHook.hookHash else strangerHook.hookHash)
        hookNamespace := some strangerHook.hookNamespace
        hookGrants := some [⟨ownerHook.hookHash, none⟩]
        hookOn := none
        hookCanEmit := none
        flags := some 4
        hookParameters := none }]
    else none
  hookDefinition _ := some {
    hookNamespace := .zero
    hookOn := .zero
    hookCanEmit := none
    flags := 0
    hookParameters := some []
    createCode := []
    referenceCount := 1
    fee := 4
    hookCallbackFee := none }

/-- The owner's hook sets a state of the stranger and one of its own. -/
def sharingVm : Vm := fun invocation _ _ => {
  calls :=
    if invocation.hook.account = owner then
      let memory := [0, 9, 7] ++ strangerHook.hookNamespace.data ++ strangerHook.account.data
      [(memory, .stateForeignSet ⟨1, 1, 2, 1, 3, 32, 35, 20⟩), (memory, .stateSet 1 1 2 1)]
    else []
  emits := []
  hookParamOverrides := ∅
  hookSkips := []
  exitType := .accept
  executeAgainAsWeak := false
  threw := false }

/-- The stranger has the base reserve and the fee of its hook only. -/
def tightView : View :=
  (emptyView sharingRegistry).setAccount strangerHook.account
    { balance := 14, tshCollect := true, sequence := 1 }

def thirdPayment : STTx where
  transactionID := .ofByte 20
  txnType := 0
  account := .ofByte 9
  sequence := 1

/-- **A state that a hook has set is lost**: both sets succeed, then the stranger pays for its hook
and cannot afford the state. That of the owner is written. -/
theorem charged_reserve_loses_state :
    let weak := doTSH sharingVm thirdPayment false
      [(owner, false), (strangerHook.account, false)] [] tightView .start
    weak.1 = .tesSUCCESS ∧
      weak.2.2.executions.map (fun execution => (execution.accepted, execution.sets.length))
        = [(true, 2), (true, 0)] ∧
      weak.2.2.stateMap.modifiedEntries.length = 2 ∧
      ∃ committed, finalizeHookState weak.2.2.stateMap weak.2.1 = .ok committed ∧
        committed.1 = .tecINSUFFICIENT_RESERVE ∧ committed.2.2.length = 1 ∧
        committed.2.1.stateData owner strangerHook.hookNamespace (.ofByte 7) = some [9] ∧
        committed.2.1.stateData strangerHook.account strangerHook.hookNamespace (.ofByte 7)
          = none := by
  intro weak
  have hsorted : weak.2.2.stateMap.accounts.entries.Pairwise fun a b => a.1.data ≤ b.1.data := by
    decide +kernel
  unfold finalizeHookState modifiedEntries
  rw [sortedEntries, List.mergeSort_of_pairwise (hsorted.imp decide_eq_true)]
  decide +kernel

/-! ## Reads through the cache -/

/-- The value that a read returns and the memory that it leaves. -/
def readState (view : View) (memory : Memory) (args : GetArgs) (ctx : HookContext) :
    Except HookReturnCode Int × Memory :=
  let (ret, memory', _) := stateForeign view memory args ctx
  (ret, memory')

/-- What a read returns for the data that an entry has, if it exists. -/
def readData (memory : Memory) (args : GetArgs) : Option Blob → Except HookReturnCode Int × Memory
  | none => (.error .doesntExist, memory)
  | some data => writeOrReturn memory args.writePtr args.writeLen data

theorem Filed.exists_setStateCache (h : Filed view) (ctx : HookContext) {hookState : HookState}
    (hst : view.hookState acc key ns = some hookState) :
    ∃ ctx', setStateCache view acc ns key hookState.data false ctx = .ok ctx' := by
  have hsome : view.hookState acc key ns ≠ none := by
    rw [hst]
    exact nofun
  obtain ⟨accSLE, hroot⟩ := ne_none_iff_exists'.mp (h.owned hsome)
  obtain ⟨root, hdir⟩ := ne_none_iff_exists'.mp
    ((h.hookStateDir_ne_none_iff acc ns).mpr ⟨key, hsome⟩)
  unfold setStateCache
  simp only [Bool.false_eq_true, false_and, and_false, if_false, hroot, hdir, isNone_some,
    Bool.and_false]
  split
  · exact ⟨_, rfl⟩
  split
  · exact ⟨_, rfl⟩
  split <;> exact ⟨_, rfl⟩

theorem Filed.readState_eq (h : Filed view)
    (hargs : readGetArgs memory ctx.toHookId args = .ok (acc, ns, key))
    (hmiss : ctx.stateMap.lookupStateCache acc ns key = none) :
    readState view memory args ctx = readData memory args (view.stateData acc ns key) := by
  unfold readState stateForeign
  rw [hargs]
  dsimp only
  rw [hmiss]
  unfold View.stateData
  cases hst : view.hookState acc key ns with
  | none => rfl
  | some hookState =>
    obtain ⟨ctx', hcac⟩ := h.exists_setStateCache ctx hst
    dsimp only
    rw [hcac]
    rfl

theorem inv_of_calls (hfil : Filed view)
    (hcal : ∀ tx tshAccountID, SharedEvent.charge tx tshAccountID ∉ es)
    (hrun : Run SharedEvent.Step ⟨view, .ofHook hook .empty, []⟩ es s) :
    s.Inv view ∧ s.view = view := by
  revert hcal
  apply hrun.invariant (fun es s =>
    (∀ tx tshAccountID, SharedEvent.charge tx tshAccountID ∉ es) → s.Inv view ∧ s.view = view)
  · exact fun _ => ⟨inv_start hfil, rfl⟩
  intro es s e s' ih hstep hcal
  obtain ⟨hinv, hview⟩ := ih fun tx tshAccountID hmem =>
    hcal tx tshAccountID (mem_append_left _ hmem)
  cases e with
  | begin hook =>
    refine ⟨hinv.step hstep trivial, ?_⟩
    rw [show s' = _ from hstep]
    exact hview
  | call memory apiCall =>
    refine ⟨hinv.step hstep trivial, ?_⟩
    rw [show s' = _ from hstep]
    exact hview
  | charge tx tshAccountID =>
    exact absurd (mem_append_right _ mem_cons_self) (hcal tx tshAccountID)

/-- **Reads through the cache and reads of the ledger agree unless the entry was deleted**: after
any calls of hooks on a cache, a read gives what it gives on the ledger to which the cache is
written iff the last set of its entry has not deleted it. -/
theorem readState_transparent_iff {view : View} {hook : HookId} {es : List SharedEvent}
    (hfiled : Filed view) (hincrement : 0 ≤ view.fees.increment) (hroom : Roomy view)
    (hcalls : ∀ tx tshAccountID, SharedEvent.charge tx tshAccountID ∉ es)
    (hrun : Run SharedEvent.Step ⟨view, .ofHook hook .empty, []⟩ es s) :
    ∃ view', finalizeHookState s.ctx.stateMap view
        = .ok (.tesSUCCESS, view', s.ctx.stateMap.modifiedEntries) ∧
      ∀ memory args, readState view memory args s.ctx
          = readState view' memory args { s.ctx with stateMap := .empty } ↔
        ∀ acc ns key, readGetArgs memory s.ctx.toHookId args = .ok (acc, ns, key) →
          lastSet s.sets (acc, ns, key) ≠ some [] := by
  obtain ⟨hinv, hview⟩ := inv_of_calls hfiled hcalls hrun
  obtain ⟨view', heq, hfiled', hdata⟩ := hinv.finalizeHookState_eq_ok hincrement hroom
  rw [hview] at heq hdata
  refine ⟨view', heq, fun memory args => ?_⟩
  cases hargs : readGetArgs memory s.ctx.toHookId args with
  | error e =>
    -- both reads fail before they look at a state
    refine iff_of_true ?_ (fun acc ns key hok => by cases hok)
    unfold readState stateForeign
    rw [hargs]
  | ok place =>
    obtain ⟨acc, ns, key⟩ := place
    have hledger : readState view' memory args { s.ctx with stateMap := .empty }
        = readData memory args (view'.stateData acc ns key) := hfiled'.readState_eq hargs rfl
    have hgoal : (∀ acc' ns' key', Except.ok (ε := HookReturnCode) (acc, ns, key)
        = .ok (acc', ns', key') → lastSet s.sets (acc', ns', key') ≠ some []) ↔
          lastSet s.sets (acc, ns, key) ≠ some [] := by
      constructor
      · exact fun hall => hall acc ns key rfl
      · rintro hne _ _ _ ⟨⟩
        exact hne
    rw [hledger, hgoal, hdata]
    cases hlookup : s.ctx.stateMap.lookupStateCache acc ns key with
    | none =>
      have hlast : lastSet s.sets (acc, ns, key) = none :=
        hinv.recorded.lastSet_eq_none (by rw [hlookup]; rintro data ⟨⟩)
      rw [hfiled.readState_eq hargs hlookup, hlast]
      exact iff_of_true rfl (by rintro ⟨⟩)
    | some entry =>
      obtain ⟨modified, data⟩ := entry
      rw [show readState view memory args s.ctx = readData memory args (some data) by
        unfold readState stateForeign
        rw [hargs]
        dsimp only
        rw [hlookup]
        rfl]
      cases modified with
      | false =>
        have hlast : lastSet s.sets (acc, ns, key) = none :=
          hinv.recorded.lastSet_eq_none (by rw [hlookup]; rintro data ⟨⟩)
        have hclean := hinv.cached.clean hlookup
        rw [hview] at hclean
        rw [hlast, hclean]
        exact iff_of_true rfl (by rintro ⟨⟩)
      | true =>
        rw [(hinv.recorded acc ns key data).mp hlookup]
        dsimp only
        unfold storedData
        by_cases hempty : data = []
        · subst hempty
          rw [if_pos rfl]
          exact iff_of_false (fun h => (by cases congrArg Prod.fst h)) (not_not.mpr rfl)
        · rw [if_neg hempty]
          exact iff_of_true rfl (fun hsome => hempty (Option.some.inj hsome))

/-- A read of the entry with key seven. -/
def readSeven : GetArgs := ⟨0, 1, 2, 1, 0, 0, 0, 0⟩

/-- After the entry was set, it reads the same through the cache and on the ledger. -/
theorem setSeven_transparent :
    ∃ s, Run SharedEvent.Step ⟨emptyView noHooks, .ofHook ownerHook .empty, []⟩ [setSeven] s ∧
      ∃ view', finalizeHookState s.ctx.stateMap (emptyView noHooks)
          = .ok (.tesSUCCESS, view', s.ctx.stateMap.modifiedEntries) ∧
        readState (emptyView noHooks) [0, 9, 7] readSeven s.ctx
          = readState view' [0, 9, 7] readSeven { s.ctx with stateMap := .empty } := by
  have hcalls : ∀ tx tshAccountID, SharedEvent.charge tx tshAccountID ∉ [setSeven] := by
    rintro _ _ (_ | ⟨_, ⟨⟩⟩)
  refine ⟨_, Run.single rfl, ?_⟩
  obtain ⟨view', heq, hread⟩ := readState_transparent_iff (filed_emptyView noHooks) (by decide)
    (roomy_emptyView noHooks) hcalls (Run.single rfl)
  refine ⟨view', heq, (hread [0, 9, 7] readSeven).mpr ?_⟩
  rintro _ _ _ ⟨⟩
  decide +kernel

/-- **A deleted entry reads as empty**: through the cache a read returns zero, and on the ledger to
which it is written the entry does not exist. -/
theorem deleted_reads_empty :
    ∃ s, Run SharedEvent.Step ⟨emptyView noHooks, .ofHook ownerHook .empty, []⟩
        [setSeven, deleteSeven] s ∧
      readState (emptyView noHooks) [0, 9, 7] readSeven s.ctx = (.ok 0, [0, 9, 7]) ∧
      ∃ committed, finalizeHookState s.ctx.stateMap (emptyView noHooks) = .ok committed ∧
        committed.1 = .tesSUCCESS ∧
        readState committed.2.1 [0, 9, 7] readSeven { s.ctx with stateMap := .empty }
          = (.error .doesntExist, [0, 9, 7]) := by
  refine ⟨_, (Run.single rfl).snoc rfl, ?_, ?_⟩ <;> decide +kernel

end

end Xahau.Hook
