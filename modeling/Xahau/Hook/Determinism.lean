import Xahau.Hook.Host
import Xahau.Hook.WeakPhase

/-! # What hooks can tell of a node

All nodes must come to the same ledger. A program is a virtual machine in the sense of `Hook.apply`.
Two nodes run every program alike exactly if their open ledgers charge the same fee for every
transaction and their databases hold the same transactions. -/

namespace Xahau.Hook

open Checked Dialogue List

variable {env : HostEnv} {node node' : Node} {apply : ApplyContext}

/-! ## Programs as virtual machines -/

/-- The call of a state function, if a function is one and there is a memory. -/
def stateCall? (call : Memory × ApiFunction) : Option (Memory × Call) :=
  if call.1 = [] then none
  else
    match call.2 with
    | .states c => some (call.1, c)
    | _ => none

section

variable (env : HostEnv) (node : Node) (apply : ApplyContext) (program : Program)

/-- The call of `emit` that is made once the transaction is read from the memory. -/
def emitCall? (rules : Rules) (ctx : RunContext) (call : Memory × ApiFunction) : Option EmitCall :=
  if call.1 = [] then none
  else
    match call.2 with
    | .emit writePtr writeLen readPtr readLen =>
      match readEmit env call.1 writePtr writeLen readPtr readLen ctx with
      | .error _ => none
      | .ok tx => some (emitCall env node rules tx ctx)
    | _ => none

/-- The calls of state functions of a program, in turn. -/
def stateCalls (ctx : RunContext) : List (Memory × Call) :=
  (program.asked (hostCall env node apply) ctx).filterMap fun asked => stateCall? asked.2

/-- The calls of `emit` of a program, in turn. -/
def emitCalls (ctx : RunContext) : List EmitCall :=
  (program.asked (hostCall env node apply) ctx).filterMap fun asked =>
    emitCall? env node apply.view.rules asked.1 asked.2

/-- The machine of a node. The code of a hook is a program once the arguments of `hook::apply` are
known. -/
def machine (otxn : STTx) (code : Invocation → Program) : Vm :=
  fun invocation view stateMap =>
    let ctx := RunContext.start invocation stateMap
    let run := runHook env node ⟨view, otxn⟩ (code invocation) ctx
    { calls := stateCalls env node ⟨view, otxn⟩ (code invocation) ctx
      emits := emitCalls env node ⟨view, otxn⟩ (code invocation) ctx
      hookParamOverrides := run.2.2.hookParamOverrides
      hookSkips := run.2.2.hookSkips
      exitType := run.2.1.exitType
      executeAgainAsWeak := run.2.2.executeAgainAsWeak
      threw := run.2.1.threw }

/-! ## Calls -/

section

variable (tx : STTx) (memory : Memory) (writePtr writeLen : Nat) (ctx : RunContext)

theorem getFreeSlot_frame : ∃ scratch, (getFreeSlot ctx).2 = { ctx with toScratch := scratch } := by
  unfold getFreeSlot
  split <;> exact ⟨_, rfl⟩

theorem placeSlot_frame (slotInto : Nat) (entry : SlotEntry) (ctx : RunContext) :
    ∃ scratch, (placeSlot slotInto entry ctx).2 = { ctx with toScratch := scratch } := by
  unfold placeSlot
  split
  · exact ⟨_, rfl⟩
  obtain ⟨scratch, hfree⟩ := getFreeSlot_frame ctx
  split
  next hget =>
    rw [hget] at hfree
    exact ⟨scratch, hfree⟩
  rename_i hget
  rw [hget] at hfree
  dsimp only at hfree ⊢
  rw [hfree]
  exact ⟨_, rfl⟩

theorem slotSet_frame (view : View) (memory : Memory) (readPtr readLen slotInto : Nat)
    (ctx : RunContext) :
    ∃ scratch, (slotSet env node view memory readPtr readLen slotInto ctx).2
      = { ctx with toScratch := scratch } := by
  unfold slotSet
  split_ifs
  · exact ⟨_, rfl⟩
  · exact ⟨_, rfl⟩
  · exact ⟨_, rfl⟩
  split
  · exact ⟨_, rfl⟩
  · exact placeSlot_frame ..

/-- A nonce is used up. -/
def RunContext.useNonce : RunContext :=
  { ctx with
    emitNonceCounter := ctx.emitNonceCounter + 1
    nonceUsed := env.sha512Half (nonceArgs tx ctx) :: ctx.nonceUsed }

theorem etxnNonce_frame :
    (etxnNonce env tx memory writePtr writeLen ctx).2 = ctx ∨
      ctx.emitNonceCounter ≤ maxNonce ∧
        (etxnNonce env tx memory writePtr writeLen ctx).2 = ctx.useNonce env tx := by
  unfold etxnNonce
  split_ifs with hbou hcou hlen
  · exact .inl rfl
  · exact .inl rfl
  · exact .inl rfl
  · exact .inr ⟨not_lt.mp hcou, rfl⟩

theorem etxnDetails_frame :
    (etxnDetails env tx memory writePtr writeLen ctx).2 = ctx ∨
      ctx.emitNonceCounter ≤ maxNonce ∧
        (etxnDetails env tx memory writePtr writeLen ctx).2 = ctx.useNonce env tx := by
  unfold etxnDetails
  dsimp only
  generalize etxnBurden tx ctx.expectedEtxnCount.toNat = burden
  split_ifs with hbou hlen hexp hbur
  · exact .inl rfl
  · exact .inl rfl
  · exact .inl rfl
  · exact .inl rfl
  have hnon := etxnNonce_frame env tx (memory.write writePtr (detailsBegin tx burden))
    (writePtr + (detailsBegin tx burden).length) 32 ctx
  split
  all_goals
    rename_i hget
    rw [hget] at hnon
    exact hnon

end

theorem emitTxn_frame (memory : Memory) (writePtr writeLen readPtr readLen : Nat) (ctx : RunContext)
    :
    (∃ code, readEmit env memory writePtr writeLen readPtr readLen ctx = .error code ∧
      (emitTxn env node apply memory writePtr writeLen readPtr readLen ctx).2 = ctx) ∨
    ∃ tx, readEmit env memory writePtr writeLen readPtr readLen ctx = .ok tx ∧
      (emitTxn env node apply memory writePtr writeLen readPtr readLen ctx).2
        = { ctx with
            emittedTxn := emitAll (emitContext apply ctx) [emitCall env node apply.view.rules tx ctx]
              ctx.emittedTxn } := by
  unfold emitTxn
  cases hread : readEmit env memory writePtr writeLen readPtr readLen ctx with
  | error code => exact .inl ⟨code, rfl, rfl⟩
  | ok tx =>
    refine .inr ⟨tx, rfl, ?_⟩
    dsimp only [emitAll]
    cases hemit : emit (emitContext apply ctx) ctx.emittedTxn.length
      (emitCall env node apply.view.rules tx ctx) with
    | error code => rfl
    | ok u => rfl

/-- **What a call can do to the context.** A state function changes the cache, `emit` adds a
transaction, nonces are used up, and the rest changes what no nonce or result depends on. -/
theorem hostCall_cases (ctx : RunContext) (call : Memory × ApiFunction) :
    (∃ memory c, stateCall? call = some (memory, c) ∧
      emitCall? env node apply.view.rules ctx call = none ∧
      (hostCall env node apply ctx call).2
        = { ctx with
            toHookContext := (ApiCall.mk ctx.toHookId apply.view memory c).run ctx.toHookContext }) ∨
    (∃ c, stateCall? call = none ∧ emitCall? env node apply.view.rules ctx call = some c ∧
      (hostCall env node apply ctx call).2
        = { ctx with emittedTxn := emitAll (emitContext apply ctx) [c] ctx.emittedTxn }) ∨
    stateCall? call = none ∧ emitCall? env node apply.view.rules ctx call = none ∧
      (ctx.emitNonceCounter ≤ maxNonce ∧
          (hostCall env node apply ctx call).2 = ctx.useNonce env apply.tx ∨
        ∃ scratch expectedEtxnCount, (hostCall env node apply ctx call).2
          = { ctx with toScratch := scratch, expectedEtxnCount }) := by
  obtain ⟨memory, f⟩ := call
  have hidle : ∀ {ctx'}, ctx' = ctx → ∃ scratch expectedEtxnCount,
      ctx' = { ctx with toScratch := scratch, expectedEtxnCount } := fun h => ⟨_, _, h⟩
  unfold hostCall stateCall? emitCall?
  by_cases hmemo : memory = []
  · refine .inr (.inr ⟨if_pos hmemo, if_pos hmemo, .inr ?_⟩)
    exact hidle (by rw [if_pos hmemo])
  simp only [if_neg hmemo]
  cases f with
  | states c => exact .inl ⟨memory, c, rfl, rfl, rfl⟩
  | emit writePtr writeLen readPtr readLen =>
    right
    rcases emitTxn_frame env node apply memory writePtr writeLen readPtr readLen ctx with
      ⟨code, hread, hctx⟩ | ⟨tx, hread, hctx⟩
    · exact .inr ⟨rfl, by dsimp only; rw [hread], .inr (hidle hctx)⟩
    · exact .inl ⟨_, rfl, by dsimp only; rw [hread], hctx⟩
  | etxnReserve count =>
    refine .inr (.inr ⟨rfl, rfl, .inr ?_⟩)
    unfold etxnReserve
    dsimp only
    split_ifs
    · exact hidle rfl
    · exact hidle rfl
    · exact hidle rfl
    · exact ⟨ctx.toScratch, count, rfl⟩
  | etxnNonce writePtr writeLen =>
    refine .inr (.inr ⟨rfl, rfl, ?_⟩)
    exact (etxnNonce_frame env apply.tx memory writePtr writeLen ctx).symm.imp_right hidle
  | etxnDetails writePtr writeLen =>
    refine .inr (.inr ⟨rfl, rfl, ?_⟩)
    exact (etxnDetails_frame env apply.tx memory writePtr writeLen ctx).symm.imp_right hidle
  | slotSet readPtr readLen slotInto =>
    obtain ⟨scratch, hctx⟩ := slotSet_frame env node apply.view memory readPtr readLen slotInto ctx
    exact .inr (.inr ⟨rfl, rfl, .inr ⟨scratch, ctx.expectedEtxnCount, hctx⟩⟩)
  | slotClear slotNo =>
    refine .inr (.inr ⟨rfl, rfl, .inr ?_⟩)
    dsimp only [slotClear]
    split_ifs <;> exact ⟨_, _, rfl⟩
  | other f => exact .inr (.inr ⟨rfl, rfl, .inr ⟨(f apply ctx memory).2, ctx.expectedEtxnCount, rfl⟩⟩)
  | etxnFeeBase _ _ | slot _ _ _ | trace _ _ _ _ _ | traceNum _ _ _ | traceFloat _ _ _ =>
    exact .inr (.inr ⟨rfl, rfl, .inr (hidle rfl)⟩)

end

/-! ## Runs -/

variable {ctx : RunContext}

theorem emitAll_cons (emitCtx : EmitContext) (call : EmitCall) (calls : List EmitCall)
    (emitted : List STTx) :
    emitAll emitCtx (call :: calls) emitted
      = emitAll emitCtx calls (emitAll emitCtx [call] emitted) := by
  rw [emitAll, emitAll]
  cases emit emitCtx emitted.length call with
  | error code => rfl
  | ok u => rfl

theorem emitContext_hostCall (call : Memory × ApiFunction) :
    emitContext apply (hostCall env node apply ctx call).2 = emitContext apply ctx := by
  rcases hostCall_cases env node apply ctx call with ⟨memory, c, -, -, hctx⟩ | ⟨c, -, -, hctx⟩ |
    ⟨-, -, ⟨-, hctx⟩ | ⟨scratch, count, hctx⟩⟩
  · have hid := ApiCall.toHookId_run (c := ⟨ctx.toHookId, apply.view, memory, c⟩) rfl
    rw [hctx]
    simp only [emitContext, hid]
  all_goals
    rw [hctx]
    rfl

theorem toHookId_hostCall (call : Memory × ApiFunction) :
    (hostCall env node apply ctx call).2.toHookId = ctx.toHookId :=
  congrArg EmitContext.hook (emitContext_hostCall call)

/-- **The cache that a program leaves** is what its calls of state functions leave. -/
theorem toHookContext_runHook (program : Program) :
    (runHook env node apply program ctx).2.2.toHookContext
      = (runCalls ctx.toHookId apply.view (stateCalls env node apply program ctx)
          ctx.toHookContext).1 := by
  induction program generalizing ctx with
  | done value => rfl
  | ask call next ih =>
    have hrest := @ih (hostCall env node apply ctx call).1 (hostCall env node apply ctx call).2
    rw [toHookId_hostCall] at hrest
    simp only [runHook, stateCalls] at hrest
    simp only [runHook, stateCalls, run_ask, asked, filterMap_cons]
    rw [hrest]
    rcases hostCall_cases env node apply ctx call with ⟨memory, c, hst, -, hctx⟩ |
      ⟨c, hst, -, hctx⟩ | ⟨hst, -, ⟨-, hctx⟩ | ⟨scratch, count, hctx⟩⟩
    · rw [hst, hctx]
      rfl
    · rw [hst, hctx]
    · rw [hst, hctx]
      rfl
    · rw [hst, hctx]

/-- **What a program emits** is what its calls of `emit` emit. -/
theorem emittedTxn_runHook (program : Program) :
    (runHook env node apply program ctx).2.2.emittedTxn
      = emitAll (emitContext apply ctx) (emitCalls env node apply program ctx) ctx.emittedTxn := by
  induction program generalizing ctx with
  | done value => rfl
  | ask call next ih =>
    have hrest := @ih (hostCall env node apply ctx call).1 (hostCall env node apply ctx call).2
    rw [emitContext_hostCall] at hrest
    simp only [runHook, emitCalls] at hrest
    simp only [runHook, emitCalls, run_ask, asked, filterMap_cons]
    rw [hrest]
    rcases hostCall_cases env node apply ctx call with ⟨memory, c, -, hemit, hctx⟩ |
      ⟨c, -, hemit, hctx⟩ | ⟨-, hemit, ⟨-, hctx⟩ | ⟨scratch, count, hctx⟩⟩
    · rw [hemit, hctx]
    · rw [hemit]
      rw [emitAll_cons, hctx]
    · rw [hemit, hctx]
      rfl
    · rw [hemit, hctx]

/-- **`hook::apply` of a program** returns what the run of the program leaves. -/
theorem apply_machine (otxn : STTx) (code : Invocation → Program) (invocation : Invocation)
    (view : View) (stateMap : HookStateMap) :
    Hook.apply (machine env node otxn code) otxn invocation view stateMap =
      let start := RunContext.start invocation stateMap
      let run := runHook env node ⟨view, otxn⟩ (code invocation) start
      ({ result := {
            account := invocation.hook.account
            hookHash := invocation.hook.hookHash
            emittedTxn := run.2.2.emittedTxn
            hookParamOverrides := run.2.2.hookParamOverrides
            hookSkips := run.2.2.hookSkips
            exitType := run.2.1.exitType
            executeAgainAsWeak := run.2.2.executeAgainAsWeak }
         threw := run.2.1.threw
         sets := (runCalls invocation.hook view
            (stateCalls env node ⟨view, otxn⟩ (code invocation) start)
            (.ofHook invocation.hook stateMap)).2 }, run.2.2.stateMap) := by
  dsimp only
  rw [emittedTxn_runHook, toHookContext_runHook]
  rfl

/-! ## Two nodes -/

/-- The open ledgers of two nodes charge the same fee for every transaction. -/
def SameFees (env : HostEnv) (node node' : Node) : Prop :=
  ∀ blob tx, env.deserialize blob = some tx →
    openLedgerFee env node tx = openLedgerFee env node' tx

variable {blob data : Blob} {memory : Memory} {length : Nat} {tx : STTx} {key : UInt256}

theorem preflightEmit_congr {rules : Rules}
    (hhooks : rules.enabled .featureHooks = true) (htx : tx.isEmittedTxn = true) :
    preflightEmit env node rules tx = preflightEmit env node' rules tx := by
  have hfirst : preflight1 node rules tx = preflight1 node' rules tx := by
    simp only [preflight1, hhooks, or_true, and_self, if_true]
  have hsig : isSigBad env node rules tx = isSigBad env node' rules tx := by
    simp only [isSigBad, hhooks, htx, and_self, if_true]
  rw [preflightEmit, preflightEmit, hfirst, hsig]

theorem emit_congr {emitCtx : EmitContext} {count : Nat} {call : EmitCall} {preflight : Ter}
    (h : call.tx.isEmittedTxn = true → call.preflight = preflight) :
    emit emitCtx count call = emit emitCtx count { call with preflight } := by
  cases hdet : call.tx.emitDetails with
  | none =>
    unfold emit
    rw [hdet]
  | some emitDetails =>
    have hs : call.preflight = preflight := h (by rw [STTx.isEmittedTxn, hdet]; rfl)
    rw [← hs]

theorem deserialize_of_readEmit {writePtr writeLen readPtr readLen : Nat}
    (h : readEmit env memory writePtr writeLen readPtr readLen ctx = .ok tx) :
    env.deserialize (memory.slice readPtr readLen) = some tx := by
  unfold readEmit at h
  simp only [bind_eq_ok] at h
  obtain ⟨-, -, -, -, -, -, -, -, -, -, h⟩ := h
  split at h
  · cases h
  next hread =>
    rw [hread, Except.ok.inj h]

section

variable (hhooks : apply.view.rules.enabled .featureHooks = true) (hfees : SameFees env node node')

include hhooks hfees

theorem emitTxn_congr (memory : Memory) (writePtr writeLen readPtr readLen : Nat)
    (ctx : RunContext) :
    emitTxn env node apply memory writePtr writeLen readPtr readLen ctx
      = emitTxn env node' apply memory writePtr writeLen readPtr readLen ctx := by
  unfold emitTxn
  cases hread : readEmit env memory writePtr writeLen readPtr readLen ctx with
  | error code => rfl
  | ok tx =>
    have hfee := hfees _ tx (deserialize_of_readEmit hread)
    have hpre : tx.isEmittedTxn = true → preflightEmit env node apply.view.rules tx
        = preflightEmit env node' apply.view.rules tx := preflightEmit_congr hhooks
    have hemit : emit (emitContext apply ctx) ctx.emittedTxn.length
        (emitCall env node apply.view.rules tx ctx)
        = emit (emitContext apply ctx) ctx.emittedTxn.length
          (emitCall env node' apply.view.rules tx ctx) := by
      rw [emit_congr hpre]
      simp only [emitCall, hfee]
    dsimp only
    rw [hemit]

/-- **Nodes with the same fees and the same transactions answer every call alike.** -/
theorem hostCall_congr (htra : node.transactions = node'.transactions)
    (ctx : RunContext) (call : Memory × ApiFunction) :
    hostCall env node apply ctx call = hostCall env node' apply ctx call := by
  obtain ⟨memory, f⟩ := call
  unfold hostCall
  by_cases hmemo : memory = []
  · simp only [if_pos hmemo]
  cases f with
  | emit writePtr writeLen readPtr readLen => dsimp only; rw [emitTxn_congr hhooks hfees]
  | etxnFeeBase readPtr readLen =>
    have hs : etxnFeeBase env node memory readPtr readLen ctx
        = etxnFeeBase env node' memory readPtr readLen ctx := by
      unfold etxnFeeBase
      cases hread : env.deserialize (memory.slice readPtr readLen) with
      | none => rfl
      | some tx =>
        dsimp only
        rw [hfees _ tx hread]
    dsimp only
    rw [hs]
  | slotSet readPtr readLen slotInto =>
    dsimp only [slotSet, loadSlot]
    rw [htra]
  | trace _ _ _ _ _ | traceNum _ _ _ | traceFloat _ _ _ =>
    dsimp only [traced]
    split_ifs <;> rfl
  | _ => rfl

end

/-! ## Programs that ask the node -/

/-- A program that asks for the fee of a transaction. -/
def askFee (blob : Blob) : Program :=
  .ask ([0], .etxnReserve 1) fun _ =>
    .ask (0 :: (blob ++ [0]), .etxnFeeBase 1 blob.length) fun _ => .done default

/-- A program that asks for a transaction, of at most the given length. -/
def askTransaction (key : UInt256) (length : Nat) : Program :=
  .ask (key.data, .slotSet 0 32 1) fun _ =>
    .ask (List.replicate (length + 2) 0, .slot 1 (length + 1) 1) fun _ => .done default

variable {invocation : Invocation} {stateMap : HookStateMap}

theorem etxnFeeBase_eq (h : env.deserialize blob = some tx) (hcount : ctx.expectedEtxnCount = 1) :
    etxnFeeBase env node (0 :: (blob ++ [0])) 1 blob.length ctx = .ok (openLedgerFee env node tx) := by
  have hsli : Memory.slice (0 :: (blob ++ [0])) 1 blob.length = blob := by simp [Memory.slice]
  have hbou : ¬ notInBounds (0 :: (blob ++ [0])) 1 blob.length := by
    simp only [notInBounds, length_cons, length_append, length_nil]
    omega
  unfold etxnFeeBase
  rw [if_neg hbou, hcount, if_neg (by decide), hsli, h]

theorem replies_askFee (h : env.deserialize blob = some tx) :
    (runHook env node apply (askFee blob) (.start invocation stateMap)).1
      = [(1, [0]), (openLedgerFee env node tx, 0 :: (blob ++ [0]))] := by
  simp only [runHook, askFee, run_ask, run_done, hostCall,
    if_neg (cons_ne_nil _ _)]
  rw [etxnFeeBase_eq h rfl]
  rfl

theorem fromVoid_data (key : UInt256) : fromVoid key.data 0 = key := by
  have htake : key.data.take 32 = key.data := take_of_length_le key.data_length.le
  apply BaseUInt.ext
  simp only [fromVoid, drop_zero]
  rw [takeD_eq_take _ key.data_length.ge, htake]

theorem hostCall_slotSet (key : UInt256) (ctx : RunContext) :
    hostCall env node apply ctx (key.data, .slotSet 0 32 1)
      = match node.transactions key with
        | none => ((-5, key.data), ctx)
        | some data => ((1, key.data), { ctx with slot := ctx.slot.insert 1 ⟨data, false⟩ }) := by
  have hmemo : key.data ≠ [] := by
    intro h
    have hlen := key.data_length
    rw [h] at hlen
    cases hlen
  have hbou : ¬ notInBounds key.data 0 32 := by
    rw [notInBounds, key.data_length]
    decide
  unfold hostCall slotSet
  dsimp only
  rw [if_neg hmemo, if_neg hbou, if_neg (by decide), if_neg (by simp), loadSlot,
    if_neg (by decide), fromVoid_data]
  cases node.transactions key with
  | none => rfl
  | some data => rfl

theorem write_nil (memory : Memory) (ptr : Nat) : memory.write ptr [] = memory := by
  simp [Memory.write]

theorem writeOrReturn_of_fits (h : data.length ≤ length) :
    writeOrReturn (List.replicate (length + 2) 0) 1 (length + 1) data
      = (.ok data.length, Memory.write (List.replicate (length + 2) 0) 1 data) := by
  unfold writeOrReturn
  split
  next hemp =>
    rw [length_eq_zero_iff.mp hemp, write_nil]
    rfl
  · rw [if_neg (by decide), if_neg (by omega), if_neg (by simp; omega)]

theorem replies_askTransaction
    (h : node.transactions key = some data) (hlen : data.length ≤ length) :
    (runHook env node apply (askTransaction key length) ctx).1
      = [(1, key.data),
        ((data.length : Int), Memory.write (List.replicate (length + 2) 0) 1 data)] := by
  have hread (memory : Memory) (slot : AList fun _ : Nat => SlotEntry)
      (hmemo : memory = List.replicate (length + 2) 0) :
      readSlot memory 1 (length + 1) 1 { ctx with slot := slot.insert 1 ⟨data, false⟩ }
        = (.ok data.length, memory.write 1 data) := by
    unfold readSlot
    rw [if_neg (by omega), if_neg, if_neg (by omega)]
    · rw [AList.lookup_insert]
      dsimp only
      rw [if_neg (by simp), hmemo]
      exact writeOrReturn_of_fits hlen
    · rw [hmemo, notInBounds, length_replicate]
      omega
  simp only [runHook, askTransaction, run_ask, run_done]
  rw [hostCall_slotSet, h]
  dsimp only [hostCall]
  rw [if_neg (by simp), hread _ _ rfl]
  rfl

theorem head_replies_askTransaction (length : Nat) (h : node.transactions key = none) :
    (runHook env node apply (askTransaction key length) ctx).1.head? = some (-5, key.data) := by
  simp only [runHook, askTransaction, run_ask]
  rw [hostCall_slotSet, h]
  rfl

theorem write_injective {ptr : Nat} {data' : Blob}
    (hlen : data.length = data'.length) (h : memory.write ptr data = memory.write ptr data') :
    data = data' := by
  simp only [Memory.write, append_assoc] at h
  exact (append_inj (append_cancel_left h) hlen).1

theorem known_of_replies (hkno : node.transactions key = some data)
    (h : ∀ program, (runHook env node apply program ctx).1 = (runHook env node' apply program ctx).1) :
    node'.transactions key = some data := by
  cases hkno' : node'.transactions key with
  | none =>
    have hs := congrArg List.head? (h (askTransaction key data.length))
    rw [replies_askTransaction hkno le_rfl, head_replies_askTransaction _ hkno'] at hs
    simp at hs
  | some data' =>
    have hs := h (askTransaction key (data.length + data'.length))
    rw [replies_askTransaction hkno (Nat.le_add_right ..),
      replies_askTransaction hkno' (Nat.le_add_left ..)] at hs
    simp only [List.cons.injEq, Prod.mk.injEq, Nat.cast_inj, and_true, true_and] at hs
    rw [write_injective hs.1 hs.2]

/-! ## Determinism -/

/-- What is seen of a run: what the functions return and write, and what `hook::apply` returns and
leaves in the cache. -/
def observed (env : HostEnv) (node : Node) (apply : ApplyContext) (code : Invocation → Program)
    (invocation : Invocation) (stateMap : HookStateMap) :
    List (Int × Memory) × Execution × HookStateMap :=
  ((runHook env node apply (code invocation) (.start invocation stateMap)).1,
    Hook.apply (machine env node apply.tx code) apply.tx invocation apply.view stateMap)

/-- **Hooks run alike on two nodes exactly if the nodes charge the same fees and know the same
transactions.** A node's hash router and log level are hidden from hooks. -/
theorem observed_eq_iff (env : HostEnv) (node node' : Node) :
    (∀ apply : ApplyContext, apply.view.rules.enabled .featureHooks = true →
        ∀ code invocation stateMap, observed env node apply code invocation stateMap
          = observed env node' apply code invocation stateMap) ↔
      SameFees env node node' ∧ node.transactions = node'.transactions := by
  constructor
  · intro h
    -- every program can be the code of the hook
    have hreplies (program : Program) :
        (runHook env node ⟨emptyView collectRegistry, strangerPayment⟩ program
          (.start ownerInvocation .empty)).1
        = (runHook env node' ⟨emptyView collectRegistry, strangerPayment⟩ program
          (.start ownerInvocation .empty)).1 :=
      (Prod.mk.inj (h ⟨emptyView collectRegistry, strangerPayment⟩ rfl (fun _ => program)
        ownerInvocation .empty)).1
    constructor
    · intro blob tx hread
      have hsame := hreplies (askFee blob)
      rw [replies_askFee hread, replies_askFee hread] at hsame
      simp only [List.cons.injEq, Prod.mk.injEq, and_true, true_and] at hsame
      exact hsame
    · funext key
      refine Option.ext fun data => ⟨fun hknown => ?_, fun hknown => ?_⟩
      · exact known_of_replies hknown hreplies
      · exact known_of_replies hknown fun program => (hreplies program).symm
  · rintro ⟨hfees, htransactions⟩ apply hhooks code invocation stateMap
    have hsame : hostCall env node apply = hostCall env node' apply := by
      funext ctx call
      exact hostCall_congr hhooks hfees htransactions ctx call
    simp only [observed, apply_machine, runHook, stateCalls]
    rw [hsame]

/-! ## Two open ledgers -/

/-- The memory of the hook holds a transaction with a fee of ten drops. -/
def emittingEnv : HostEnv where
  deserialize _ := some { emittedByOwner with fee := 10 }
  escrowKey _ _ := .zero
  readEntry _ _ := none
  sha512Half _ := .ofByte 31
  checkSign _ _ := true
  preflight _ _ := .tesSUCCESS

/-- A node in whose open ledger the base fee is as given. -/
def nodeCharging (base : Int) : Node where
  openLedger := { emptyView collectRegistry with fees := { base, reserve := 10, increment := 1 } }
  transactions _ := none
  routerFlags _ := 0
  traceLog := false

/-- A hook that emits the transaction and accepts. -/
def emitOne : Program :=
  let memory := List.replicate 40 0
  .ask (memory, .etxnReserve 1) fun _ =>
    .ask (memory, .etxnNonce 1 32) fun _ =>
      .ask (memory, .emit 1 32 33 1) fun _ => .done ⟨.accept, false⟩

/-- The node with the higher base fee does not emit what the other one emits: the results differ. -/
theorem emitted_differs :
    ((observed emittingEnv (nodeCharging 10) ⟨emptyView collectRegistry, strangerPayment⟩
      (fun _ => emitOne) ownerInvocation .empty).2.1.result.emittedTxn
        = [{ emittedByOwner with fee := 10 }]) ∧
    (observed emittingEnv (nodeCharging 20) ⟨emptyView collectRegistry, strangerPayment⟩
      (fun _ => emitOne) ownerInvocation .empty).2.1.result.emittedTxn = [] := by
  decide +kernel

end Xahau.Hook
