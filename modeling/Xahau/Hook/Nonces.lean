import Xahau.Hook.Determinism

/-! # Nonces (`etxn_nonce` in `applyHook.cpp`)

A nonce is a hash of a counter and of what tells an execution apart: the account, the hook, whether
it is run strongly, whether it is a callback, and its position in the chain. Executions that differ
in one of these have no nonce in common. -/

namespace Xahau.Hook

open Checked List

variable {env : HostEnv} {node : Node} {tx : STTx} {code : Invocation → Program}

/-- What tells the executions for a transaction apart, as far as nonces go. -/
structure NonceKey where
  account : AccountID
  hookHash : UInt256
  flags : Nat
  deriving DecidableEq

def RunContext.nonceKey (ctx : RunContext) : NonceKey :=
  ⟨ctx.account, ctx.hookHash, nonceFlags ctx.isStrong ctx.isCallback ctx.hookChainPosition⟩

section

variable (env : HostEnv) (node : Node) (tx : STTx) (code : Invocation → Program)
  (invocation : Invocation) (view : View) (stateMap : HookStateMap)

def Invocation.nonceKey : NonceKey :=
  ⟨invocation.hook.account, invocation.hook.hookHash,
    nonceFlags invocation.isStrong invocation.isCallback (invocation.hookChainPosition % 256)⟩

/-- What is hashed for a key with a number. -/
def argsAt (key : NonceKey) (counter : Nat) : NonceArgs :=
  ⟨tx.transactionID, counter, key.account, key.hookHash, key.flags⟩

/-- The nonce of a key with a number. -/
def nonceAt (key : NonceKey) (counter : Nat) : UInt256 :=
  env.sha512Half (argsAt tx key counter)

/-- What can be hashed for a transaction by executions with the given keys. -/
def hashed (keys : Set NonceKey) : Set NonceArgs :=
  {args | ∃ key ∈ keys, ∃ counter ≤ maxNonce, args = argsAt tx key counter}

/-- The nonces that an execution is given, latest first. -/
def nonces : List UInt256 :=
  (runHook env node ⟨view, tx⟩ (code invocation) (.start invocation stateMap)).2.2.nonceUsed

/-- The transactions that an execution emits. -/
def emittedTxns : List STTx :=
  (apply (machine env node tx code) tx invocation view stateMap).1.result.emittedTxn

end

/-! ## One execution -/

/-- What holds of the nonces while a hook runs. -/
structure NonceInv (env : HostEnv) (tx : STTx) (key : NonceKey) (ctx : RunContext) : Prop where
  nonceKey : ctx.nonceKey = key
  counter : ctx.emitNonceCounter ≤ maxNonce + 1
  nonceUsed : ctx.nonceUsed = ((List.range ctx.emitNonceCounter).map (nonceAt env tx key)).reverse
  emitted : ∀ t ∈ ctx.emittedTxn, ∃ d, t.emitDetails = some d ∧ d.emitNonce ∈ ctx.nonceUsed

theorem NonceInv.start (invocation : Invocation) (stateMap : HookStateMap) :
    NonceInv env tx invocation.nonceKey (.start invocation stateMap) :=
  ⟨rfl, Nat.zero_le _, rfl, fun _ h => absurd h not_mem_nil⟩

/-- **Every call keeps the invariant.** -/
theorem NonceInv.hostCall (apply : ApplyContext) {key : NonceKey} {ctx : RunContext}
    (hinv : NonceInv env apply.tx key ctx) (call : Memory × ApiFunction) :
    NonceInv env apply.tx key (hostCall env node apply ctx call).2 := by
  obtain ⟨hkey, hcou, hused, hemi⟩ := hinv
  rcases hostCall_cases env node apply ctx call with ⟨memory, c, -, -, hctx⟩ |
    ⟨c, -, hemit, hctx⟩ | ⟨-, -, ⟨hmore, hctx⟩ | ⟨scratch, count, hctx⟩⟩
  · have hid := ApiCall.toHookId_run (c := ⟨ctx.toHookId, apply.view, memory, c⟩) rfl
    rw [hctx]
    refine ⟨?_, hcou, hused, hemi⟩
    rw [← hkey]
    simp only [RunContext.nonceKey, hid]
  · rw [hctx]
    refine ⟨hkey, hcou, hused, fun t ht => ?_⟩
    -- the call was made with the nonces so far
    have hcall : c.nonceUsed = ctx.nonceUsed := by
      unfold emitCall? at hemit
      split at hemit
      · cases hemit
      split at hemit
      · split at hemit
        · cases hemit
        · cases hemit
          rfl
      · cases hemit
    dsimp only [emitAll] at ht
    split at ht
    · exact hemi t ht
    rename_i hacc
    rcases mem_append.mp ht with hold | hnew
    · exact hemi t hold
    · rw [mem_singleton.mp hnew, ← hcall]
      obtain ⟨-, d, hdet, -, -, -, hnon, -⟩ := details_of_emit hacc
      exact ⟨d, hdet, hnon⟩
  · rw [hctx]
    have hnew : env.sha512Half (nonceArgs apply.tx ctx)
        = nonceAt env apply.tx key ctx.emitNonceCounter := by
      rw [← hkey]
      rfl
    refine ⟨hkey, Nat.succ_le_succ hmore, ?_, fun t ht => ?_⟩
    · simp only [RunContext.useNonce, range_succ, map_append, reverse_append]
      rw [hnew, hused]
      rfl
    · obtain ⟨d, hdet, hmem⟩ := hemi t ht
      exact ⟨d, hdet, mem_cons_of_mem _ hmem⟩
  · rw [hctx]
    exact ⟨hkey, hcou, hused, hemi⟩

theorem NonceInv.run (env : HostEnv) (node : Node) (tx : STTx) (code : Invocation → Program)
    (invocation : Invocation) (view : View) (stateMap : HookStateMap) :
    NonceInv env tx invocation.nonceKey
      (runHook env node ⟨view, tx⟩ (code invocation) (.start invocation stateMap)).2.2 :=
  Dialogue.run_invariant (NonceInv env tx invocation.nonceKey)
    (fun _ call hinv => NonceInv.hostCall ⟨view, tx⟩ hinv call) _
    (NonceInv.start invocation stateMap)

variable {invocation invocation' : Invocation} {view view' : View} {stateMap stateMap' : HookStateMap}

theorem mem_nonces {hash : UInt256} (h : hash ∈ nonces env node tx code invocation view stateMap) :
    ∃ counter ≤ maxNonce, hash = nonceAt env tx invocation.nonceKey counter := by
  have hinv := NonceInv.run env node tx code invocation view stateMap
  rw [nonces, hinv.nonceUsed, mem_reverse, mem_map] at h
  obtain ⟨counter, hlt, rfl⟩ := h
  exact ⟨counter, Nat.le_of_lt_succ ((mem_range.mp hlt).trans_le hinv.counter), rfl⟩

section

variable {keys : Set NonceKey}

section

variable (hinj : Set.InjOn env.sha512Half (hashed tx keys))

include hinj

theorem nonceAt_inj
    {key key' : NonceKey} {counter counter' : Nat} (hkey : key ∈ keys) (hkey' : key' ∈ keys)
    (hcou : counter ≤ maxNonce) (hcou' : counter' ≤ maxNonce)
    (h : nonceAt env tx key counter = nonceAt env tx key' counter') :
    key = key' ∧ counter = counter' := by
  obtain ⟨account, hookHash, flags⟩ := key
  obtain ⟨account', hookHash', flags'⟩ := key'
  have hargs := hinj ⟨_, hkey, counter, hcou, rfl⟩ ⟨_, hkey', counter', hcou', rfl⟩ h
  simp only [argsAt, NonceArgs.mk.injEq] at hargs
  obtain ⟨-, hcoun, rfl, rfl, rfl⟩ := hargs
  exact ⟨rfl, hcoun⟩

/-- **The nonces of one execution are distinct.** -/
theorem nodup_nonces (hkey : invocation.nonceKey ∈ keys) :
    (nonces env node tx code invocation view stateMap).Nodup := by
  have hinv := NonceInv.run env node tx code invocation view stateMap
  have hbound {counter : Nat} (h : counter ∈ List.range _) : counter ≤ maxNonce :=
    Nat.le_of_lt_succ ((mem_range.mp h).trans_le hinv.counter)
  rw [nonces, hinv.nonceUsed, nodup_reverse]
  refine List.Nodup.map_on (fun counter hcou counter' hcou' h => ?_) nodup_range
  exact (nonceAt_inj hinj hkey hkey (hbound hcou) (hbound hcou') h).2

/-- **Executions with different keys have no nonce in common.** -/
theorem disjoint_nonces (hkey : invocation.nonceKey ∈ keys) (hkey' : invocation'.nonceKey ∈ keys)
    (hne : invocation.nonceKey ≠ invocation'.nonceKey) :
    (nonces env node tx code invocation view stateMap).Disjoint
      (nonces env node tx code invocation' view' stateMap') := by
  intro hash h h'
  obtain ⟨counter, hcou, rfl⟩ := mem_nonces h
  obtain ⟨counter', hcou', heq⟩ := mem_nonces h'
  exact hne (nonceAt_inj hinj hkey hkey' hcou hcou' heq).1

end

end

/-! ## Keys -/

theorem nonceFlags_inj {isStrong isStrong' isCallback isCallback' : Bool} {position position' : Nat} :
    nonceFlags isStrong isCallback position = nonceFlags isStrong' isCallback' position' ↔
      isStrong = isStrong' ∧ isCallback = isCallback' ∧ position = position' := by
  cases isStrong <;> cases isStrong' <;> cases isCallback <;> cases isCallback' <;>
    simp [nonceFlags] <;> omega

/-- Invocations of short chains that differ in account, kind or position have different keys. -/
theorem nonceKey_ne (h : invocation.hookChainPosition < 256)
    (h' : invocation'.hookChainPosition < 256)
    (hne : ¬ (invocation.hook.account = invocation'.hook.account ∧
      invocation.isStrong = invocation'.isStrong ∧ invocation.isCallback = invocation'.isCallback ∧
      invocation.hookChainPosition = invocation'.hookChainPosition)) :
    invocation.nonceKey ≠ invocation'.nonceKey := by
  intro heq
  simp only [Invocation.nonceKey, NonceKey.mk.injEq, nonceFlags_inj, Nat.mod_eq_of_lt h,
    Nat.mod_eq_of_lt h'] at heq
  exact hne ⟨heq.1, heq.2.2⟩

end Xahau.Hook
