import Xahau.Hook.StateMap

/-! # The state functions of the hook API (`applyHook.cpp`)

`state` and `state_foreign` read the states of an account, `state_set` and `state_foreign_set` set
them. Arguments are pointers into the memory of the hook. To set a state of another account a hook
needs a grant. -/

namespace Xahau.Hook

open Checked HookStateMap

/-- The hook that calls a function. -/
structure HookId where
  /-- The account on which it is installed. -/
  account : AccountID
  hookHash : UInt256
  hookNamespace : UInt256
  deriving DecidableEq

/-- `HookContext` and its `HookResult`, as far as the state functions use them. -/
structure HookContext extends HookId where
  stateMap : HookStateMap
  /-- A `uint16_t`. -/
  changedStateCount : Nat
  foreignStateSetDisabled : Bool

/-! ## The cache -/

/-- `max_state_modifications`. -/
def maxStateModifications : Nat := 256

/-- `hook::maxNamespaces`. -/
def maxNamespaces : Int := 256

/-- `hook::maxHookStateDataSize`. -/
def maxHookStateDataSize : Nat := 256

/-- How many reserve positions an account has available. -/
def availableReserves (fees : Fees) (accSLE : AccountRoot) : Int :=
  let increment := if fees.increment ≤ 0 then 1 else fees.increment
  (accSLE.balance - fees.accountReserve accSLE.ownerCount).tdiv increment

/-- `set_state_cache`. -/
def setStateCache (view : View) (acc : AccountID) (ns key : UInt256) (data : Blob)
    (modified : Bool) (ctx : HookContext) : Except HookReturnCode HookContext :=
  let stateMap := ctx.stateMap
  if modified ∧ maxStateModifications ≤ stateMap.modifiedEntryCount then
    .error .tooManyStateModifications
  else
    let createNamespace := view.rules.enabled .fixXahauV1 && (view.hookStateDir acc ns 0).isNone
    let created : Int := if createNamespace then 1 else 0
    let new : Nat := if modified then 1 else 0
    match stateMap.accounts.lookup acc with
    | none =>
      -- the first time that this account is interacted with
      match view.account acc with
      | none => .error .doesntExist
      | some accSLE =>
        let availableForReserves := availableReserves view.fees accSLE
        let namespaceCount : Int := accSLE.hookNamespaces.length
        if availableForReserves < 1 ∧ modified then .error .reserveInsufficient
        else if createNamespace ∧ maxNamespaces < namespaceCount + 1 then
          .error .tooManyNamespaces
        else
          -- the count of modified entries rises for an entry that is only read, too
          .ok { ctx with
            stateMap := stateMap.assign acc (availableForReserves - 1)
              (namespaceCount + created) ns key ⟨modified, data⟩
              (stateMap.modifiedEntryCount + 1) }
    | some cache =>
      match cache.namespaces.lookup ns with
      | none =>
        if modified ∧ cache.availableForReserves ≤ 0 then .error .reserveInsufficient
        else if modified ∧ createNamespace ∧ maxNamespaces < cache.namespaceCount + 1 then
          .error .tooManyNamespaces
        else
          .ok { ctx with
            stateMap := stateMap.assign acc (cache.availableForReserves - new)
              (if modified then cache.namespaceCount + created else cache.namespaceCount)
              ns key ⟨modified, data⟩ (stateMap.modifiedEntryCount + new) }
      | some stateMapNs =>
        match stateMapNs.lookup key with
        | none =>
          if modified ∧ cache.availableForReserves ≤ 0 then .error .reserveInsufficient
          else
            .ok { ctx with
              stateMap := stateMap.assign acc (cache.availableForReserves - new)
                cache.namespaceCount ns key ⟨modified, data⟩
                (stateMap.modifiedEntryCount + new)
              changedStateCount := (ctx.changedStateCount + 1) % 0x10000 }
        | some entry =>
          let changed := if modified ∧ entry.modified = false then 1 else 0
          .ok { ctx with
            stateMap := stateMap.assign acc cache.availableForReserves cache.namespaceCount
              ns key ⟨entry.modified || modified, data⟩ (stateMap.modifiedEntryCount + new)
            changedStateCount := (ctx.changedStateCount + changed) % 0x10000 }

/-- The cache marks the entry as modified. -/
def HookStateMap.isModified (stateMap : HookStateMap) (acc : AccountID) (ns key : UInt256) : Bool :=
  ((stateMap.lookupStateCache acc ns key).map CacheEntry.modified).getD false

section

variable {view : View} {acc acc' : AccountID} {ns key ns' key' : UInt256} {data : Blob}
  {modified : Bool} {ctx ctx' : HookContext}

theorem HookStateMap.lookupStateCache_of_none {stateMap : HookStateMap}
    (h : stateMap.accounts.lookup acc = none) : stateMap.lookupStateCache acc ns key = none := by
  unfold lookupStateCache
  rw [h]
  rfl

section

variable (h : setStateCache view acc ns key data modified ctx = .ok ctx')

include h

/-- **Setting an entry takes from the reserve** one position if the account or the entry is new to
the cache and modified. -/
theorem setStateCache_cases :
    ∃ available count n changed, ctx' = { ctx with
      stateMap := ctx.stateMap.assign acc available count ns key
        ⟨ctx.stateMap.isModified acc ns key || modified, data⟩ n
      changedStateCount := changed } ∧
    (modified = true → ctx.stateMap.modifiedEntryCount < maxStateModifications ∧
      n = ctx.stateMap.modifiedEntryCount + 1) ∧
    ctx.stateMap.modifiedEntryCount ≤ n ∧
    ((ctx.stateMap.accounts.lookup acc = none ∧ ∃ accSLE, view.account acc = some accSLE ∧
        available = availableReserves view.fees accSLE - 1 ∧ (modified = true → 0 ≤ available)) ∨
      ∃ cache, ctx.stateMap.accounts.lookup acc = some cache ∧
        ((ctx.stateMap.lookupStateCache acc ns key = none ∧
            available = cache.availableForReserves - (if modified then 1 else 0) ∧
            (modified = true → 0 ≤ available)) ∨
          (ctx.stateMap.lookupStateCache acc ns key ≠ none ∧
            available = cache.availableForReserves))) := by
  simp only [setStateCache] at h
  split at h
  · cases h
  rename_i hfew
  rw [not_and, Nat.not_le] at hfew
  split at h
  next hacc =>
    have hlk : ctx.stateMap.lookupStateCache acc ns key = none :=
      lookupStateCache_of_none hacc
    have hold : ctx.stateMap.isModified acc ns key = false := by
      simp [isModified, hlk]
    split at h
    · cases h
    rename_i accSLE hacco
    split at h
    · cases h
    rename_i hpoor
    split at h
    · cases h
    cases h
    rw [hold]
    refine ⟨_, _, _, _, rfl, fun hmod => ⟨hfew hmod, rfl⟩, Nat.le_succ _,
      .inl ⟨hacc, accSLE, hacco, rfl, ?_⟩⟩
    intro hmod
    by_contra hneg
    exact hpoor ⟨by omega, hmod⟩
  next cache hacc =>
    -- an entry that the cache has not seen, whether its namespace is cached or not
    have hnew : ∀ {available : Int}, ctx.stateMap.lookupStateCache acc ns key = none →
        ¬ (modified = true ∧ cache.availableForReserves ≤ 0) →
        available = cache.availableForReserves - (if modified then 1 else 0 : Nat) →
        ctx.stateMap.isModified acc ns key = false ∧
        available = cache.availableForReserves - (if modified then 1 else 0) ∧
          (modified = true → 0 ≤ available) := by
      rintro available hlk hpoor rfl
      refine ⟨by simp [isModified, hlk], by split <;> rfl, ?_⟩
      intro hmod
      rw [if_pos hmod]
      by_contra hneg
      exact hpoor ⟨hmod, by omega⟩
    split at h
    next hns =>
      have hlk : ctx.stateMap.lookupStateCache acc ns key = none := by
        simp [lookupStateCache, hacc, hns]
      split at h
      · cases h
      rename_i hpoor
      split at h
      · cases h
      cases h
      obtain ⟨hold, hava, hpays⟩ := hnew hlk hpoor rfl
      rw [hold]
      refine ⟨_, _, _, _, rfl, fun hmod => ⟨hfew hmod, by rw [if_pos hmod]⟩,
        Nat.le_add_right .., .inr ⟨cache, hacc, .inl ⟨hlk, hava, hpays⟩⟩⟩
    next stateMapNs hns =>
      split at h
      next hkey =>
        have hlk : ctx.stateMap.lookupStateCache acc ns key = none := by
          simp [lookupStateCache, hacc, hns, hkey]
        split at h
        · cases h
        rename_i hpoor
        cases h
        obtain ⟨hold, hava, hpays⟩ := hnew hlk hpoor rfl
        rw [hold]
        refine ⟨_, _, _, _, rfl, fun hmod => ⟨hfew hmod, by rw [if_pos hmod]⟩,
          Nat.le_add_right .., .inr ⟨cache, hacc, .inl ⟨hlk, hava, hpays⟩⟩⟩
      next entry hkey =>
        have hlk : ctx.stateMap.lookupStateCache acc ns key = some entry := by
          simp [lookupStateCache, hacc, hns, hkey]
        have hold : ctx.stateMap.isModified acc ns key = entry.modified := by
          simp [isModified, hlk]
        cases h
        rw [hold]
        refine ⟨_, _, _, _, rfl, fun hmod => ⟨hfew hmod, by rw [if_pos hmod]⟩,
          Nat.le_add_right .., .inr ⟨cache, hacc, .inr ⟨?_, rfl⟩⟩⟩
        exact Option.ne_none_iff_exists'.mpr ⟨entry, hlk⟩

/-- Setting an entry of the cache assigns it; it stays modified if it was, and else only counts
change. -/
theorem setStateCache_eq_ok :
    ∃ available count n changed, ctx' = { ctx with
      stateMap := ctx.stateMap.assign acc available count ns key
        ⟨ctx.stateMap.isModified acc ns key || modified, data⟩ n
      changedStateCount := changed } := by
  obtain ⟨available, count, n, changed, heq, -⟩ := setStateCache_cases h
  exact ⟨available, count, n, changed, heq⟩

theorem isModified_setStateCache :
    ctx'.stateMap.isModified acc' ns' key' =
      if (acc', ns', key') = (acc, ns, key) then ctx.stateMap.isModified acc ns key || modified
      else ctx.stateMap.isModified acc' ns' key' := by
  obtain ⟨available, count, n, changed, rfl⟩ := setStateCache_eq_ok h
  unfold isModified
  split
  next hent =>
    cases hent
    rw [lookupStateCache_assign]
    rfl
  next hent =>
    rw [lookupStateCache_assign_of_ne _ hent]

end

end

/-! ## Memory -/

/-- The memory of a hook. -/
abbrev Memory := List UInt8

/-- `NOT_IN_BOUNDS`. -/
def notInBounds (memory : Memory) (ptr len : Nat) : Prop :=
  memory.length ≤ ptr ∨ memory.length < ptr + len

instance (memory : Memory) (ptr len : Nat) : Decidable (notInBounds memory ptr len) :=
  inferInstanceAs (Decidable (_ ∨ _))

section

variable (view : View) (memory : Memory)

/-- The bytes of the memory from a pointer on. -/
def Memory.slice (ptr len : Nat) : Blob := (memory.drop ptr).take len

/-- `base_uint::fromVoid`, of bytes that are within bounds. -/
def fromVoid {n : Nat} (memory : Memory) (ptr : Nat) : BaseUInt n :=
  ⟨(memory.drop ptr).takeD n 0, List.takeD_length ..⟩

/-- The memory with the bytes from a pointer on replaced. -/
def Memory.write (ptr : Nat) (data : Blob) : Memory :=
  memory.take ptr ++ data ++ memory.drop (ptr + data.length)

/-- `make_state_key`: zero pad on the left to bring the key up to 32 bytes. -/
def makeStateKey (source : Blob) : Option UInt256 :=
  if h : source.length ≤ 32 ∧ 1 ≤ source.length then
    some ⟨List.replicate (32 - source.length) 0 ++ source, by simp; omega⟩
  else none

/-- `data_as_int64`: the big-endian value of the data. -/
def dataAsInt64 (data : Blob) : Except HookReturnCode Int :=
  if 8 < data.length then .error .tooBig
  else
    let output : Nat := data.foldl (fun n b => n * 256 + b.toNat) 0
    if 0x8000000000000000 ≤ output then .error .tooBig else .ok output

/-- `WRITE_WASM_MEMORY_OR_RETURN_AS_INT64`. -/
def writeOrReturn (writePtr writeLen : Nat) (data : Blob) : Except HookReturnCode Int × Memory :=
  if data.length = 0 then (.ok 0, memory)
  else if writePtr = 0 then (dataAsInt64 data, memory)
  else if writeLen < data.length then (.error .tooSmall, memory)
  else if memory.length < writePtr + data.length then (.error .outOfBounds, memory)
  else (.ok data.length, memory.write writePtr data)

/-! ## Setting states -/

/-- The arguments of `state_foreign_set`: data, key, namespace and account. -/
structure SetArgs where
  readPtr : Nat
  readLen : Nat
  kreadPtr : Nat
  kreadLen : Nat
  nreadPtr : Nat
  nreadLen : Nat
  areadPtr : Nat
  areadLen : Nat
  deriving DecidableEq, Repr

/-- The entry that a call sets, and its data. -/
structure SetRequest where
  acc : AccountID
  ns : UInt256
  key : UInt256
  data : Blob
  deriving DecidableEq

/-- The part of `state_foreign_set` that checks and reads the arguments. -/
def readSetArgs (hook : HookId) (args : SetArgs) :
    Except HookReturnCode SetRequest := do
  failIf (memory = []) .internalError
  -- no data is valid: this is a delete operation
  failIf (¬ (args.readPtr = 0 ∧ args.readLen = 0) ∧ notInBounds memory args.readPtr args.readLen)
    .outOfBounds
  failIf (32 < args.kreadLen) .tooBig
  failIf (args.kreadLen < 1) .tooSmall
  failIf (args.nreadLen ≠ 0 ∧ args.nreadLen ≠ 32) .invalidArgument
  failIf (args.areadLen ≠ 0 ∧ args.areadLen ≠ 20) .invalidArgument
  failIf (notInBounds memory args.kreadPtr args.kreadLen) .outOfBounds
  -- the namespace can be null if and only if this is a local set
  failIf (args.nreadPtr = 0 ∧ args.nreadLen = 0 ∧ ¬ (args.areadPtr = 0 ∧ args.areadLen = 0))
    .invalidArgument
  failIf ((args.nreadLen ≠ 0 ∧ notInBounds memory args.nreadPtr args.nreadLen) ∨
    (args.kreadLen ≠ 0 ∧ notInBounds memory args.kreadPtr args.kreadLen) ∨
    (args.areadLen ≠ 0 ∧ notInBounds memory args.areadPtr args.areadLen)) .outOfBounds
  failIf (maxHookStateDataSize < args.readLen) .tooBig
  failIf (view.rules.enabled .fixXahauV1 = true ∧ view.account hook.account = none) .tefINTERNAL
  match makeStateKey (memory.slice args.kreadPtr args.kreadLen) with
  | none => .error .internalError
  | some key =>
    .ok {
      acc := if args.areadLen = 20 then fromVoid memory args.areadPtr else hook.account
      ns := if args.nreadLen = 0 then hook.hookNamespace else fromVoid memory args.nreadPtr
      key
      data := memory.slice args.readPtr args.readLen }

/-- A grant names the hash of the hook, and its account if it names any. -/
def HookGrant.allows (grant : HookGrant) (hook : HookId) : Bool :=
  decide (grant.hookHash = hook.hookHash) &&
    (match grant.authorize with
      | none => true
      | some account => decide (account = hook.account))

/-- The loop body over the foreign account's hooks: whether one grants the caller its namespace. -/
def HookObj.grants (registry : HookRegistry) (hookObj : HookObj) (ns : UInt256) (hook : HookId) : Bool :=
  match hookObj.hookHash, hookObj.hookGrants with
  | some _, some hookGrants =>
    -- the grant allows the hook to modify the granter's namespace only
    decide (registry.namespaceOf hookObj = some ns) &&
      hookGrants.any fun grant => grant.allows hook
  | _, _ => false

/-- `state_foreign_set` of its arguments. The value is the length of the data. -/
def setState (request : SetRequest) (isLocal : Bool) (readLen : Nat) (ctx : HookContext) :
    Except HookReturnCode Int × HookContext :=
  let set : Except HookReturnCode Int × HookContext :=
    match setStateCache view request.acc request.ns request.key request.data true ctx with
    | .error e => (.error e, ctx)
    | .ok ctx' => (.ok readLen, ctx')
  -- local modifications are always allowed
  if isLocal = true ∨ request.acc = ctx.account then set
  else if ctx.foreignStateSetDisabled then (.error .previousFailurePreventsRetry, ctx)
  -- an entry that has already been modified is set without another look at the grants
  else if ctx.stateMap.isModified request.acc request.ns request.key then set
  else
    match view.hooks request.acc with
    | none => (.error .internalError, ctx)
    | some hooks =>
      if hooks.any fun hookObj => hookObj.grants view.toHookRegistry request.ns ctx.toHookId then set
      else
        -- hook only gets one attempt
        (.error .notAuthorized, { ctx with foreignStateSetDisabled := true })

/-- `state_foreign_set`. -/
def stateForeignSet (args : SetArgs) (ctx : HookContext) :
    Except HookReturnCode Int × HookContext :=
  match readSetArgs view memory ctx.toHookId args with
  | .error e => (.error e, ctx)
  | .ok request => setState view request (decide (args.areadLen = 0)) args.readLen ctx

/-- `state_set`. -/
def stateSet (readPtr readLen kreadPtr kreadLen : Nat) (ctx : HookContext) :
    Except HookReturnCode Int × HookContext :=
  stateForeignSet view memory ⟨readPtr, readLen, kreadPtr, kreadLen, 0, 0, 0, 0⟩ ctx

/-! ## Reading states -/

/-- The arguments of `state_foreign`: where to write, key, namespace, account. -/
structure GetArgs where
  writePtr : Nat
  writeLen : Nat
  kreadPtr : Nat
  kreadLen : Nat
  nreadPtr : Nat
  nreadLen : Nat
  areadPtr : Nat
  areadLen : Nat
  deriving DecidableEq, Repr

/-- `state_foreign` checks and reads its arguments: account, namespace, key. -/
def readGetArgs (hook : HookId) (args : GetArgs) :
    Except HookReturnCode (AccountID × UInt256 × UInt256) := do
  failIf (memory = []) .internalError
  failIf (args.areadPtr = 0 ∧ args.areadLen ≠ 0) .invalidArgument
  failIf (args.areadPtr ≠ 0 ∧ args.areadLen ≠ 20) .invalidArgument
  failIf (32 < args.kreadLen) .tooBig
  failIf (args.kreadLen < 1) .tooSmall
  failIf (args.writeLen < 1 ∧ args.writePtr ≠ 0) .tooSmall
  failIf (¬ (args.areadPtr = 0 ∧ args.nreadLen = 0) ∧ args.nreadLen ≠ 32) .invalidArgument
  failIf (notInBounds memory args.kreadPtr args.kreadLen ∨
    notInBounds memory args.nreadPtr args.nreadLen ∨
    notInBounds memory args.areadPtr args.areadLen ∨
    notInBounds memory args.writePtr args.writeLen) .outOfBounds
  match makeStateKey (memory.slice args.kreadPtr args.kreadLen) with
  | none => .error .invalidArgument
  | some key =>
    .ok (if args.areadPtr ≠ 0 then fromVoid memory args.areadPtr else hook.account,
      if args.nreadLen = 0 then hook.hookNamespace else fromVoid memory args.nreadPtr, key)

/-- `state_foreign`. -/
def stateForeign (args : GetArgs) (ctx : HookContext) :
    Except HookReturnCode Int × Memory × HookContext :=
  match readGetArgs memory ctx.toHookId args with
  | .error e => (.error e, memory, ctx)
  | .ok (acc, ns, key) =>
    -- first check if the requested state was previously cached this session
    match ctx.stateMap.lookupStateCache acc ns key with
    | some entry =>
      let (ret, memory') := writeOrReturn memory args.writePtr args.writeLen entry.data
      (ret, memory', ctx)
    | none =>
      match view.hookState acc key ns with
      | none => (.error .doesntExist, memory, ctx)
      | some hookState =>
        match setStateCache view acc ns key hookState.data false ctx with
        | .error _ => (.error .internalError, memory, ctx)
        | .ok ctx' =>
          let (ret, memory') :=
            writeOrReturn memory args.writePtr args.writeLen hookState.data
          (ret, memory', ctx')

/-- `state`. -/
def state (writePtr writeLen kreadPtr kreadLen : Nat) (ctx : HookContext) :
    Except HookReturnCode Int × Memory × HookContext :=
  stateForeign view memory ⟨writePtr, writeLen, kreadPtr, kreadLen, 0, 0, 0, 0⟩ ctx

end

end Xahau.Hook
