import Xahau.SetHook.DestroyNamespace
import Xahau.SetHook.Validate

/-! # Setting hooks (`SetHook.cpp`)

`SetHook::setHook` goes through the positions of the hook chain, and collects the new chain and the
changes to the hook definitions. Nothing is written until all positions are done. Peeked definitions
are shared, so later positions see a change. -/

namespace Xahau.Hook

open Checked

/-- How `setHook` ends before it writes anything. -/
inductive Stop : Type where
  | tecREQUIRES_FLAG | tecNO_ENTRY | tecINTERNAL | tecCLAIM
  /-- Its behaviour is undefined. -/
  | undefined
  deriving DecidableEq

/-- The result that is returned. -/
def Stop.ter : Stop → Option Ter
  | .tecREQUIRES_FLAG => some .tecREQUIRES_FLAG
  | .tecNO_ENTRY => some .tecNO_ENTRY
  | .tecINTERNAL => some .tecINTERNAL
  | .tecCLAIM => some .tecCLAIM
  | .undefined => none

/-! ## Reference counts -/

/-- `reduceReferenceCount`, with whether the definition is to be deleted. -/
def reduceReferenceCount (hookDef : HookDefinition) : HookDefinition × Bool :=
  let refCount := hookDef.referenceCount - 1
  ({ hookDef with referenceCount := refCount }, decide (refCount = 0))

/-- `incrementReferenceCount`. The count stays when it would overflow. -/
def incrementReferenceCount (hookDef : HookDefinition) : HookDefinition :=
  let rc := (hookDef.referenceCount + 1) % 2 ^ 64
  if rc = 0 then hookDef else { hookDef with referenceCount := rc }

/-! ## Parameters -/

/-- The parameters of a hook while they are merged; a name may be without a value. -/
abbrev Parameters := AList fun _ : Blob => Option Blob

/-- The loop of `updateHookParameters` over the defaults: what equals the default or is empty is
erased, and a blank in place of a default is kept. -/
def resetToDefaults : List (Blob × Blob) → Parameters → List Blob → Parameters × List Blob
  | [], parameters, explicitBlanks => (parameters, explicitBlanks)
  | (n, v) :: defaults, parameters, explicitBlanks =>
    match parameters.lookup n with
    | none => resetToDefaults defaults parameters explicitBlanks
    | some pv =>
      if pv = none ∨ pv = some v then
        resetToDefaults defaults (parameters.erase n) explicitBlanks
      else if pv = some [] then resetToDefaults defaults parameters (n :: explicitBlanks)
      else resetToDefaults defaults parameters explicitBlanks

/-- `updateHookParameters`: the new parameters; without any there is no field. -/
def updateHookParameters (hookParameters : List (Blob × Option Blob))
    (hookDef : Option HookDefinition) (oldParameters : List (Blob × Blob)) :
    Except Stop (Option (List (Blob × Blob))) :=
  let assign (parameters : Parameters) (given : List (Blob × Option Blob)) : Parameters :=
    given.foldl (fun parameters p => parameters.insert p.1 p.2) parameters
  let parameters := assign (assign ∅ (oldParameters.map fun p => (p.1, some p.2))) hookParameters
  let defaults := (hookDef.bind HookDefinition.hookParameters).getD []
  let (parameters, explicitBlanks) := resetToDefaults defaults parameters []
  let kept := parameters.entries.filterMap fun entry =>
    match entry.2 with
    | none => none
    | some pv => if pv = [] ∧ entry.1 ∉ explicitBlanks then none else some (entry.1, pv)
  if 16 < kept.length then .error .tecINTERNAL
  else if kept.any (fun p => decide (maxHookParameterKeySize < p.1.length ∨
      maxHookParameterValueSize < p.2.length)) then .error .tecINTERNAL
  else if kept = [] then .ok none
  else .ok (some (kept.mergeSort fun a b => decide (a.1 ≤ b.1)))

/-! ## One position -/

/-- The local variables of `setHook` that are kept from one position to the next. -/
structure Setting where
  /-- The definitions of the ledger as `peek` gives them. -/
  peeked : UInt256 → Option HookDefinition
  /-- The definitions that are to be inserted. -/
  slesToInsert : UInt256 → Option HookDefinition := fun _ => none
  /-- The definitions that were changed. -/
  slesToUpdate : List UInt256 := []
  keyletsToDestroy : List UInt256 := []
  namespacesToDestroy : List UInt256 := []
  /-- The hooks so far. -/
  newHooks : List HookObj := []

namespace Setting

section

variable (st : Setting)

/-- The next hook of the chain. -/
def push (hookObj : HookObj) : Setting :=
  { st with newHooks := st.newHooks ++ [hookObj] }

/-- A definition that is in the ledger or will be inserted. -/
def definition (hookHash : UInt256) : Option HookDefinition :=
  (st.peeked hookHash).or (st.slesToInsert hookHash)

/-- An old hook's definition is used once less, and marked for deletion if unused. -/
def release : Option UInt256 → Setting
  | none => st
  | some hookHash =>
    match st.peeked hookHash with
    | none => st
    | some oldDef =>
      let (oldDef, unused) := reduceReferenceCount oldDef
      let st := { st with peeked := Function.update st.peeked hookHash (some oldDef) }
      if unused then { st with keyletsToDestroy := hookHash :: st.keyletsToDestroy }
      else { st with slesToUpdate := hookHash :: st.slesToUpdate }

/-- A new hook's definition is used once more: that of the ledger, or one to be inserted. -/
def acquire (hookHash : UInt256) : Setting :=
  let st :=
    match st.peeked hookHash with
    | some newDef =>
      { st with peeked := Function.update st.peeked hookHash
                  (some (incrementReferenceCount newDef)) }
    | none =>
      { st with slesToInsert := Function.update st.slesToInsert hookHash
                  ((st.slesToInsert hookHash).map incrementReferenceCount) }
  { st with slesToUpdate := hookHash :: st.slesToUpdate }

/-- A new definition is to be inserted. -/
def insert (hookHash : UInt256) (hookDef : HookDefinition) : Setting :=
  { st with slesToInsert := Function.update st.slesToInsert hookHash (some hookDef) }

end

end Setting

/-- A blank entry of `sfHooks`. -/
def HookObj.blank : HookObj := ⟨none, none, none, none, none, none, none⟩

/-- Flags that are not passed on to the ledger are taken out. -/
def newFlags (flags : Nat) : Nat :=
  let flags := if isOverride flags then flags - 1 else flags
  if isNSDelete flags then flags - 2 else flags

/-- A field of a hook that is present only if it differs from the definition's. -/
def unlessDefault (defValue : Option UInt256) (value : UInt256) : Option UInt256 :=
  if defValue = some value then none else some value

/-- A field of an updated hook: the old one if no new one is given. -/
def updateField (defValue oldValue newValue : Option UInt256) : Option UInt256 :=
  match newValue with
  | none => oldValue
  | some value => unlessDefault defValue value

section

variable (op : HookSetOperation) (hookSetObj : HookSetObj) (oldHook : Option HookObj) (st : Setting)

/-- The case `hsoDELETE`. -/
def setDelete :
    Except Stop Setting := do
  failIf (isOverride (hookSetObj.flags.getD 0) = false) .tecREQUIRES_FLAG
  .ok ((st.release (oldHook.bind HookObj.hookHash)).push .blank)

/-- The parameters of an updated hook: an empty list deletes them. -/
def updatedParameters (oldHook : HookObj) (oldDef : HookDefinition) :
    Except Stop (Option (List (Blob × Blob))) :=
  if hookSetObj.hookParameters = some [] then .ok none
  else
    updateHookParameters (hookSetObj.hookParameters.getD []) (some oldDef)
      (oldHook.hookParameters.getD [])

/-- The case `hsoUPDATE`. -/
def setUpdate :
    Except Stop Setting := do
  let oldHook? := do
    let oldHook ← oldHook
    let hookHash ← oldHook.hookHash
    let oldDef ← st.peeked hookHash
    pure (oldHook, hookHash, oldDef)
  match oldHook? with
  | none => .error .tecNO_ENTRY
  | some (oldHook, hookHash, oldDef) => do
    let hookParameters ← updatedParameters hookSetObj oldHook oldDef
    .ok (st.push {
      hookHash := some hookHash
      hookNamespace :=
        updateField (some oldDef.hookNamespace) oldHook.hookNamespace hookSetObj.hookNamespace
      hookOn := updateField (some oldDef.hookOn) oldHook.hookOn hookSetObj.hookOn
      hookCanEmit := updateField oldDef.hookCanEmit oldHook.hookCanEmit hookSetObj.hookCanEmit
      hookParameters
      hookGrants :=
        match hookSetObj.hookGrants with
        | some grants => if grants = [] then none else some grants
        | none => oldHook.hookGrants
      flags := hookSetObj.flags })

/-- Grants are only set if there are any. -/
def givenGrants : Option (List HookGrant) :=
  hookSetObj.hookGrants.filter fun grants => !grants.isEmpty

/-- An existing hook is only replaced with `hsfOVERRIDE`. -/
def wouldOverride : Bool :=
  (oldHook.bind HookObj.hookHash).isSome && !isOverride (hookSetObj.flags.getD 0)

/-- The case `hsoINSTALL`. `defHookCanEmit` is that of the old definition if the new one has none.
-/
def setInstall (hookHash : UInt256) (newDef? : Option HookDefinition) (st : Setting) :
    Except Stop Setting := do
  failIf (wouldOverride hookSetObj oldHook = true) .tecREQUIRES_FLAG
  match newDef? with
  | none => .error .tecNO_ENTRY
  | some newDef => do
    let oldDef? := (oldHook.bind HookObj.hookHash).bind st.peeked
    let defHookCanEmit := newDef.hookCanEmit.or (oldDef?.bind HookDefinition.hookCanEmit)
    let hookParameters ←
      updateHookParameters (hookSetObj.hookParameters.getD []) (some newDef) []
    .ok ((((st.release (oldHook.bind HookObj.hookHash)).acquire hookHash)).push {
      hookHash := some hookHash
      hookNamespace := hookSetObj.hookNamespace.bind (unlessDefault (some newDef.hookNamespace))
      hookOn := hookSetObj.hookOn.bind (unlessDefault (some newDef.hookOn))
      hookCanEmit := hookSetObj.hookCanEmit.bind (unlessDefault defHookCanEmit)
      hookParameters
      hookGrants := givenGrants hookSetObj
      flags := hookSetObj.flags.map newFlags })

/-- `hook::computeExecutionFee`, an `int64_t`. The comparison after the conversion is never true. -/
def computeExecutionFee (instructionCount : Nat) : Int := (instructionCount : Int).bmod (2 ^ 64)

/-- The definition that `hsoCREATE` makes. -/
def newHookDef (wasmBytes : Blob) (hookOn hookNamespace : UInt256)
    (maxInstrCountHook maxInstrCountCbak : Nat) : HookDefinition where
  hookNamespace
  hookOn
  hookCanEmit := hookSetObj.hookCanEmit
  flags := (hookSetObj.flags.map newFlags).getD 0
  hookParameters := some ((hookSetObj.hookParameters.getD []).map fun p => (p.1, p.2.getD []))
  createCode := wasmBytes
  referenceCount := 1
  fee := computeExecutionFee maxInstrCountHook
  hookCallbackFee :=
    if 0 < maxInstrCountCbak then some (computeExecutionFee maxInstrCountCbak) else none

/-- The case `hsoCREATE`. If there is a definition with this code, it is installed. -/
def setCreate (env : SetHookEnv) (rules : Rules) (account : AccountID) (hookSetObj : HookSetObj)
    (oldHook : Option HookObj) (st : Setting) : Except Stop Setting := do
  failIf (wouldOverride hookSetObj oldHook = true) .tecREQUIRES_FLAG
  let wasmBytes := hookSetObj.createCode.getD []
  failIf (maxHookWasmSize < wasmBytes.length) .tecINTERNAL
  let createHookHash := env.sha512Half wasmBytes
  match st.definition createHookHash with
  | some newDef => setInstall hookSetObj oldHook createHookHash (some newDef) st
  | none =>
    match validateHookSetEntry env rules account hookSetObj with
    | .error (.undefined _) => .error .undefined
    | .error .outOfFuel => .error .undefined
    | .error _ => .error .tecINTERNAL
    | .ok (.valid _) => .error .tecINTERNAL
    | .ok (.counts maxInstrCountHook maxInstrCountCbak) =>
      match hookSetObj.hookOn, hookSetObj.hookNamespace with
      | some hookOn, some hookNamespace =>
        let hookDef := newHookDef hookSetObj wasmBytes hookOn hookNamespace maxInstrCountHook
          maxInstrCountCbak
        let st := (st.release (oldHook.bind HookObj.hookHash)).insert createHookHash hookDef
        .ok (st.push { HookObj.blank with
          hookHash := some createHookHash
          hookGrants := givenGrants hookSetObj })
      | _, _ => .error .undefined

/-- A namespace is marked for destruction, in any operation but `hsoNOOP` and `hsoINVALID`. -/
def markNamespace : Setting :=
  if isNSDelete (hookSetObj.flags.getD 0) = false ∨ op = .hsoNOOP ∨ op = .hsoINVALID then st
  else
    let oldNamespace := do
      let oldHook ← oldHook
      let hookHash ← oldHook.hookHash
      oldHook.hookNamespace.or ((st.peeked hookHash).map HookDefinition.hookNamespace)
    let marked :=
      if op = .hsoNSDELETE ∧ hookSetObj.hookNamespace.isSome then hookSetObj.hookNamespace
      else oldNamespace
    { st with namespacesToDestroy := marked.toList ++ st.namespacesToDestroy }

end

/-- One turn of the loop of `setHook`. -/
def setPosition (env : SetHookEnv) (rules : Rules) (account : AccountID) (oldHook : Option HookObj)
    (hookSetObj? : Option HookSetObj) (st : Setting) : Except Stop Setting :=
  match hookSetObj? with
  | none => .ok (st.push (oldHook.getD .blank))
  | some hookSetObj =>
    let op := inferOperation hookSetObj
    let st := markNamespace op hookSetObj oldHook st
    match op with
    | .hsoNSDELETE => .ok (st.push (oldHook.getD .blank))
    | .hsoNOOP => .ok (st.push (oldHook.getD .blank))
    | .hsoDELETE => setDelete hookSetObj oldHook st
    | .hsoUPDATE => setUpdate hookSetObj oldHook st
    | .hsoCREATE => setCreate env rules account hookSetObj oldHook st
    | .hsoINSTALL =>
      let hookHash := hookSetObj.hookHash.getD .zero
      setInstall hookSetObj oldHook hookHash (st.peeked hookHash) st
    | .hsoINVALID => .error .tecCLAIM

/-- The loop of `setHook` over the positions with entries, and those after them. -/
def setPositions (env : SetHookEnv) (rules : Rules) (account : AccountID) :
    List HookSetObj → List HookObj → Setting → Except Stop Setting
  | [], oldHooks, st =>
    oldHooks.foldlM (fun st oldHook => setPosition env rules account (some oldHook) none st) st
  | hookSetObj :: hookSets, oldHooks, st => do
    let st ← setPosition env rules account oldHooks.head? (some hookSetObj) st
    setPositions env rules account hookSets oldHooks.tail st

/-! ## The ledger -/

/-- `computeHookReserve`. -/
def computeHookReserve (hookObj : HookObj) : Nat :=
  if hookObj.hookHash = none then 0
  else 1 + (hookObj.hookParameters.getD []).length + (hookObj.hookGrants.getD []).length

def hookReserve (hooks : List HookObj) : Nat :=
  ((hooks.take maxHookChainLength).map computeHookReserve).sum

/-- The pending insertions and updates. -/
def Setting.writeDefinitions (st : Setting) (view : View) : View :=
  { view with hookDefinition := fun hookHash =>
    if hookHash ∈ st.slesToUpdate then st.definition hookHash
    else (st.slesToInsert hookHash).or (view.hookDefinition hookHash) }

/-- The loop that destroys the marked namespaces, until one of them fails. -/
def destroyNamespaces (pages : Nat) (account : AccountID) :
    List UInt256 → Ter → View → Except String (Ter × View)
  | [], nsDeleteResult, view => .ok (nsDeleteResult, view)
  | ns :: namespaces, _, view => do
    let (nsDeleteResult, view) ← destroyNamespace pages view account ns
    if nsDeleteResult.isTesSuccess = false then .ok (nsDeleteResult, view)
    else destroyNamespaces pages account namespaces nsDeleteResult view

/-- The pending removals: definitions that are not used any more. -/
def Setting.removeDefinitions (st : Setting) (view : View) : View :=
  { view with hookDefinition := fun hookHash =>
    if hookHash ∈ st.keyletsToDestroy ∧
        (st.peeked hookHash).any (fun hookDef => decide (hookDef.referenceCount = 0)) = true then
      none
    else view.hookDefinition hookHash }

section

variable (env : SetHookEnv) (ownerDir : OwnerDir) (pages : Nat) (account : AccountID)
  (hookSets : List HookSetObj) (view : View)

/-- `ltHOOK` of an account is replaced. -/
def View.setHooks (account : AccountID) (hooks : Option (List HookObj)) : View :=
  { view with hooks := Function.update view.hooks account hooks }

/-- What the owner directory answers when `ltHOOK` is put in it or taken out of it. -/
structure OwnerDir where
  dirInsert : Bool
  dirRemove : Bool

/-- The part of `setHook` that deletes, updates or creates `ltHOOK`. -/
def writeHooks (newHooks : List HookObj) (view : View) : Except Ter View :=
  let newHooksEmpty := newHooks.all fun hookObj => hookObj.hookHash.isNone
  match view.hooks account, newHooksEmpty with
  | some _, true =>
    if ownerDir.dirRemove = false then .error .tefBAD_LEDGER
    else .ok (view.setHooks account none)
  | some _, false => .ok (view.setHooks account (some newHooks))
  | none, false =>
    if ownerDir.dirInsert = false then .error .tecDIR_FULL
    else .ok (view.setHooks account (some newHooks))
  | none, true => .ok view

/-- `adjustOwnerCount`. -/
def adjustOwnerCount (account : AccountID) (amount : Int) : View :=
  match view.account account with
  | none => view
  | some accountSLE =>
    view.setAccount account
      { accountSLE with ownerCount := confineOwnerCount accountSLE.ownerCount amount }

/-- The part of `setHook` that changes the ledger. -/
def enactHooks (reserveDelta : Int) (st : Setting) (view : View) : Except String (Ter × View) := do
  let view := st.writeDefinitions view
  let namespaces := st.namespacesToDestroy.dedup.mergeSort fun a b => decide (a.data ≤ b.data)
  let (nsDeleteResult, view) ← destroyNamespaces pages account namespaces .tesSUCCESS view
  let view := st.removeDefinitions view
  match writeHooks ownerDir account st.newHooks view with
  | .error ter => .ok (ter, view)
  | .ok view =>
    .ok (nsDeleteResult, if reserveDelta ≠ 0 then adjustOwnerCount view account reserveDelta else view)

/-- `SetHook::setHook`, for directories with at most the given number of pages. -/
def setHook : Except String (Ter × View) :=
  let oldHooks := (view.hooks account).getD []
  match setPositions env view.rules account hookSets oldHooks { peeked := view.hookDefinition } with
  | .error stop =>
    match stop.ter with
    | none => .error "undefined behaviour"
    | some ter => .ok (ter, view)
  | .ok st =>
    match view.account account with
    | none => .error "no account"
    | some accountSLE =>
      let reserveDelta : Int := hookReserve st.newHooks - hookReserve oldHooks
      let newOwnerCount : Int := accountSLE.ownerCount + reserveDelta
      if newOwnerCount < 0 ∨ 0xFFFFFFFF < newOwnerCount then .ok (.tefINTERNAL, view)
      else if accountSLE.balance < view.fees.accountReserve newOwnerCount.toNat then
        .ok (.tecINSUFFICIENT_RESERVE, view)
      else enactHooks ownerDir pages account reserveDelta st view

end

end Xahau.Hook
