import Xahau.Guard.Validate
import Xahau.Hook.View

/-! # The operations of a `SetHook` transaction (`SetHook.cpp`)

A `SetHook` transaction has one entry for each position of the hook chain. Which operation an entry
asks for follows from the fields that are present. -/

namespace Xahau.Hook

/-- An entry of the `sfHooks` of the transaction; its fields are optional. -/
structure HookSetObj where
  createCode : Option Blob := none
  hookHash : Option UInt256 := none
  hookNamespace : Option UInt256 := none
  hookOn : Option UInt256 := none
  hookCanEmit : Option UInt256 := none
  hookApiVersion : Option Nat := none
  flags : Option Nat := none
  /-- `sfHookParameters`: names, with a value if it is present. -/
  hookParameters : Option (List (Blob × Option Blob)) := none
  hookGrants : Option (List HookGrant) := none
  deriving DecidableEq

/-- `HookSetOperation`. -/
inductive HookSetOperation : Type where
  | hsoINVALID | hsoNOOP | hsoCREATE | hsoINSTALL | hsoDELETE | hsoNSDELETE | hsoUPDATE
  deriving DecidableEq, Repr

/-- `hsfOVERRIDE`. -/
def isOverride (flags : Nat) : Bool := flags.testBit 0

/-- `hsfNSDELETE`. -/
def isNSDelete (flags : Nat) : Bool := flags.testBit 1

/-- `hook::maxHookParameterKeySize`. -/
def maxHookParameterKeySize : Nat := 32

/-- `hook::maxHookParameterValueSize`. -/
def maxHookParameterValueSize : Nat := 256

/-- `hook::maxHookWasmSize`. -/
def maxHookWasmSize : Nat := 0xFFFF

/-- `hook::maxHookChainLength`. -/
def maxHookChainLength : Nat := 10

section

variable (env : SetHookEnv) (rules : Rules) (hookAcc : AccountID) (hookSetObj : HookSetObj)

/-- `SetHook::inferOperation`. -/
def inferOperation : HookSetOperation :=
  match hookSetObj.hookHash, hookSetObj.createCode with
  | some _, some _ => .hsoINVALID
  | some _, none => .hsoINSTALL
  | none, some createCode => if 0 < createCode.length then .hsoCREATE else .hsoDELETE
  | none, none =>
    if hookSetObj = {} then .hsoNOOP
    else if hookSetObj.hookNamespace.isSome ∧ isNSDelete (hookSetObj.flags.getD 0) then .hsoNSDELETE
    else .hsoUPDATE

/-- `validateHookGrants`: not too many, none for the account itself and none twice. -/
def validateHookGrants (hookGrants : List HookGrant) : Bool :=
  decide (hookGrants.length ≤ 8) &&
    hookGrants.all (fun grant => decide (grant.authorize ≠ some hookAcc)) &&
    decide hookGrants.Nodup

/-- `validateHookParams`: not too many, none too large and no name twice. -/
def validateHookParams (hookParams : List (Blob × Option Blob)) : Bool :=
  decide (hookParams.length ≤ 16) &&
    hookParams.all (fun param => decide (param.1.length ≤ maxHookParameterKeySize ∧
      (param.2.getD []).length ≤ maxHookParameterValueSize)) &&
    decide (hookParams.map Prod.fst).Nodup

/-- The parameters of a definition are present and pass the check at its creation. -/
def HookDefinition.ParametersValid (hookDef : HookDefinition) : Prop :=
  ∃ defaults ∈ hookDef.hookParameters,
    validateHookParams (defaults.map fun p => (p.1, some p.2)) = true

instance (hookDef : HookDefinition) : Decidable hookDef.ParametersValid :=
  inferInstanceAs (Decidable (∃ defaults ∈ hookDef.hookParameters, _))

/-- `HookSetValidation`: whether the entry is valid, and the counts for a new hook. -/
inductive HookSetValidation : Type where
  | valid (isValid : Bool)
  | counts (hook cbak : Nat)
  deriving DecidableEq

/-- What `SetHook` asks of code outside of the ledger. -/
structure SetHookEnv where
  /-- `sha512Half_s`. -/
  sha512Half : Blob → UInt256
  /-- `HookExecutor::validateWasm` finds no error. -/
  validateWasm : Blob → Bool
  /-- The product with rounding in `compute_wce`. -/
  scale : Nat → Nat → Nat → Nat

/-- The part of `SetHook::validateHookSetEntry` that checks the code of a new hook. -/
def validateCreateCode (hook : Blob) : Except Guard.Fault HookSetValidation :=
  let rulesVersion := (if rules.enabled .featureHooksUpdate1 then 1 else 0)
    + (if rules.enabled .fix20250131 then 2 else 0)
  match Guard.validateGuards env.scale hook rulesVersion with
  | .error (.reject _ _) => .ok (.valid false)
  | .error fault => .error fault
  | .ok report =>
    if env.validateWasm hook = false then .ok (.valid false)
    else .ok (.counts report.hookCount report.cbakCount)

/-- `SetHook::validateHookSetEntry`. It throws if a number of the code is out of range. -/
def validateHookSetEntry : Except Guard.Fault HookSetValidation :=
  let flags := hookSetObj.flags.getD 0
  let paramsValid := (hookSetObj.hookParameters.map validateHookParams).getD true
  let grantsValid := (hookSetObj.hookGrants.map (validateHookGrants hookAcc)).getD true
  match inferOperation hookSetObj with
  | .hsoNOOP => .ok (.valid true)
  | .hsoNSDELETE =>
    -- namespace and flags only
    .ok (.valid (decide (hookSetObj =
      { hookNamespace := hookSetObj.hookNamespace, flags := some 2 })))
  | .hsoDELETE =>
    -- code and flags only
    .ok (.valid (decide (hookSetObj =
      { createCode := hookSetObj.createCode, flags := some flags } ∧
        isOverride flags = true ∧ flags < 8)))
  | .hsoINSTALL =>
    .ok (.valid (paramsValid && grantsValid && hookSetObj.hookApiVersion.isNone))
  | .hsoUPDATE =>
    .ok (.valid (!isOverride flags && !(isNSDelete flags && hookSetObj.hookNamespace.isNone) &&
      paramsValid && grantsValid && hookSetObj.hookApiVersion.isNone))
  | .hsoCREATE =>
    if (paramsValid && grantsValid && hookSetObj.hookNamespace.isSome
      && decide (hookSetObj.hookApiVersion = some 0) && hookSetObj.hookOn.isSome) = false then
      .ok (.valid false)
    else
      match hookSetObj.createCode with
      | none => .ok (.valid false)
      | some hook => validateCreateCode env rules hook
  | .hsoINVALID => .ok (.valid false)

end

theorem validateHookParams_of_counts {env : SetHookEnv} {rules : Rules} {hookAcc : AccountID}
    {hookSetObj : HookSetObj} {hook cbak : Nat}
    (h : validateHookSetEntry env rules hookAcc hookSetObj = .ok (.counts hook cbak)) :
    validateHookParams (hookSetObj.hookParameters.getD []) = true := by
  unfold validateHookSetEntry at h
  cases hop : inferOperation hookSetObj <;> rw [hop] at h <;> dsimp only at h <;> try cases h
  split at h
  next => cases h
  next hvalid =>
    rw [Bool.not_eq_false, Bool.and_eq_true, Bool.and_eq_true, Bool.and_eq_true,
      Bool.and_eq_true] at hvalid
    have hpar := hvalid.1.1.1.1
    cases hgiv : hookSetObj.hookParameters with
    | none => rfl
    | some given =>
      rw [hgiv] at hpar
      exact hpar

end Xahau.Hook
