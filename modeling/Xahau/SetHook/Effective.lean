import Xahau.SetHook.Attributes

/-! # The effective attributes of a hook

A hook object leaves out what is as in its definition, to which the code that runs hooks falls back.
After an installation, the effective attributes should be those given, and those of the definition
otherwise; after an update, those not mentioned should be as before.

* An installation compares the given `HookCanEmit` with that of the **old** definition if the new
  one has none, and leaves it out if they are equal.
* An update does not carry over the flags of the old hook. -/

namespace Xahau.Hook

open Assignments Checked Option

/-- The attributes of a hook that are effective when it is run. -/
@[ext] structure Attributes where
  hookOn : UInt256
  hookCanEmit : UInt256
  hookNamespace : UInt256
  /-- What `hook_param` gives for a name. -/
  parameter : Blob → Option (Except HookReturnCode Blob)

/-- The attributes of a hook, as the code that runs hooks reads them. -/
def HookObj.attributes (hookObj : HookObj) (hookHash : UInt256) (hookDef : HookDefinition) :
    Attributes where
  hookOn := hookObj.hookOn.getD hookDef.hookOn
  hookCanEmit := getHookCanEmit hookObj hookDef
  hookNamespace := hookObj.hookNamespace.getD hookDef.hookNamespace
  parameter := seenParameter hookDef hookObj hookHash ∅

/-- The attributes that an entry gives, and those of the definition otherwise. -/
def HookSetObj.givenAttributes (hookSetObj : HookSetObj) (hookDef : HookDefinition) :
    Attributes where
  hookOn := hookSetObj.hookOn.getD hookDef.hookOn
  hookCanEmit := getHookCanEmit { HookObj.blank with hookCanEmit := hookSetObj.hookCanEmit } hookDef
  hookNamespace := hookSetObj.hookNamespace.getD hookDef.hookNamespace
  parameter name :=
    some (valueRead name ((lastValue (hookSetObj.hookParameters.getD []) name).join.or
      (lastValue (hookDef.hookParameters.getD []) name)))

theorem HookDefinition.SameAttributes.attributes {hookDef hookDef' : HookDefinition}
    (h : hookDef.SameAttributes hookDef') (hookObj : HookObj) (hookHash : UInt256) :
    hookObj.attributes hookHash hookDef' = hookObj.attributes hookHash hookDef := by
  obtain ⟨n, rfl⟩ := h
  rfl

theorem notOverridden_empty (hookHash : UInt256) (name : Blob) : NotOverridden ∅ hookHash name := rfl

theorem getD_unlessDefault (value : Option UInt256) (defValue : UInt256) :
    (value.bind (unlessDefault (some defValue))).getD defValue = value.getD defValue := by
  cases value with
  | none => rfl
  | some value =>
    rw [bind_some, unlessDefault]
    split
    next h => exact Option.some.inj h
    next => rfl

section

variable {env : SetHookEnv} {ownerDir : OwnerDir} {pages : ℕ} {account : AccountID}
  {hookSets : List HookSetObj} {view view' : View} {ter : Ter} {hookSetObj : HookSetObj}
  {hookHash : UInt256} {hookDef : HookDefinition}

/-! ## Installing -/

/-- The entry names a definition: by its hash, or by code that a definition has. -/
def HookSetObj.Installs (hookSetObj : HookSetObj) (env : SetHookEnv) (hookHash : UInt256) : Prop :=
  (inferOperation hookSetObj = .hsoINSTALL ∧ hookSetObj.hookHash = some hookHash) ∨
    (inferOperation hookSetObj = .hsoCREATE ∧
      env.sha512Half (hookSetObj.createCode.getD []) = hookHash)

/-- The hook object that an installation makes. -/
def installedHook (hookSetObj : HookSetObj) (hookHash : UInt256) (newDef : HookDefinition)
    (oldDef? : Option HookDefinition) (hookParameters : Option (List (Blob × Blob))) : HookObj where
  hookHash := some hookHash
  hookNamespace := hookSetObj.hookNamespace.bind (unlessDefault (some newDef.hookNamespace))
  hookOn := hookSetObj.hookOn.bind (unlessDefault (some newDef.hookOn))
  hookCanEmit := hookSetObj.hookCanEmit.bind
    (unlessDefault (newDef.hookCanEmit.or (oldDef?.bind HookDefinition.hookCanEmit)))
  hookParameters
  hookGrants := givenGrants hookSetObj
  flags := hookSetObj.flags.map newFlags

variable {newDef : HookDefinition} {oldHook : Option HookObj} {st st' : Setting}

theorem newHooks_setInstall
    (h : setInstall hookSetObj oldHook hookHash (some newDef) st = .ok st') :
    ∃ hookParameters,
      updateHookParameters (hookSetObj.hookParameters.getD []) (some newDef) [] = .ok hookParameters ∧
      st'.newHooks = st.newHooks ++ [installedHook hookSetObj hookHash newDef
        ((oldHook.bind HookObj.hookHash).bind st.peeked) hookParameters] := by
  replace h := of_check h
  obtain ⟨hookParameters, hpar, h⟩ := bind_eq_ok.mp h
  cases h
  refine ⟨hookParameters, hpar, ?_⟩
  exact congrArg (· ++ _) (Setting.newHooks_acquire.trans Setting.newHooks_release)

theorem setInstall_of_setPosition {rules : Rules} (hop : hookSetObj.Installs env hookHash)
    (hpk : st.peeked hookHash = some newDef)
    (h : setPosition env rules account oldHook (some hookSetObj) st = .ok st') :
    ∃ namespaces, setInstall hookSetObj oldHook hookHash (some newDef)
      { st with namespacesToDestroy := namespaces } = .ok st' := by
  unfold setPosition at h
  dsimp only at h
  obtain ⟨namespaces, hmark⟩ := markNamespace_eq (inferOperation hookSetObj) hookSetObj oldHook st
  rw [hmark] at h
  refine ⟨namespaces, ?_⟩
  rcases hop with ⟨hop, hhash⟩ | ⟨hop, rfl⟩
  · rw [hop, hhash] at h
    dsimp only [getD_some] at h
    rwa [hpk] at h
  rw [hop] at h
  replace h := of_check (of_check h)
  unfold Setting.definition at h
  dsimp only at h
  rwa [hpk, some_or] at h

/-- The given `HookCanEmit` is lost: the old definition has it, and the new one has none. -/
def HookSetObj.CanEmitLost (hookSetObj : HookSetObj) (hookDef : HookDefinition)
    (oldDef? : Option HookDefinition) : Prop :=
  hookDef.hookCanEmit = none ∧ ∃ hookCanEmit ∈ hookSetObj.hookCanEmit,
    oldDef?.bind HookDefinition.hookCanEmit = some hookCanEmit ∧ hookCanEmit ≠ hookCanEmitDefault

instance (hookSetObj : HookSetObj) (hookDef : HookDefinition) (oldDef? : Option HookDefinition) :
    Decidable (hookSetObj.CanEmitLost hookDef oldDef?) :=
  inferInstanceAs (Decidable (_ ∧ ∃ hookCanEmit ∈ hookSetObj.hookCanEmit, _))

/-- **The `HookCanEmit` that is effective** is the right one unless it is lost. -/
theorem getHookCanEmit_installed_iff (hookHash : UInt256) (oldDef? : Option HookDefinition)
    (hookParameters : Option (List (Blob × Blob))) :
    getHookCanEmit (installedHook hookSetObj hookHash hookDef oldDef? hookParameters) hookDef
        = getHookCanEmit { HookObj.blank with hookCanEmit := hookSetObj.hookCanEmit } hookDef ↔
      ¬ hookSetObj.CanEmitLost hookDef oldDef? := by
  show ((hookSetObj.hookCanEmit.bind _).or hookDef.hookCanEmit).getD hookCanEmitDefault
    = (hookSetObj.hookCanEmit.or hookDef.hookCanEmit).getD hookCanEmitDefault ↔ _
  unfold HookSetObj.CanEmitLost
  cases hookSetObj.hookCanEmit with
  | none => simp
  | some hookCanEmit =>
    rw [bind_some, unlessDefault]
    cases hookDef.hookCanEmit with
    | some defHookCanEmit =>
      by_cases heq : defHookCanEmit = hookCanEmit <;> simp [heq]
    | none =>
      by_cases heq : oldDef?.bind HookDefinition.hookCanEmit = some hookCanEmit
      · simp [heq, eq_comm]
      · simp [heq]

/-- The definition of the hook that is at a position before the transaction. -/
def View.definitionAt (view : View) (account : AccountID) (i : ℕ) : Option HookDefinition :=
  (((view.hooks account).getD [])[i]?.bind HookObj.hookHash).bind view.hookDefinition

theorem canEmitLost_congr (hst : st.Unaltered view.hookDefinition) (oldHash : Option UInt256) :
    hookSetObj.CanEmitLost hookDef (oldHash.bind st.peeked) ↔
      hookSetObj.CanEmitLost hookDef (oldHash.bind view.hookDefinition) := by
  suffices (oldHash.bind st.peeked).bind HookDefinition.hookCanEmit
      = (oldHash.bind view.hookDefinition).bind HookDefinition.hookCanEmit by
    unfold HookSetObj.CanEmitLost
    rw [this]
  cases oldHash with
  | none => rfl
  | some oldHash =>
    have hmap := hst.map_peeked (f := HookDefinition.hookCanEmit) (fun _ _ => rfl) oldHash
    simpa [bind_map] using congrArg (Option.bind · id) hmap

theorem attributes_installedHook_iff (hvalid : hookDef.ParametersValid)
    {hookParameters : Option (List (Blob × Blob))}
    (hpara : updateHookParameters (hookSetObj.hookParameters.getD []) (some hookDef) []
      = .ok hookParameters) (oldDef? : Option HookDefinition) :
    (installedHook hookSetObj hookHash hookDef oldDef? hookParameters).attributes hookHash hookDef
        = hookSetObj.givenAttributes hookDef ↔ ¬ hookSetObj.CanEmitLost hookDef oldDef? := by
  obtain ⟨defaults, hdefa, hnd, -⟩ := hvalid.defaults
  obtain ⟨-, -, -, hval⟩ := updateHookParameters_spec hdefa hnd hpara
  have hpar : ∀ name, seenParameter hookDef
      (installedHook hookSetObj hookHash hookDef oldDef? hookParameters) hookHash ∅ name =
        (hookSetObj.givenAttributes hookDef).parameter name := by
    intro name
    rw [seenParameter_eq hdefa _ (notOverridden_empty hookHash name)]
    show some (valueRead name ((lastValue (hookParameters.getD []) name).or _)) = some _
    rw [hval, valueRead_storedValue, hdefa]
    simp
  rw [← getHookCanEmit_installed_iff hookHash oldDef? hookParameters]
  refine ⟨congrArg Attributes.hookCanEmit, fun hcanEmit => ?_⟩
  refine Attributes.ext ?_ hcanEmit ?_ (funext hpar)
  · exact getD_unlessDefault hookSetObj.hookOn hookDef.hookOn
  · exact getD_unlessDefault hookSetObj.hookNamespace hookDef.hookNamespace

/-- **The attributes after an installation**: those given and else those of the definition, unless
the given `HookCanEmit` is lost. -/
theorem attributes_installed_iff (hparameters : view.toHookRegistry.ParametersValid)
    (hset : setHook env ownerDir pages account hookSets view = .ok (ter, view'))
    (hsuccess : ter.isTesSuccess = true) {i : ℕ} (hi : hookSets[i]? = some hookSetObj)
    (hop : hookSetObj.Installs env hookHash) (hdef : view.hookDefinition hookHash = some hookDef) :
    ∃ hooks hookObj, view'.hooks account = some hooks ∧ hooks[i]? = some hookObj ∧
      hookObj.hookHash = some hookHash ∧
      ∀ hookDef', view'.hookDefinition hookHash = some hookDef' →
        (hookObj.attributes hookHash hookDef' = hookSetObj.givenAttributes hookDef ↔
          ¬ hookSetObj.CanEmitLost hookDef (view.definitionAt account i)) := by
  obtain ⟨st₁, st₂, hookObj, hst₁, hposition, hpush, hplace⟩ := hooks_of_setHook hset hsuccess hi
  obtain ⟨newDef, hpeeked, hsame⟩ := hst₁.of_ledger hdef
  obtain ⟨namespaces, hinstall⟩ := setInstall_of_setPosition hop hpeeked hposition
  obtain ⟨hookParameters, hparams, hnew⟩ := newHooks_setInstall hinstall
  -- the position has added the installed hook
  rw [hpush, List.append_cancel_left_eq, List.singleton_inj] at hnew
  obtain ⟨hooks, hhooks, hat⟩ := hplace (by rw [hnew]; exact nofun)
  refine ⟨hooks, hookObj, hhooks, hat, by rw [hnew]; rfl, fun hookDef' hdef' => ?_⟩
  obtain ⟨n, rfl⟩ := hsame
  have hvalid := hparameters hookHash hookDef hdef
  rw [(sameAttributes_of_setHook hset hsuccess hdef hdef').attributes, hnew]
  exact (attributes_installedHook_iff hvalid hparams _).trans
    (not_congr (canEmitLost_congr hst₁ (((view.hooks account).getD [])[i]?.bind HookObj.hookHash)))

end

/-- A definition with `HookCanEmit`, and one without. -/
def sampleAttributesDef (hookCanEmit : Option UInt256) : HookDefinition :=
  { sampleParametersDef with hookCanEmit }

/-- The owner has a hook of the definition with `HookCanEmit`. -/
def sampleAttributesView (hookObj : HookObj) : View :=
  emptyView {
    hooks := fun acc => if acc = owner then some [hookObj] else none
    hookDefinition := fun hookHash =>
      if hookHash = .ofByte 7 then some (sampleAttributesDef none)
      else if hookHash = .ofByte 8 then some (sampleAttributesDef (some (.ofByte 1)))
      else none }

theorem sampleAttributesView_valid (hookObj : HookObj) :
    (sampleAttributesView hookObj).toHookRegistry.ParametersValid := by
  intro hookHash hookDef hdef
  have hpar : sampleParametersDef.ParametersValid := by decide
  have hvalid : ∀ hookCanEmit, (sampleAttributesDef hookCanEmit).ParametersValid := fun _ => hpar
  change hookDef ∈ ite _ _ _ at hdef
  split at hdef
  next =>
    cases hdef
    exact hvalid _
  next =>
    split at hdef
    next =>
      cases hdef
      exact hvalid _
    next => cases hdef

def sampleOldHook : HookObj := { HookObj.blank with hookHash := some (.ofByte 8), flags := some 4 }

/-- The definition without `HookCanEmit` is installed in its place. -/
def sampleInstallSet (hookCanEmit : UInt256) : HookSetObj where
  hookHash := some (.ofByte 7)
  hookCanEmit := some hookCanEmit
  flags := some 1

/-- A `HookCanEmit` other than that of the old definition is effective. -/
theorem sampleInstall_attributes :
    ∃ r, setHook plainEnv ⟨true, true⟩ 0 owner [sampleInstallSet (.ofByte 2)]
        (sampleAttributesView sampleOldHook) = .ok r ∧
      ∃ hooks hookObj hookDef', r.2.hooks owner = some hooks ∧ hooks[0]? = some hookObj ∧
        r.2.hookDefinition (.ofByte 7) = some hookDef' ∧
        hookObj.attributes (.ofByte 7) hookDef'
          = (sampleInstallSet (.ofByte 2)).givenAttributes (sampleAttributesDef none) := by
  have hrun : ∃ r, setHook plainEnv ⟨true, true⟩ 0 owner [sampleInstallSet (.ofByte 2)]
      (sampleAttributesView sampleOldHook) = .ok r ∧ r.1.isTesSuccess = true ∧
        (r.2.hookDefinition (.ofByte 7)).isSome = true := by
    decide +kernel
  obtain ⟨⟨ter, view'⟩, hset, hsuccess, hdef'⟩ := hrun
  obtain ⟨hookDef', hdef'⟩ := isSome_iff_exists.mp hdef'
  have hdef : (sampleAttributesView sampleOldHook).hookDefinition (.ofByte 7)
      = some (sampleAttributesDef none) := rfl
  obtain ⟨hooks, hookObj, hhooks, hat, -, hiff⟩ := attributes_installed_iff
    (sampleAttributesView_valid sampleOldHook) hset hsuccess (i := 0) rfl (.inl ⟨by decide, rfl⟩)
    hdef
  exact ⟨_, hset, hooks, hookObj, hookDef', hhooks, hat, hdef',
    (hiff hookDef' hdef').mpr (by decide)⟩

/-- **The given `HookCanEmit` is not effective**: it is that of the old definition, and the new one
has none. -/
theorem canEmit_lost :
    ∃ r, setHook plainEnv ⟨true, true⟩ 0 owner [sampleInstallSet (.ofByte 1)]
        (sampleAttributesView sampleOldHook) = .ok r ∧ r.1 = .tesSUCCESS ∧
      ∃ hooks ∈ r.2.hooks owner, ∃ hookObj ∈ hooks[0]?,
        ∃ hookDef' ∈ r.2.hookDefinition (.ofByte 7),
          hookObj.hookHash = some (.ofByte 7) ∧
          (hookObj.attributes (.ofByte 7) hookDef').hookCanEmit = hookCanEmitDefault ∧
          ((sampleInstallSet (.ofByte 1)).givenAttributes (sampleAttributesDef none)).hookCanEmit
            = .ofByte 1 := by
  decide +kernel

/-! ## Updating -/

section

variable {env : SetHookEnv} {ownerDir : OwnerDir} {pages : ℕ} {account : AccountID}
  {hookSets : List HookSetObj} {view view' : View} {ter : Ter} {hookSetObj : HookSetObj}
  {hookHash : UInt256} {hookDef : HookDefinition}

/-- The hook object that an update makes. -/
def updatedHook (hookSetObj : HookSetObj) (oldHook : HookObj) (oldDef : HookDefinition)
    (hookParameters : Option (List (Blob × Blob))) : HookObj where
  hookHash := oldHook.hookHash
  hookNamespace :=
    updateField (some oldDef.hookNamespace) oldHook.hookNamespace hookSetObj.hookNamespace
  hookOn := updateField (some oldDef.hookOn) oldHook.hookOn hookSetObj.hookOn
  hookCanEmit := updateField oldDef.hookCanEmit oldHook.hookCanEmit hookSetObj.hookCanEmit
  hookParameters
  hookGrants :=
    match hookSetObj.hookGrants with
    | some grants => if grants = [] then none else some grants
    | none => oldHook.hookGrants
  flags := hookSetObj.flags

variable {oldHook : HookObj}

theorem newHooks_of_update {rules : Rules} {oldDef : HookDefinition}
    {st st' : Setting} (hop : inferOperation hookSetObj = .hsoUPDATE)
    (hhash : oldHook.hookHash = some hookHash) (hpk : st.peeked hookHash = some oldDef)
    (h : setPosition env rules account (some oldHook) (some hookSetObj) st = .ok st') :
    ∃ hookParameters, updatedParameters hookSetObj oldHook oldDef = .ok hookParameters ∧
      st'.newHooks = st.newHooks ++ [updatedHook hookSetObj oldHook oldDef hookParameters] := by
  unfold setPosition at h
  dsimp only at h
  obtain ⟨namespaces, hmark⟩ := markNamespace_eq (inferOperation hookSetObj) hookSetObj
    (some oldHook) st
  rw [hmark, hop] at h
  unfold setUpdate at h
  dsimp only [bind_eq_bind, bind_some] at h
  rw [hhash, bind_some, hpk] at h
  obtain ⟨hookParameters, hpar, h⟩ := bind_eq_ok.mp h
  cases h
  refine ⟨hookParameters, hpar, ?_⟩
  unfold updatedHook
  rw [hhash]
  rfl

/-- The entry mentions a parameter: it names it, or it deletes all of them. -/
def HookSetObj.MentionsParameter (hookSetObj : HookSetObj) (name : Blob) : Prop :=
  hookSetObj.hookParameters = some [] ∨ name ∈ (hookSetObj.hookParameters.getD []).map Prod.fst

/-- **The frame of an update**: what is not mentioned is effective as before. -/
structure HookSetObj.Framed (hookSetObj : HookSetObj) (hookHash : UInt256) (oldHook : HookObj)
    (hookDef : HookDefinition) (hookObj : HookObj) (hookDef' : HookDefinition) : Prop where
  hash : hookObj.hookHash = oldHook.hookHash
  hookOn : hookSetObj.hookOn = none →
    (hookObj.attributes hookHash hookDef').hookOn = (oldHook.attributes hookHash hookDef).hookOn
  hookCanEmit : hookSetObj.hookCanEmit = none →
    (hookObj.attributes hookHash hookDef').hookCanEmit
      = (oldHook.attributes hookHash hookDef).hookCanEmit
  hookNamespace : hookSetObj.hookNamespace = none →
    (hookObj.attributes hookHash hookDef').hookNamespace
      = (oldHook.attributes hookHash hookDef).hookNamespace
  parameter : ∀ name, ¬ hookSetObj.MentionsParameter name →
    (hookObj.attributes hookHash hookDef').parameter name
      = (oldHook.attributes hookHash hookDef).parameter name
  hookGrants : hookSetObj.hookGrants = none → hookObj.hookGrants = oldHook.hookGrants
  collect : hookSetObj.flags = none →
    isCollect (hookObj.flags.getD hookDef'.flags) = isCollect (oldHook.flags.getD hookDef.flags)

/-- Whether `hsfCOLLECT` is effective does not depend on the hook's flags, if the entry has none. -/
def HookSetObj.CollectKept (hookSetObj : HookSetObj) (oldHook : HookObj)
    (hookDef : HookDefinition) : Prop :=
  hookSetObj.flags = none → isCollect (oldHook.flags.getD hookDef.flags) = isCollect hookDef.flags

instance (hookSetObj : HookSetObj) (oldHook : HookObj) (hookDef : HookDefinition) :
    Decidable (hookSetObj.CollectKept oldHook hookDef) :=
  inferInstanceAs (Decidable (_ → _))

theorem parameter_updatedHook (hvalid : hookDef.ParametersValid)
    {hookParameters : Option (List (Blob × Blob))}
    (hpar : updatedParameters hookSetObj oldHook hookDef = .ok hookParameters) {name : Blob}
    (hname : ¬ hookSetObj.MentionsParameter name) :
    seenParameter hookDef (updatedHook hookSetObj oldHook hookDef hookParameters) hookHash ∅ name
      = seenParameter hookDef oldHook hookHash ∅ name := by
  obtain ⟨hall, hname⟩ := not_or.mp hname
  unfold updatedParameters at hpar
  rw [if_neg hall] at hpar
  obtain ⟨defaults, hdefa, hnd, -⟩ := hvalid.defaults
  obtain ⟨-, -, -, hval⟩ := updateHookParameters_spec hdefa hnd hpar
  have ho := notOverridden_empty hookHash name
  rw [seenParameter_eq hdefa _ ho, seenParameter_eq hdefa _ ho]
  show some (valueRead name ((lastValue (hookParameters.getD []) name).or _)) = some _
  rw [hval, valueRead_storedValue, lastValue_eq_none hname, none_or]
  cases lastValue (oldHook.hookParameters.getD []) name <;> rfl

/-- **An update keeps what it does not mention**, unless it has no flags and the old ones mattered
for `hsfCOLLECT`. -/
theorem framed_updated_iff {oldHook : HookObj} (hparameters : view.toHookRegistry.ParametersValid)
    (hset : setHook env ownerDir pages account hookSets view = .ok (ter, view'))
    (hsuccess : ter.isTesSuccess = true) {i : ℕ} (hi : hookSets[i]? = some hookSetObj)
    (hop : inferOperation hookSetObj = .hsoUPDATE)
    (hold : ((view.hooks account).getD [])[i]? = some oldHook)
    (hhash : oldHook.hookHash = some hookHash) (hdef : view.hookDefinition hookHash = some hookDef) :
    ∃ hooks hookObj, view'.hooks account = some hooks ∧ hooks[i]? = some hookObj ∧
      ∀ hookDef', view'.hookDefinition hookHash = some hookDef' →
        (hookSetObj.Framed hookHash oldHook hookDef hookObj hookDef' ↔
          hookSetObj.CollectKept oldHook hookDef) := by
  obtain ⟨st₁, st₂, hookObj, hst₁, hposition, hpush, hplace⟩ := hooks_of_setHook hset hsuccess hi
  obtain ⟨oldDef, hpeeked, n, rfl⟩ := hst₁.of_ledger hdef
  rw [hold] at hposition
  obtain ⟨hookParameters, hparams, hnew⟩ := newHooks_of_update hop hhash hpeeked hposition
  rw [hpush, List.append_cancel_left_eq, List.singleton_inj] at hnew
  obtain ⟨hooks, hhooks, hat⟩ := hplace (by rw [hnew]; exact hhash ▸ some_ne_none hookHash)
  refine ⟨hooks, hookObj, hhooks, hat, fun hookDef' hdef' => ?_⟩
  have hvalid := hparameters hookHash hookDef hdef
  obtain ⟨n', rfl⟩ := sameAttributes_of_setHook hset hsuccess hdef hdef'
  subst hnew
  constructor
  · intro hframed hflags
    have hcollect := hframed.collect hflags
    change isCollect (hookSetObj.flags.getD hookDef.flags) = _ at hcollect
    rw [hflags] at hcollect
    exact hcollect.symm
  · intro hkept
    refine ⟨rfl, fun h => ?_, fun h => ?_, fun h => ?_, fun name hname => ?_, fun h => ?_,
      fun h => ?_⟩
    · show (updateField _ _ hookSetObj.hookOn).getD _ = _
      rw [h]
      rfl
    · show ((updateField _ _ hookSetObj.hookCanEmit).or _).getD _ = _
      rw [h]
      rfl
    · show (updateField _ _ hookSetObj.hookNamespace).getD _ = _
      rw [h]
      rfl
    · exact parameter_updatedHook hvalid hparams hname
    · show (match hookSetObj.hookGrants with | some grants => _ | none => _) = _
      rw [h]
    · show isCollect (hookSetObj.flags.getD hookDef.flags) = _
      rw [h]
      exact (hkept h).symm

end

/-- Only `HookOn` is updated. -/
def sampleUpdateSet : HookSetObj where
  hookOn := some (.ofByte 5)

/-- A hook without flags of its own keeps what is not mentioned. -/
theorem sampleUpdate_framed :
    ∃ r, setHook plainEnv ⟨true, true⟩ 0 owner [sampleUpdateSet]
        (sampleAttributesView { sampleOldHook with flags := none }) = .ok r ∧
      ∃ hooks hookObj hookDef', r.2.hooks owner = some hooks ∧ hooks[0]? = some hookObj ∧
        r.2.hookDefinition (.ofByte 8) = some hookDef' ∧
        sampleUpdateSet.Framed (.ofByte 8) { sampleOldHook with flags := none }
          (sampleAttributesDef (some (.ofByte 1))) hookObj hookDef' := by
  have hrun : ∃ r, setHook plainEnv ⟨true, true⟩ 0 owner [sampleUpdateSet]
      (sampleAttributesView { sampleOldHook with flags := none }) = .ok r ∧
        r.1.isTesSuccess = true ∧ (r.2.hookDefinition (.ofByte 8)).isSome = true := by
    decide +kernel
  obtain ⟨⟨ter, view'⟩, hset, hsuccess, hdef'⟩ := hrun
  obtain ⟨hookDef', hdef'⟩ := isSome_iff_exists.mp hdef'
  have hdef : (sampleAttributesView { sampleOldHook with flags := none }).hookDefinition (.ofByte 8)
      = some (sampleAttributesDef (some (.ofByte 1))) := rfl
  obtain ⟨hooks, hookObj, hhooks, hat, hiff⟩ := framed_updated_iff
    (sampleAttributesView_valid { sampleOldHook with flags := none }) hset hsuccess (i := 0) rfl
    (by decide) rfl rfl hdef
  exact ⟨_, hset, hooks, hookObj, hookDef', hhooks, hat, hdef',
    (hiff hookDef' hdef').mpr (by decide)⟩

/-- **The collect flag is lost**: the old hook has it in its own flags, the updated one has none. -/
theorem collect_lost :
    ∃ r, setHook plainEnv ⟨true, true⟩ 0 owner [sampleUpdateSet]
        (sampleAttributesView sampleOldHook) = .ok r ∧ r.1 = .tesSUCCESS ∧
      inferOperation sampleUpdateSet = .hsoUPDATE ∧ sampleUpdateSet.flags = none ∧
      isCollect (sampleOldHook.flags.getD (sampleAttributesDef (some (.ofByte 1))).flags) = true ∧
      ∃ hooks ∈ r.2.hooks owner, ∃ hookObj ∈ hooks[0]?,
        ∃ hookDef' ∈ r.2.hookDefinition (.ofByte 8),
          isCollect (hookObj.flags.getD hookDef'.flags) = false := by
  decide +kernel

end Xahau.Hook
