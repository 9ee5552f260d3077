import Xahau.Data.Assignments
import Xahau.Hook.Chain
import Xahau.SetHook.Apply

/-! # The parameters of a hook (`SetHook.cpp`, `applyHook.cpp`)

`updateHookParameters` merges the parameters of a hook, its definition and the transaction, and
stores what differs from the definition. `gatherHookParameters` and `hook_param` read them. A name
has the value that the transaction gives, then that of the hook, then that of the definition; an
empty value is none. -/

namespace Xahau.Hook

open Assignments List

/-! ## Reading a parameter -/

section

variable (hookDef : HookDefinition) (hookObj : HookObj) (hookHash : UInt256)
  (overrides : ParamOverrides)

/-- `hook_param`, without memory copies: the override that a hook before has set, or the hook's
value. -/
def hookParam (hookParams : ParameterMap) (paramName : Blob) : Except HookReturnCode Blob :=
  if paramName.length < 1 then .error .tooSmall
  else if 32 < paramName.length then .error .tooBig
  else
    match (overrides.lookup hookHash).bind fun params => params.lookup paramName with
    | some param =>
      -- allow overrides to "delete" parameters
      if param.length = 0 then .error .doesntExist else .ok param
    | none =>
      match hookParams.lookup paramName with
      | some param => if param.length = 0 then .error .doesntExist else .ok param
      | none => .error .doesntExist

/-- What `hook_param` gives to the hook of an entry, if its parameters can be gathered. -/
def seenParameter (paramName : Blob) : Option (Except HookReturnCode Blob) :=
  (gatherHookParameters hookDef hookObj).map fun hookParams =>
    hookParam hookHash overrides hookParams paramName

/-- No hook before has set an override for the name. -/
def NotOverridden (hookHash : UInt256) (paramName : Blob) : Prop :=
  ((overrides.lookup hookHash).bind fun params => params.lookup paramName) = none

end

instance (overrides : ParamOverrides) (hookHash : UInt256) (paramName : Blob) :
    Decidable (NotOverridden overrides hookHash paramName) :=
  inferInstanceAs (Decidable (_ = _))

variable {name : Blob} {hookDef : HookDefinition}

theorem HookDefinition.ParametersValid.defaults (h : hookDef.ParametersValid) :
    ∃ defaults, hookDef.hookParameters = some defaults ∧ (defaults.map Prod.fst).Nodup ∧
      ∀ p ∈ defaults, p.1.length ≤ 32 := by
  obtain ⟨defaults, hdefa, hvalid⟩ := h
  rw [validateHookParams, Bool.and_eq_true, Bool.and_eq_true, decide_eq_true_eq, decide_eq_true_eq,
    map_map] at hvalid
  refine ⟨defaults, hdefa, hvalid.2, fun p hp => ?_⟩
  have hsize := all_eq_true.1 hvalid.1.2 (p.1, some p.2) (mem_map_of_mem hp)
  exact (of_decide_eq_true hsize).1

/-- What `hook_param` gives for a value; an empty one is none. -/
def valueRead (paramName : Blob) (value : Option Blob) : Except HookReturnCode Blob :=
  if paramName.length < 1 then .error .tooSmall
  else if 32 < paramName.length then .error .tooBig
  else
    match value with
    | some param => if param.length = 0 then .error .doesntExist else .ok param
    | none => .error .doesntExist

theorem valueRead_nil (paramName : Blob) : valueRead paramName (some []) = valueRead paramName none :=
  rfl

theorem valueRead_some {paramName : Blob} (hpos : paramName ≠ []) (hsize : paramName.length ≤ 32)
    {param : Blob} (hpar : param ≠ []) : valueRead paramName (some param) = .ok param := by
  have hlen := length_pos_iff.2 hpos
  rw [valueRead, if_neg (by omega), if_neg (by omega)]
  exact if_neg fun h => hpar (length_eq_zero_iff.1 h)

theorem valueRead_none (paramName : Blob) : ∃ code, valueRead paramName none = .error code := by
  rw [valueRead]
  split
  next => exact ⟨_, rfl⟩
  next =>
    split
    next => exact ⟨_, rfl⟩
    next => exact ⟨_, rfl⟩

section

variable {defaults : List (Blob × Blob)}

/-- **A hook sees its own value, or else that of the definition.** -/
theorem seenParameter_eq (hdef : hookDef.hookParameters = some defaults) (hookObj : HookObj)
    {hookHash : UInt256} {overrides : ParamOverrides} (ho : NotOverridden overrides hookHash name) :
    seenParameter hookDef hookObj hookHash overrides name =
      some (valueRead name
        ((lastValue (hookObj.hookParameters.getD []) name).or (lastValue defaults name))) := by
  rw [NotOverridden] at ho
  rw [seenParameter, gatherHookParameters, hdef, Option.map_some, Option.map_some, hookParam, ho,
    lookup_foldl_insert, lookup_foldl_insert, AList.lookup_empty, Option.or_none]
  rfl

/-! ## Merging the parameters -/

/-- The value of a definition replaces an absent value and one that is the same. -/
def IsReset (default : Option Blob) (pv : Option Blob) : Prop :=
  ∃ v ∈ default, pv = none ∨ pv = some v

instance (default pv : Option Blob) : Decidable (IsReset default pv) :=
  inferInstanceAs (Decidable (∃ v ∈ default, _))

@[simp] theorem not_isReset_none (pv : Option Blob) : ¬ IsReset none pv :=
  fun ⟨_, hv, _⟩ => Option.not_mem_none _ hv

@[simp] theorem isReset_some (v : Blob) (pv : Option Blob) :
    IsReset (some v) pv ↔ pv = none ∨ pv = some v := by
  simp [IsReset]

/-- The loop over the defaults, for one name: a reset value is erased, and an empty one in place of
a default marked. -/
theorem resetToDefaults_spec (hd : (defaults.map Prod.fst).Nodup) (parameters : Parameters)
    (blanks : List Blob) (name : Blob) :
    (resetToDefaults defaults parameters blanks).1.lookup name =
        (parameters.lookup name).bind (fun pv =>
          if IsReset (lastValue defaults name) pv then none else some pv) ∧
      (name ∈ (resetToDefaults defaults parameters blanks).2 ↔ name ∈ blanks ∨
        ∃ v ∈ lastValue defaults name, parameters.lookup name = some (some []) ∧ v ≠ []) := by
  induction defaults generalizing parameters blanks with
  | nil =>
    cases h : parameters.lookup name <;> simp [resetToDefaults, h]
  | cons d defaults ih =>
    obtain ⟨n, v⟩ := d
    rw [map_cons, nodup_cons] at hd
    replace ih := ih hd.2
    have hrest := lastValue_eq_none hd.1
    by_cases hn : n = name
    · subst hn
      -- the rest of the loop does not see the name
      have hlast : lastValue ((n, v) :: defaults) n = some v := by
        rw [lastValue, hrest, if_pos rfl, Option.none_or]
      rw [hlast]
      simp only [hrest, not_isReset_none, if_false, Option.bind_fun_some, Option.not_mem_none,
        false_and, exists_false, or_false] at ih
      rw [resetToDefaults]
      split
      next hpv => simp [ih, hpv]
      next pv hpv =>
        split
        next hres =>
          have hbla : ¬ (pv = some [] ∧ v ≠ []) := by
            rintro ⟨rfl, hv⟩
            exact hv (by simpa [eq_comm] using hres)
          simp [ih, hpv, hres, -not_and, hbla]
        next hres =>
          split
          next hbla =>
            subst hbla
            have hv : v ≠ [] := by simpa [eq_comm] using hres
            simp [ih, hpv, hv, Ne.symm hv]
          next hbla => simp [ih, hpv, hres, hbla]
    · have hlast : lastValue ((n, v) :: defaults) name = lastValue defaults name := by
        rw [lastValue, if_neg hn, Option.or_none]
      rw [hlast, resetToDefaults]
      split
      next => exact ih parameters blanks
      next pv hpv =>
        split
        next =>
          have hne := AList.lookup_erase_ne (s := parameters) (Ne.symm hn)
          have := ih (parameters.erase n) blanks
          rwa [hne] at this
        next =>
          split
          next =>
            have := ih parameters (n :: blanks)
            rwa [mem_cons, or_iff_right (Ne.symm hn)] at this
          next => exact ih parameters blanks

/-- What is not removed at the end: a value that is empty only if it is marked. -/
def keptValue (explicitBlanks : List Blob) (name : Blob) (pv : Option Blob) : Option Blob :=
  if pv = some [] ∧ name ∉ explicitBlanks then none else pv

theorem kept_eq_pick (parameters : Parameters) (explicitBlanks : List Blob) :
    (parameters.entries.filterMap fun entry =>
      match entry.2 with
      | none => none
      | some pv => if pv = [] ∧ entry.1 ∉ explicitBlanks then none else some (entry.1, pv)) =
      pick (keptValue explicitBlanks) parameters := by
  rw [pick]
  congr 1
  funext entry
  obtain ⟨name, _ | pv⟩ := entry
  · rw [keptValue, ite_self]
    rfl
  by_cases h : pv = [] ∧ name ∉ explicitBlanks
  · simp [keptValue, h]
  · simp only [keptValue, Option.some_inj, if_neg h, Option.map_some]

/-- What is stored for a name, from the value after the assignments. -/
def storedValue (default : Option Blob) (pv : Option Blob) : Option Blob :=
  if IsReset default pv then none else if pv = some [] ∧ default = none then none else pv

theorem keptValue_of_marked {explicitBlanks : List Blob} {default pv : Option Blob}
    (hres : ¬ IsReset default pv)
    (hmar : name ∈ explicitBlanks ↔ ∃ v ∈ default, pv = some [] ∧ v ≠ []) :
    keptValue explicitBlanks name pv = if pv = some [] ∧ default = none then none else pv := by
  rw [keptValue]
  refine if_congr (and_congr_right fun hpv => ?_) rfl rfl
  rw [hmar]
  subst hpv
  cases default with
  | none => simp
  | some v =>
    have hv : v ≠ [] := by simpa [eq_comm] using hres
    simp [hv]

/-- **What `updateHookParameters` stores.** -/
theorem updateHookParameters_spec (hdef : hookDef.hookParameters = some defaults)
    (hd : (defaults.map Prod.fst).Nodup) {given : List (Blob × Option Blob)}
    {oldParameters : List (Blob × Blob)} {stored : Option (List (Blob × Blob))}
    (h : updateHookParameters given (some hookDef) oldParameters = .ok stored) :
    ((stored.getD []).map Prod.fst).Nodup ∧ (stored.getD []).length ≤ 16 ∧
      (∀ p ∈ stored.getD [], p.1.length ≤ 32) ∧
      ∀ name, lastValue (stored.getD []) name =
        ((lastValue given name).or ((lastValue oldParameters name).map some)).bind
          (storedValue (lastValue defaults name)) := by
  rw [updateHookParameters, Option.bind_some, hdef] at h
  dsimp only [Option.getD_some] at h
  have hspec := resetToDefaults_spec hd (given.foldl (fun parameters p => parameters.insert p.1 p.2)
    ((oldParameters.map fun p => (p.1, some p.2)).foldl
      (fun parameters p => parameters.insert p.1 p.2) ∅)) []
  simp only [lookup_foldl_insert, AList.lookup_empty, Option.or_none, lastValue_map] at hspec
  generalize resetToDefaults _ _ _ = reset at h hspec
  generalize hkept : List.filterMap _ reset.1.entries = kept at h
  obtain rfl := hkept.symm.trans (kept_eq_pick reset.1 reset.2)
  have hnd := nodup_pick (keptValue reset.2) reset.1
  have hval : ∀ name, lastValue (pick (keptValue reset.2) reset.1) name =
      ((lastValue given name).or ((lastValue oldParameters name).map some)).bind
        (storedValue (lastValue defaults name)) := by
    intro name
    rw [lastValue_pick, (hspec name).1, Option.bind_assoc]
    have hmar := (hspec name).2
    generalize (lastValue given name).or ((lastValue oldParameters name).map some) = value at hmar ⊢
    cases value with
    | none => rfl
    | some pv =>
      rw [Option.bind_some, Option.bind_some, storedValue]
      split
      next => rfl
      next hres =>
        rw [Option.bind_some]
        exact keptValue_of_marked hres (by simpa using hmar)
  generalize pick (keptValue reset.2) reset.1 = kept at h hnd hval
  split at h
  next => cases h
  next hlen =>
    split at h
    next => cases h
    next hsize =>
      have hsiz : ∀ p ∈ kept, p.1.length ≤ 32 := by
        intro p hp
        by_contra hlong
        exact hsize (any_eq_true.2 ⟨p, hp, decide_eq_true (.inl (not_le.1 hlong))⟩)
      split at h
      next hnil =>
        cases h
        subst hnil
        exact ⟨hnd, Nat.zero_le _, hsiz, hval⟩
      next =>
        cases h
        have hperm := kept.mergeSort_perm fun a b => decide (a.1 ≤ b.1)
        refine ⟨(hperm.map Prod.fst).nodup_iff.2 hnd, ?_, ?_, fun name => ?_⟩
        · rw [Option.getD_some, hperm.length_eq]
          exact not_lt.1 hlen
        · exact fun p hp => hsiz p (hperm.mem_iff.1 hp)
        · rw [Option.getD_some, ← lastValue_perm hperm.symm hnd]
          exact hval name

end

theorem valueRead_storedValue (name : Blob) (value : Option (Option Blob)) (default : Option Blob) :
    valueRead name ((value.bind (storedValue default)).or default) =
      valueRead name (value.join.or default) := by
  obtain _ | _ | param := value
  · rfl
  · cases default <;> rfl
  rw [Option.bind_some, storedValue]
  split
  next hres =>
    cases default with
    | none => exact absurd hres (not_isReset_none _)
    | some v =>
      have hv : param = v := by simpa using hres
      rw [hv]
      rfl
  next =>
    split
    next hbla =>
      obtain ⟨hpar, rfl⟩ := hbla
      rw [hpar]
      exact (valueRead_nil name).symm
    next => rfl

theorem storedValue_cases {v : Blob} (hv : v ≠ []) (default : Option Blob) :
    storedValue default (some v) = some v ∨ default = some v := by
  by_cases hres : IsReset default (some v)
  · obtain ⟨w, hw, h | h⟩ := hres
    · cases h
    · exact .inr (by rw [h]; exact hw)
  · have hbla : ¬ (some v = some [] ∧ default = none) := fun h => hv (Option.some.inj h.1)
    exact .inl (by rw [storedValue, if_neg hres, if_neg hbla])

/-- A definition with two parameters. -/
def sampleParametersDef : HookDefinition where
  hookNamespace := .zero
  hookOn := .zero
  hookCanEmit := none
  flags := 0
  hookParameters := some [([1], [10]), ([2], [20])]
  createCode := [0]
  referenceCount := 1
  fee := 0
  hookCallbackFee := none

/-- A hook with its own value for the second of them, and with a third one. -/
def sampleParametersHook : HookObj :=
  { HookObj.blank with hookHash := some .zero, hookParameters := some [([2], [21]), ([3], [30])] }

end Xahau.Hook
