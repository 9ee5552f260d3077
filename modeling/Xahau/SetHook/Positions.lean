import Xahau.SetHook.Apply

/-! # The positions of a hook chain

While `setHook` goes through the positions, the definitions count what the transaction has done so
far: at each position the definition of the old hook is used once less and that of the new hook once
more. -/

namespace Xahau.Hook

open Checked Function List

variable {hookDef : HookDefinition} {oldHooks : List HookObj} {others : UInt256 → ℕ}

/-- Whether an entry of `sfHooks` carries a hash. -/
def HookObj.carries (hookHash : UInt256) (hookObj : HookObj) : Bool :=
  decide (hookObj.hookHash = some hookHash)

/-- The number of hooks that carry a hash. -/
def uses (hookHash : UInt256) (hooks : List HookObj) : ℕ := hooks.countP (HookObj.carries hookHash)

/-! ## The counts while the positions are set -/

namespace Setting

/-- The count of a definition, zero if there is none. -/
def count (st : Setting) (hookHash : UInt256) : ℕ :=
  ((st.definition hookHash).map HookDefinition.referenceCount).getD 0

/-- **What a position does**: it keeps the old hash, or drops it for none, for a definition or for a
new one. -/
inductive Next (st : Setting) (oldHash : Option UInt256) : Setting → Prop where
  | kept (hookObj : HookObj) (hhash : hookObj.hookHash = oldHash) : Next st oldHash (st.push hookObj)
  | deleted : Next st oldHash ((st.release oldHash).push .blank)
  | installed (hookObj : HookObj) (hookHash : UInt256) (hhash : hookObj.hookHash = some hookHash)
      (hdef : st.definition hookHash ≠ none) :
      Next st oldHash (((st.release oldHash).acquire hookHash).push hookObj)
  | created (hookObj : HookObj) (hookHash : UInt256) (hookDef : HookDefinition)
      (hhash : hookObj.hookHash = some hookHash) (hdef : st.definition hookHash = none)
      (hcount : hookDef.referenceCount = 1) (hvalid : hookDef.ParametersValid) :
      Next st oldHash (((st.release oldHash).insert hookHash hookDef).push hookObj)

/-- **What the transaction has noted**: which definitions have changed or are unused. -/
structure Tracks (hookDefinition : UInt256 → Option HookDefinition) (st : Setting) : Prop where
  /-- A definition is only inserted if the ledger has none. -/
  inserted : ∀ {hookHash hookDef}, st.slesToInsert hookHash = some hookDef →
    hookDefinition hookHash = none ∧ 0 < hookDef.referenceCount
  peeked_iff : ∀ {hookHash}, st.peeked hookHash = none ↔ hookDefinition hookHash = none
  /-- A definition that will not be updated is as it was, or not used any more. -/
  unchanged : ∀ {hookHash}, hookHash ∉ st.slesToUpdate →
    st.peeked hookHash = hookDefinition hookHash ∨ st.count hookHash = 0
  unused : ∀ {hookHash hookDef}, st.peeked hookHash = some hookDef →
    hookDef.referenceCount = 0 → hookHash ∈ st.keyletsToDestroy

variable {hookDefinition : UInt256 → Option HookDefinition} {st st' : Setting}
  {oldHash : Option UInt256} {hookHash : UInt256}

/-! ### Releasing a definition -/

theorem peeked_release (oldHash : Option UInt256) (hookHash : UInt256) :
    (st.release oldHash).peeked hookHash =
      if oldHash = some hookHash then
        (st.peeked hookHash).map fun oldDef =>
          { oldDef with referenceCount := oldDef.referenceCount - 1 }
      else st.peeked hookHash := by
  cases oldHash with
  | none => rfl
  | some oldHash =>
    unfold release reduceReferenceCount
    dsimp only
    by_cases heq : hookHash = oldHash
    · subst heq
      rw [if_pos rfl]
      cases hpk : st.peeked hookHash with
      | none => exact hpk
      | some oldDef => dsimp only; split <;> simp
    · rw [if_neg (fun h => heq (Option.some.inj h).symm)]
      cases st.peeked oldHash with
      | none => rfl
      | some oldDef => dsimp only; split <;> simp [heq]

@[simp] theorem slesToInsert_release : (st.release oldHash).slesToInsert = st.slesToInsert := by
  unfold release
  split
  · rfl
  split
  · rfl
  · dsimp only
    split <;> rfl

@[simp] theorem newHooks_release : (st.release oldHash).newHooks = st.newHooks := by
  unfold release
  split
  · rfl
  split
  · rfl
  · dsimp only
    split <;> rfl

@[simp] theorem namespacesToDestroy_release :
    (st.release oldHash).namespacesToDestroy = st.namespacesToDestroy := by
  unfold release
  split
  · rfl
  split
  · rfl
  · dsimp only
    split <;> rfl

theorem noted_release (st : Setting) (oldHash : Option UInt256) (hookHash : UInt256) :
    (hookHash ∈ st.slesToUpdate → hookHash ∈ (st.release oldHash).slesToUpdate) ∧
    (hookHash ∈ st.keyletsToDestroy → hookHash ∈ (st.release oldHash).keyletsToDestroy) ∧
    (oldHash = some hookHash → ∀ oldDef, st.peeked hookHash = some oldDef →
      if oldDef.referenceCount - 1 = 0 then hookHash ∈ (st.release oldHash).keyletsToDestroy
      else hookHash ∈ (st.release oldHash).slesToUpdate) := by
  cases oldHash with
  | none => exact ⟨id, id, by rintro ⟨⟩⟩
  | some oldHash =>
    unfold release reduceReferenceCount
    dsimp only
    cases hpk : st.peeked oldHash with
    | none =>
      refine ⟨id, id, ?_⟩
      rintro ⟨⟩ oldDef hsome
      rw [hpk] at hsome
      cases hsome
    | some oldDef =>
      by_cases hzero : oldDef.referenceCount - 1 = 0
      · refine ⟨by simp [hzero], by simp +contextual [hzero], ?_⟩
        rintro ⟨⟩ oldDef' hsome
        rw [hpk] at hsome
        cases hsome
        simp [hzero]
      · refine ⟨by simp +contextual [hzero], by simp [hzero], ?_⟩
        rintro ⟨⟩ oldDef' hsome
        rw [hpk] at hsome
        cases hsome
        simp [hzero]

theorem count_release (hold : ∀ hookHash, oldHash = some hookHash → st.peeked hookHash ≠ none)
    (hookHash : UInt256) :
    (st.release oldHash).count hookHash
      = st.count hookHash - if oldHash = some hookHash then 1 else 0 := by
  unfold count definition
  rw [peeked_release, slesToInsert_release]
  by_cases heq : oldHash = some hookHash
  · obtain ⟨oldDef, hpk⟩ := Option.ne_none_iff_exists'.mp (hold hookHash heq)
    rw [if_pos heq, if_pos heq, hpk]
    rfl
  · rw [if_neg heq, if_neg heq, Nat.sub_zero]

theorem definition_release_eq_none_iff (oldHash : Option UInt256) :
    (st.release oldHash).definition hookHash = none ↔ st.definition hookHash = none := by
  unfold definition
  rw [peeked_release, slesToInsert_release]
  split
  · simp
  · rfl

/-! ### Acquiring a definition -/

theorem referenceCount_increment (h : hookDef.referenceCount + 1 < 2 ^ 64) :
    (incrementReferenceCount hookDef).referenceCount = hookDef.referenceCount + 1 := by
  unfold incrementReferenceCount
  rw [Nat.mod_eq_of_lt h]
  rfl

theorem definition_acquire (st : Setting) (hookHash hookHash' : UInt256) :
    (st.acquire hookHash).definition hookHash' =
      if hookHash' = hookHash then (st.definition hookHash').map incrementReferenceCount
      else st.definition hookHash' := by
  unfold acquire definition
  by_cases heq : hookHash' = hookHash
  · subst heq
    rw [if_pos rfl]
    cases hpk : st.peeked hookHash' with
    | none => simp [hpk]
    | some newDef => simp
  · rw [if_neg heq]
    cases st.peeked hookHash with
    | none => simp [heq]
    | some newDef => simp [heq]

theorem count_acquire (hdef : st.definition hookHash ≠ none)
    (hfits : st.count hookHash + 1 < 2 ^ 64) (hookHash' : UInt256) :
    (st.acquire hookHash).count hookHash'
      = st.count hookHash' + if hookHash' = hookHash then 1 else 0 := by
  unfold count
  rw [definition_acquire]
  by_cases heq : hookHash' = hookHash
  · subst heq
    obtain ⟨hookDef, hsome⟩ := Option.ne_none_iff_exists'.mp hdef
    unfold count at hfits
    rw [hsome] at hfits
    rw [if_pos rfl, if_pos rfl, hsome]
    exact referenceCount_increment hfits
  · rw [if_neg heq, if_neg heq, Nat.add_zero]

theorem peeked_acquire (st : Setting) (hookHash hookHash' : UInt256) :
    (st.acquire hookHash).peeked hookHash' =
      if hookHash' = hookHash then (st.peeked hookHash').map incrementReferenceCount
      else st.peeked hookHash' := by
  unfold acquire
  by_cases heq : hookHash' = hookHash
  · subst heq
    rw [if_pos rfl]
    cases hpk : st.peeked hookHash' with
    | none => exact hpk
    | some newDef => simp
  · rw [if_neg heq]
    cases st.peeked hookHash with
    | none => rfl
    | some newDef => simp [heq]

theorem slesToInsert_acquire (st : Setting) (hookHash hookHash' : UInt256) :
    (st.acquire hookHash).slesToInsert hookHash' =
      if hookHash' = hookHash ∧ st.peeked hookHash = none then
        (st.slesToInsert hookHash').map incrementReferenceCount
      else st.slesToInsert hookHash' := by
  unfold acquire
  cases st.peeked hookHash with
  | none =>
    by_cases heq : hookHash' = hookHash <;> simp [heq]
  | some newDef => simp

@[simp] theorem slesToUpdate_acquire :
    (st.acquire hookHash).slesToUpdate = hookHash :: st.slesToUpdate := by
  unfold acquire
  cases st.peeked hookHash <;> rfl

@[simp] theorem keyletsToDestroy_acquire :
    (st.acquire hookHash).keyletsToDestroy = st.keyletsToDestroy := by
  unfold acquire
  cases st.peeked hookHash <;> rfl

@[simp] theorem newHooks_acquire : (st.acquire hookHash).newHooks = st.newHooks := by
  unfold acquire
  cases st.peeked hookHash <;> rfl

@[simp] theorem namespacesToDestroy_acquire :
    (st.acquire hookHash).namespacesToDestroy = st.namespacesToDestroy := by
  unfold acquire
  cases st.peeked hookHash <;> rfl

/-! ### One position -/

theorem Tracks.release (h : st.Tracks hookDefinition)
    (hold : ∀ hookHash, oldHash = some hookHash → st.peeked hookHash ≠ none) :
    (st.release oldHash).Tracks hookDefinition := by
  constructor
  · intro hookHash hookDef hins
    rw [slesToInsert_release] at hins
    exact h.inserted hins
  · intro hookHash
    rw [peeked_release, ← h.peeked_iff]
    split
    · exact Option.map_eq_none_iff
    · rfl
  · intro hookHash hnot
    obtain ⟨hupd, -, hnote⟩ := noted_release st oldHash hookHash
    rw [count_release hold, peeked_release]
    by_cases heq : oldHash = some hookHash
    · obtain ⟨oldDef, hpk⟩ := Option.ne_none_iff_exists'.mp (hold hookHash heq)
      have hcount : st.count hookHash = oldDef.referenceCount := by
        unfold count definition
        rw [hpk]
        rfl
      have hnote := hnote heq oldDef hpk
      rw [if_pos heq, if_pos heq, hcount]
      by_cases hzero : oldDef.referenceCount - 1 = 0
      · exact .inr hzero
      · rw [if_neg hzero] at hnote
        exact absurd hnote hnot
    · rw [if_neg heq, if_neg heq, Nat.sub_zero]
      exact h.unchanged fun hmem => hnot (hupd hmem)
  · intro hookHash hookDef hpk hzero
    obtain ⟨-, hdes, hnote⟩ := noted_release st oldHash hookHash
    rw [peeked_release] at hpk
    split at hpk
    next heq =>
      rw [Option.map_eq_some_iff] at hpk
      obtain ⟨oldDef, hpk, rfl⟩ := hpk
      have hnote := hnote heq oldDef hpk
      rw [if_pos hzero] at hnote
      exact hnote
    · exact hdes (h.unused hpk hzero)

theorem Tracks.acquire (h : st.Tracks hookDefinition) (hdef : st.definition hookHash ≠ none)
    (hfits : st.count hookHash + 1 < 2 ^ 64) : (st.acquire hookHash).Tracks hookDefinition := by
  have hinc : ∀ {hookDef}, st.definition hookHash = some hookDef →
      0 < (incrementReferenceCount hookDef).referenceCount := by
    intro hookDef hsome
    unfold count at hfits
    rw [hsome] at hfits
    rw [referenceCount_increment hfits]
    exact Nat.succ_pos _
  constructor
  · intro hookHash' hookDef hins
    rw [slesToInsert_acquire] at hins
    split at hins
    next hcase =>
      obtain ⟨rfl, hn⟩ := hcase
      obtain ⟨newDef, hsome, rfl⟩ := Option.map_eq_some_iff.mp hins
      refine ⟨(h.inserted hsome).1, hinc ?_⟩
      unfold definition
      rw [hn, hsome]
      rfl
    · exact h.inserted hins
  · intro hookHash'
    rw [peeked_acquire, ← h.peeked_iff]
    split
    · exact Option.map_eq_none_iff
    · rfl
  · intro hookHash' hnot
    rw [slesToUpdate_acquire, mem_cons, not_or] at hnot
    rw [peeked_acquire, if_neg hnot.1, count_acquire hdef hfits, if_neg hnot.1]
    exact h.unchanged hnot.2
  · intro hookHash' hookDef hpk hzero
    rw [keyletsToDestroy_acquire]
    rw [peeked_acquire] at hpk
    split at hpk
    next heq =>
      subst heq
      obtain ⟨newDef, hsome, rfl⟩ := Option.map_eq_some_iff.mp hpk
      have hposi := hinc (show st.definition hookHash' = some newDef by
        unfold definition
        rw [hsome]
        rfl)
      omega
    · exact h.unused hpk hzero

theorem count_insert (hdef : st.definition hookHash = none)
    (hcount : hookDef.referenceCount = 1) (hookHash' : UInt256) :
    (st.insert hookHash hookDef).count hookHash'
      = st.count hookHash' + if hookHash' = hookHash then 1 else 0 := by
  unfold count definition insert
  by_cases heq : hookHash' = hookHash
  · subst heq
    obtain ⟨hpk, hins⟩ := Option.or_eq_none_iff.mp hdef
    simp [hpk, hins, hcount]
  · simp [heq]

theorem Tracks.insert (h : st.Tracks hookDefinition)
    (hdef : st.definition hookHash = none) (hcount : hookDef.referenceCount = 1) :
    (st.insert hookHash hookDef).Tracks hookDefinition := by
  have hpk : st.peeked hookHash = none := (Option.or_eq_none_iff.mp hdef).1
  constructor
  · intro hookHash' hookDef' hins
    change update st.slesToInsert hookHash (some hookDef) hookHash' = _ at hins
    by_cases heq : hookHash' = hookHash
    · subst heq
      rw [update_self] at hins
      cases hins
      exact ⟨h.peeked_iff.mp hpk, by omega⟩
    · rw [update_of_ne heq] at hins
      exact h.inserted hins
  · exact h.peeked_iff
  · intro hookHash' hnot
    by_cases heq : hookHash' = hookHash
    · subst heq
      exact .inl (hpk.trans (h.peeked_iff.mp hpk).symm)
    rcases h.unchanged hnot with hs | hzero
    · exact .inl hs
    · right
      rw [count_insert hdef hcount, if_neg heq, hzero]
  · exact h.unused

theorem uses_push (hookObj : HookObj) (hookHash : UInt256) :
    uses hookHash (st.push hookObj).newHooks
      = uses hookHash st.newHooks + if hookObj.hookHash = some hookHash then 1 else 0 := by
  unfold uses push HookObj.carries
  rw [countP_append, countP_singleton]
  simp

/-- **A position keeps the notes.** -/
theorem Next.tracks (hnext : Next st oldHash st') (h : st.Tracks hookDefinition)
    (hold : ∀ hookHash, oldHash = some hookHash → st.peeked hookHash ≠ none)
    (hfits : ∀ hookHash, st.count hookHash + 1 < 2 ^ 64) : st'.Tracks hookDefinition := by
  have hrel := h.release hold
  cases hnext with
  | kept hookObj hhash => exact ⟨h.inserted, h.peeked_iff, h.unchanged, h.unused⟩
  | deleted =>
    exact ⟨hrel.inserted, hrel.peeked_iff, hrel.unchanged, hrel.unused⟩
  | installed hookObj hookHash hhash hdef =>
    have hdef' := mt (definition_release_eq_none_iff oldHash).mp hdef
    have hacq := hrel.acquire hdef' (by
      have hcount := count_release hold hookHash
      have := hfits hookHash
      omega)
    exact ⟨hacq.inserted, hacq.peeked_iff, hacq.unchanged, hacq.unused⟩
  | created hookObj hookHash hookDef hhash hdef hcount hvalid =>
    have hins := hrel.insert ((definition_release_eq_none_iff oldHash).mpr hdef) hcount
    exact ⟨hins.inserted, hins.peeked_iff, hins.unchanged, hins.unused⟩

/-- **A position keeps the counts exact**: the old hash counts once less, the new one once more. -/
theorem Next.count (hnext : Next st oldHash st')
    (hold : ∀ hookHash, oldHash = some hookHash → st.peeked hookHash ≠ none ∧ 0 < st.count hookHash)
    (hfits : ∀ hookHash, st.count hookHash + 1 < 2 ^ 64) (hookHash : UInt256) :
    st'.count hookHash + uses hookHash st.newHooks + (if oldHash = some hookHash then 1 else 0)
      = st.count hookHash + uses hookHash st'.newHooks := by
  have hrel := count_release (fun hookHash heq => (hold hookHash heq).1) hookHash
  have hposi : (if oldHash = some hookHash then 1 else 0) ≤ st.count hookHash := by
    split
    next heq =>
      exact (hold hookHash heq).2
    · exact Nat.zero_le _
  cases hnext with
  | kept hookObj hhash =>
    rw [uses_push, hhash]
    show st.count hookHash + _ + _ = _
    omega
  | deleted =>
    rw [uses_push, newHooks_release]
    show (st.release oldHash).count hookHash + _ + _ = _
    rw [hrel]
    simp only [HookObj.blank, reduceCtorEq, if_false]
    omega
  | installed hookObj hookHash' hhash hdef =>
    have hdef' := mt (definition_release_eq_none_iff oldHash).mp hdef
    have hacq := count_acquire hdef' (by
      have hcount := count_release (fun hookHash heq => (hold hookHash heq).1) hookHash'
      have := hfits hookHash'
      omega) hookHash
    rw [uses_push, newHooks_acquire, newHooks_release, hhash]
    show ((st.release oldHash).acquire hookHash').count hookHash + _ + _ = _
    rw [hacq, hrel]
    simp only [Option.some.injEq, eq_comm]
    omega
  | created hookObj hookHash' hookDef hhash hdef hcount hvalid =>
    have hins := count_insert ((definition_release_eq_none_iff oldHash).mpr hdef) hcount hookHash
    have hnew : uses hookHash (((st.release oldHash).insert hookHash' hookDef).push hookObj).newHooks
        = uses hookHash st.newHooks + if hookObj.hookHash = some hookHash then 1 else 0 := by
      rw [uses_push]
      show uses hookHash (st.release oldHash).newHooks + _ = _
      rw [newHooks_release]
    rw [hnew, hhash]
    show ((st.release oldHash).insert hookHash' hookDef).count hookHash + _ + _ = _
    rw [hins, hrel]
    simp only [Option.some.injEq, eq_comm]
    omega

theorem Next.uses_le (hnext : Next st oldHash st') (hookHash : UInt256) :
    uses hookHash st'.newHooks ≤ uses hookHash st.newHooks + 1 := by
  have hpush : ∀ {st₁ : Setting} {hookObj : HookObj}, st₁.newHooks = st.newHooks →
      uses hookHash (st₁.push hookObj).newHooks ≤ uses hookHash st.newHooks + 1 := by
    intro st₁ hookObj hs
    rw [uses_push, hs]
    split <;> omega
  cases hnext with
  | kept => exact hpush rfl
  | deleted | created => exact hpush newHooks_release
  | installed => exact hpush (newHooks_acquire.trans newHooks_release)

end Setting

/-! ## All positions -/

section

variable {env : SetHookEnv} {rules : Rules} {account : AccountID} {hookSetObj : HookSetObj}
  {oldHook : Option HookObj} {st st' : Setting} {hookDefinition : UInt256 → Option HookDefinition}

theorem next_setInstall {hookHash : UInt256} {newDef? : Option HookDefinition}
    (hdef : newDef? ≠ none → st.definition hookHash ≠ none)
    (h : setInstall hookSetObj oldHook hookHash newDef? st = .ok st') :
    st.Next (oldHook.bind HookObj.hookHash) st' := by
  replace h := of_check h
  cases newDef? with
  | none => cases h
  | some newDef =>
    obtain ⟨hookParameters, -, h⟩ := bind_eq_ok.mp h
    cases h
    exact .installed _ hookHash rfl (hdef (Option.some_ne_none newDef))

theorem next_setUpdate (h : setUpdate hookSetObj oldHook st = .ok st') :
    st.Next (oldHook.bind HookObj.hookHash) st' := by
  unfold setUpdate at h
  dsimp only at h
  split at h
  · cases h
  rename_i oldHook' hookHash oldDef heq
  obtain ⟨hookParameters, -, h⟩ := bind_eq_ok.mp h
  cases h
  refine .kept _ ?_
  simp only [Option.bind_eq_bind, Option.bind_eq_some_iff, Option.pure_def, Option.some.injEq,
    Prod.mk.injEq] at heq
  obtain ⟨oldHook₁, rfl, hookHash₁, hhash, oldDef₁, -, rfl, rfl, rfl⟩ := heq
  exact hhash.symm

theorem next_setCreate (h : setCreate env rules account hookSetObj oldHook st = .ok st') :
    st.Next (oldHook.bind HookObj.hookHash) st' := by
  replace h := of_check (of_check h)
  dsimp only at h
  split at h
  next newDef hdef =>
    refine next_setInstall (fun _ => ?_) h
    rw [hdef]
    exact nofun
  rename_i hdef
  split at h
  · cases h
  · cases h
  · cases h
  · cases h
  rename_i hcou
  split at h
  · cases h
    refine .created _ _ _ rfl hdef rfl ⟨_, rfl, ?_⟩
    simpa [validateHookParams, comp_def] using validateHookParams_of_counts hcou
  · cases h

theorem markNamespace_eq (op : HookSetOperation) (hookSetObj : HookSetObj) (oldHook : Option HookObj)
    (st : Setting) : ∃ namespaces, markNamespace op hookSetObj oldHook st
      = { st with namespacesToDestroy := namespaces } := by
  unfold markNamespace
  split
  · exact ⟨st.namespacesToDestroy, rfl⟩
  · exact ⟨_, rfl⟩

variable {hookSetObj? : Option HookSetObj}

/-- **What a position does**, whatever its operation. -/
theorem next_setPosition (h : setPosition env rules account oldHook hookSetObj? st = .ok st') :
    ∃ namespaces, namespaces = (match hookSetObj? with
        | none => st
        | some hookSetObj =>
          markNamespace (inferOperation hookSetObj) hookSetObj oldHook st).namespacesToDestroy ∧
      Setting.Next { st with namespacesToDestroy := namespaces }
        (oldHook.bind HookObj.hookHash) st' := by
  have hkept : (oldHook.getD .blank).hookHash = oldHook.bind HookObj.hookHash := by
    cases oldHook <;> rfl
  cases hookSetObj? with
  | none =>
    cases h
    exact ⟨st.namespacesToDestroy, rfl, .kept _ hkept⟩
  | some hookSetObj =>
    unfold setPosition at h
    dsimp only at h
    obtain ⟨namespaces, hmark⟩ := markNamespace_eq (inferOperation hookSetObj) hookSetObj oldHook st
    rw [hmark] at h
    refine ⟨namespaces, (congrArg Setting.namespacesToDestroy hmark).symm, ?_⟩
    generalize { st with namespacesToDestroy := namespaces } = st at h
    split at h
    · cases h
      exact .kept _ hkept
    · cases h
      exact .kept _ hkept
    · replace h := of_check h
      cases h
      exact .deleted
    · exact next_setUpdate h
    · exact next_setCreate h
    · refine next_setInstall (fun hsome hn => hsome ?_) h
      exact (Option.or_eq_none_iff.mp hn).1
    · cases h

/-- **The counts while positions are set**: for other accounts, new hooks so far, and old hooks to
come. -/
structure Setting.Balanced (hookDefinition : UInt256 → Option HookDefinition) (others : UInt256 → ℕ)
    (oldHooks : List HookObj) (st : Setting) : Prop where
  tracks : st.Tracks hookDefinition
  count : ∀ hookHash,
    st.count hookHash = others hookHash + uses hookHash st.newHooks + uses hookHash oldHooks
  /-- The old hooks have definitions. -/
  defined : ∀ hookObj ∈ oldHooks, ∀ hookHash, hookObj.hookHash = some hookHash →
    hookDefinition hookHash ≠ none

theorem uses_cons (hookObj : HookObj) (hooks : List HookObj) (hookHash : UInt256) :
    uses hookHash (hookObj :: hooks)
      = uses hookHash hooks + if hookObj.hookHash = some hookHash then 1 else 0 := by
  unfold uses
  rw [countP_cons]
  exact congrArg _ (if_congr decide_eq_true_iff rfl rfl)

theorem Setting.Balanced.setPosition (hbal : st.Balanced hookDefinition others oldHooks)
    (hfits : ∀ hookHash, st.count hookHash + 1 < 2 ^ 64)
    (h : setPosition env rules account oldHooks.head? hookSetObj? st = .ok st') :
    st'.Balanced hookDefinition others oldHooks.tail ∧
      ∀ hookHash, st'.count hookHash ≤ st.count hookHash + 1 := by
  obtain ⟨namespaces, -, hnext⟩ := next_setPosition h
  have huses : ∀ hookHash, uses hookHash oldHooks = uses hookHash oldHooks.tail
      + if oldHooks.head?.bind HookObj.hookHash = some hookHash then 1 else 0 := by
    intro hookHash
    cases oldHooks with
    | nil => rfl
    | cons oldHook oldHooks => exact uses_cons oldHook oldHooks hookHash
  have hold : ∀ hookHash, oldHooks.head?.bind HookObj.hookHash = some hookHash →
      st.peeked hookHash ≠ none ∧ 0 < st.count hookHash := by
    intro hookHash heq
    have hhash := huses hookHash
    rw [if_pos heq] at hhash
    refine ⟨?_, by rw [hbal.count]; omega⟩
    obtain ⟨hookObj, hhead, hhash⟩ := Option.bind_eq_some_iff.mp heq
    rw [Ne, hbal.tracks.peeked_iff]
    exact hbal.defined hookObj (mem_of_head? hhead) hookHash hhash
  have htra := hnext.tracks
    ⟨hbal.tracks.inserted, hbal.tracks.peeked_iff, hbal.tracks.unchanged, hbal.tracks.unused⟩
    (fun hookHash heq => (hold hookHash heq).1) hfits
  have hcount : ∀ hookHash, st'.count hookHash + uses hookHash st.newHooks + _
      = st.count hookHash + uses hookHash st'.newHooks := hnext.count hold hfits
  refine ⟨⟨htra, fun hookHash => ?_, ?_⟩, fun hookHash => ?_⟩
  · have hold := hbal.count hookHash
    have hnew := hcount hookHash
    have hhash := huses hookHash
    omega
  · exact fun hookObj hmem => hbal.defined hookObj (mem_of_mem_tail hmem)
  · have hnew := hcount hookHash
    have hle := hnext.uses_le hookHash
    change _ ≤ uses hookHash st.newHooks + 1 at hle
    omega

theorem Setting.Balanced.push {oldHook : HookObj}
    (h : st.Balanced hookDefinition others (oldHook :: oldHooks)) :
    (st.push oldHook).Balanced hookDefinition others oldHooks := by
  refine ⟨⟨h.tracks.inserted, h.tracks.peeked_iff, h.tracks.unchanged, h.tracks.unused⟩,
    fun hookHash => ?_, fun hookObj hmem => h.defined hookObj (mem_cons_of_mem _ hmem)⟩
  have hcount := h.count hookHash
  rw [uses_cons] at hcount
  rw [Setting.uses_push]
  show st.count hookHash = _
  omega

/-- **Setting all positions keeps the counts balanced.** -/
theorem Setting.Balanced.setPositions
    {hookSets : List HookSetObj} (hbal : st.Balanced hookDefinition others oldHooks)
    (hfits : ∀ hookHash, st.count hookHash + hookSets.length < 2 ^ 64)
    (h : setPositions env rules account hookSets oldHooks st = .ok st') :
    st'.Balanced hookDefinition others [] := by
  induction hookSets generalizing oldHooks st with
  | nil =>
    -- the hooks that are left are kept
    induction oldHooks generalizing st with
    | nil =>
      cases h
      exact hbal
    | cons oldHook oldHooks ih => exact ih hbal.push hfits h
  | cons hookSetObj hookSets ih =>
    obtain ⟨st₁, hposi, h⟩ := bind_eq_ok.mp h
    have hone : ∀ hookHash, st.count hookHash + 1 < 2 ^ 64 := by
      intro hookHash
      have := hfits hookHash
      rw [length_cons] at this
      omega
    obtain ⟨hbal₁, hle⟩ := hbal.setPosition hone hposi
    refine ih hbal₁ ?_ h
    intro hookHash
    have hcount := hfits hookHash
    have hmore := hle hookHash
    rw [length_cons] at hcount
    omega

end

end Xahau.Hook
