import Xahau.SetHook.Parameters
import Xahau.SetHook.References

/-! # The attributes of hooks

While `setHook` goes through the positions, it changes only the count of a definition of the ledger,
and it inserts one only where the ledger has none. So every position sees the attributes of the
ledger, and the definitions have the same attributes after the transaction. -/

namespace Xahau.Hook

open Checked Function List Option

/-- Two definitions differ at most in their counts. -/
def HookDefinition.SameAttributes (hookDef hookDef' : HookDefinition) : Prop :=
  ∃ referenceCount, hookDef' = { hookDef with referenceCount }

namespace HookDefinition.SameAttributes

variable {hookDef hookDef' : HookDefinition}

theorem refl (hookDef : HookDefinition) : hookDef.SameAttributes hookDef :=
  ⟨hookDef.referenceCount, rfl⟩

section

variable (h : hookDef.SameAttributes hookDef')

include h

theorem reduced :
    hookDef.SameAttributes { hookDef' with referenceCount := hookDef'.referenceCount - 1 } := by
  obtain ⟨n, rfl⟩ := h
  exact ⟨_, rfl⟩

theorem incremented : hookDef.SameAttributes (incrementReferenceCount hookDef') := by
  obtain ⟨n, rfl⟩ := h
  unfold incrementReferenceCount
  dsimp only
  split
  next => exact ⟨n, rfl⟩
  next => exact ⟨_, rfl⟩

theorem parametersValid (hvalid : hookDef.ParametersValid) : hookDef'.ParametersValid := by
  obtain ⟨n, rfl⟩ := h
  exact hvalid

end

theorem map_right {left right : Option HookDefinition}
    (h : Option.Rel HookDefinition.SameAttributes left right) {f : HookDefinition → HookDefinition}
    (hf : ∀ {hookDef hookDef' : HookDefinition}, hookDef.SameAttributes hookDef' →
      hookDef.SameAttributes (f hookDef')) :
    Option.Rel HookDefinition.SameAttributes left (right.map f) := by
  cases h with
  | none => exact .none
  | some hs => exact .some (hf hs)

end HookDefinition.SameAttributes

/-! ## While the positions are set -/

namespace Setting

/-- **The definitions that a position sees**: the ledger's with other counts, and new ones. -/
structure Unaltered (hookDefinition : UInt256 → Option HookDefinition) (st : Setting) : Prop where
  peeked : ∀ hookHash,
    Option.Rel HookDefinition.SameAttributes (hookDefinition hookHash) (st.peeked hookHash)
  inserted : ∀ {hookHash hookDef}, st.slesToInsert hookHash = some hookDef →
    hookDefinition hookHash = none ∧ hookDef.ParametersValid

namespace Unaltered

variable {hookDefinition : UInt256 → Option HookDefinition} {st st' : Setting}

theorem start (hookDefinition : UInt256 → Option HookDefinition) :
    Unaltered hookDefinition { peeked := hookDefinition } := by
  refine ⟨fun hookHash => ?_, nofun⟩
  dsimp only
  cases hookDefinition hookHash with
  | none => exact .none
  | some hookDef => exact .some (.refl hookDef)

section

variable (h : st.Unaltered hookDefinition)

include h

variable {hookHash : UInt256}

theorem of_ledger {hookDef : HookDefinition} (hdef : hookDefinition hookHash = some hookDef) :
    ∃ hookDef', st.peeked hookHash = some hookDef' ∧ hookDef.SameAttributes hookDef' := by
  have hrel := h.peeked hookHash
  rw [hdef] at hrel
  generalize st.peeked hookHash = peeked at hrel ⊢
  cases hrel with
  | some hs => exact ⟨_, rfl, hs⟩

theorem to_ledger {hookDef' : HookDefinition} (hpk : st.peeked hookHash = some hookDef') :
    ∃ hookDef, hookDefinition hookHash = some hookDef ∧ hookDef.SameAttributes hookDef' := by
  have hrel := h.peeked hookHash
  rw [hpk] at hrel
  generalize hookDefinition hookHash = hookDef? at hrel ⊢
  cases hrel with
  | some hs => exact ⟨_, rfl, hs⟩

theorem map_peeked {α : Type*} {f : HookDefinition → α} (hf : ∀ hookDef referenceCount,
      f { hookDef with referenceCount := referenceCount } = f hookDef) (hookHash : UInt256) :
    (st.peeked hookHash).map f = (hookDefinition hookHash).map f := by
  have hrel := h.peeked hookHash
  generalize hookDefinition hookHash = before, st.peeked hookHash = after at hrel
  cases hrel with
  | none => rfl
  | some hs =>
    obtain ⟨n, rfl⟩ := hs
    exact congrArg some (hf _ n)

theorem release (oldHash : Option UInt256) : (st.release oldHash).Unaltered hookDefinition := by
  refine ⟨fun hookHash => ?_, fun hins => h.inserted (by rwa [slesToInsert_release] at hins)⟩
  rw [peeked_release]
  split
  next => exact HookDefinition.SameAttributes.map_right (h.peeked hookHash) (·.reduced)
  next => exact h.peeked hookHash

theorem acquire (newHash : UInt256) : (st.acquire newHash).Unaltered hookDefinition := by
  refine ⟨fun hookHash => ?_, fun {hookHash hookDef} hins => ?_⟩
  · rw [peeked_acquire]
    split
    next => exact HookDefinition.SameAttributes.map_right (h.peeked hookHash) (·.incremented)
    next => exact h.peeked hookHash
  rw [slesToInsert_acquire] at hins
  split at hins
  next =>
    obtain ⟨newDef, hnew, rfl⟩ := map_eq_some_iff.mp hins
    obtain ⟨hn, hvalid⟩ := h.inserted hnew
    exact ⟨hn, (HookDefinition.SameAttributes.refl newDef).incremented.parametersValid hvalid⟩
  next => exact h.inserted hins

theorem insert {newHash : UInt256} {newDef : HookDefinition}
    (hdef : st.definition newHash = none) (hvalid : newDef.ParametersValid) :
    (st.insert newHash newDef).Unaltered hookDefinition := by
  refine ⟨h.peeked, fun {hookHash hookDef} hins => ?_⟩
  change update st.slesToInsert newHash (some newDef) hookHash = _ at hins
  by_cases heq : hookHash = newHash
  · subst heq
    rw [update_self] at hins
    cases hins
    refine ⟨?_, hvalid⟩
    by_contra hsome
    obtain ⟨hookDef, hsome⟩ := ne_none_iff_exists'.mp hsome
    obtain ⟨hookDef', hpk, -⟩ := h.of_ledger hsome
    rw [(or_eq_none_iff.mp hdef).1] at hpk
    cases hpk
  · rw [update_of_ne heq] at hins
    exact h.inserted hins

/-- **A position leaves the attributes.** -/
theorem next {oldHash : Option UInt256}
    (hnext : Next st oldHash st') : st'.Unaltered hookDefinition := by
  cases hnext with
  | kept hookObj hhash => exact ⟨h.peeked, h.inserted⟩
  | deleted => exact ⟨(h.release oldHash).peeked, (h.release oldHash).inserted⟩
  | installed hookObj hookHash hhash hdef =>
    have hacq := (h.release oldHash).acquire hookHash
    exact ⟨hacq.peeked, hacq.inserted⟩
  | created hookObj hookHash hookDef hhash hdef hcount hvalid =>
    have hins := (h.release oldHash).insert
      ((definition_release_eq_none_iff oldHash).mpr hdef) hvalid
    exact ⟨hins.peeked, hins.inserted⟩

end

end Unaltered

theorem Next.newHooks {st st' : Setting} {oldHash : Option UInt256} (hnext : Next st oldHash st') :
    ∃ hookObj, st'.newHooks = st.newHooks ++ [hookObj] := by
  cases hnext with
  | kept hookObj => exact ⟨hookObj, rfl⟩
  | deleted => exact ⟨.blank, congrArg (· ++ _) newHooks_release⟩
  | installed hookObj =>
    exact ⟨hookObj, congrArg (· ++ _) (newHooks_acquire.trans newHooks_release)⟩
  | created hookObj => exact ⟨hookObj, congrArg (· ++ _) newHooks_release⟩

end Setting

/-! ## All positions -/

section

variable {env : SetHookEnv} {rules : Rules} {account : AccountID} {st st' : Setting}
  {hookDefinition : UInt256 → Option HookDefinition}

theorem Setting.Unaltered.setPosition {oldHook : Option HookObj} {hookSetObj? : Option HookSetObj}
    (hst : st.Unaltered hookDefinition)
    (h : setPosition env rules account oldHook hookSetObj? st = .ok st') :
    st'.Unaltered hookDefinition ∧ ∃ hookObj, st'.newHooks = st.newHooks ++ [hookObj] := by
  obtain ⟨namespaces, -, hnext⟩ := next_setPosition h
  have hst₁ : Setting.Unaltered hookDefinition { st with namespacesToDestroy := namespaces } :=
    ⟨hst.peeked, hst.inserted⟩
  exact ⟨hst₁.next hnext, hnext.newHooks⟩

variable {oldHooks : List HookObj}

theorem Setting.Unaltered.foldlM (hst : st.Unaltered hookDefinition) (h : oldHooks.foldlM
      (fun st oldHook => Hook.setPosition env rules account (some oldHook) none st) st = .ok st') :
    st'.Unaltered hookDefinition ∧ st.newHooks <+: st'.newHooks := by
  induction oldHooks generalizing st with
  | nil =>
    cases h
    exact ⟨hst, prefix_rfl⟩
  | cons oldHook oldHooks ih =>
    rw [foldlM_cons] at h
    obtain ⟨st₁, hposi, h⟩ := bind_eq_ok.mp h
    obtain ⟨hst₁, hookObj, hpush⟩ := hst.setPosition hposi
    obtain ⟨hst', hpre⟩ := ih hst₁ h
    exact ⟨hst', (hpush ▸ prefix_append st.newHooks [hookObj]).trans hpre⟩

/-- **What happens at a position**: it sees the ledger's definitions, and its hook takes its place
in the new chain. -/
theorem Setting.Unaltered.setPositions {hookSets : List HookSetObj}
    (hst : st.Unaltered hookDefinition)
    (h : setPositions env rules account hookSets oldHooks st = .ok st') :
    st'.Unaltered hookDefinition ∧ st.newHooks <+: st'.newHooks ∧
      ∀ i hookSetObj, hookSets[i]? = some hookSetObj →
        ∃ st₁ st₂ hookObj, st₁.Unaltered hookDefinition ∧
          Hook.setPosition env rules account oldHooks[i]? (some hookSetObj) st₁ = .ok st₂ ∧
          st₂.newHooks = st₁.newHooks ++ [hookObj] ∧
          st'.newHooks[st.newHooks.length + i]? = some hookObj := by
  induction hookSets generalizing oldHooks st with
  | nil =>
    obtain ⟨hst', hpre⟩ := hst.foldlM h
    exact ⟨hst', hpre, nofun⟩
  | cons first hookSets ih =>
    rw [Hook.setPositions] at h
    obtain ⟨st₁, hposi, h⟩ := bind_eq_ok.mp h
    obtain ⟨hst₁, hookObj, hpush⟩ := hst.setPosition hposi
    obtain ⟨hst', hpre, hrest⟩ := ih hst₁ h
    refine ⟨hst', (hpush ▸ prefix_append st.newHooks [hookObj]).trans hpre,
      fun i hookSetObj hi => ?_⟩
    cases i with
    | zero =>
      cases hi
      rw [List.head?_eq_getElem?] at hposi
      refine ⟨st, st₁, hookObj, hst, hposi, hpush, ?_⟩
      obtain ⟨rest, hrest⟩ := hpre
      rw [← hrest, hpush, Nat.add_zero, append_assoc, List.getElem?_append_right le_rfl,
        Nat.sub_self]
      rfl
    | succ i =>
      obtain ⟨st₂, st₃, hookObj', hst₂, hposi', hpush', hpla⟩ := hrest i hookSetObj hi
      rw [List.getElem?_tail] at hposi'
      refine ⟨st₂, st₃, hookObj', hst₂, hposi', hpush', ?_⟩
      rw [hpush, length_append, length_singleton] at hpla
      rw [← hpla]
      congr 1
      omega

end

/-! ## The transaction -/

section

variable {env : SetHookEnv} {ownerDir : OwnerDir} {pages : ℕ} {account : AccountID}
  {hookSets : List HookSetObj} {view view' : View} {ter : Ter} {hookDef' : HookDefinition}
  {hookHash : UInt256}

theorem Setting.Unaltered.written {st : Setting} (hst : st.Unaltered view.hookDefinition)
    (h : (st.removeDefinitions (st.writeDefinitions view)).hookDefinition hookHash = some hookDef') :
    (∃ hookDef, view.hookDefinition hookHash = some hookDef ∧ hookDef.SameAttributes hookDef') ∨
      view.hookDefinition hookHash = none ∧ hookDef'.ParametersValid := by
  unfold Setting.removeDefinitions Setting.writeDefinitions at h
  dsimp only at h
  have hinse : st.slesToInsert hookHash = some hookDef' →
      view.hookDefinition hookHash = none ∧ hookDef'.ParametersValid := hst.inserted
  split at h
  next => cases h
  next =>
    split at h
    next =>
      rcases or_eq_some_iff.mp h with hpk | ⟨-, hins⟩
      · exact .inl (hst.to_ledger hpk)
      · exact .inr (hinse hins)
    next =>
      rcases or_eq_some_iff.mp h with hins | ⟨-, hled⟩
      · exact .inr (hinse hins)
      · exact .inl ⟨hookDef', hled, .refl hookDef'⟩

/-- **A successful transaction leaves the attributes of the ledger's definitions.** -/
theorem sameAttributes_of_setHook
    (hset : setHook env ownerDir pages account hookSets view = .ok (ter, view'))
    (hok : ter.isTesSuccess = true) {hookDef : HookDefinition}
    (hdef : view.hookDefinition hookHash = some hookDef)
    (hdef' : view'.hookDefinition hookHash = some hookDef') : hookDef.SameAttributes hookDef' := by
  obtain ⟨st, hposi, hdefs, -⟩ := registry_of_setHook hset hok
  obtain ⟨hst, -, -⟩ := (Setting.Unaltered.start view.hookDefinition).setPositions hposi
  rw [hdefs] at hdef'
  rcases hst.written hdef' with ⟨hookDef₁, hdef₁, hs⟩ | ⟨hn, -⟩
  · rw [hdef] at hdef₁
    cases hdef₁
    exact hs
  · rw [hdef] at hn
    cases hn

/-- The parameters of every definition are present and have passed the check. -/
def HookRegistry.ParametersValid (registry : HookRegistry) : Prop :=
  ∀ hookHash, ∀ hookDef ∈ registry.hookDefinition hookHash, hookDef.ParametersValid

/-- **The parameters of definitions stay valid** in every successful run. -/
theorem parametersValid_of_run {registry registry' : HookRegistry} {es : List SetHookEvent}
    (hsta : registry.ParametersValid) (hrun : Run SetHookEvent.Step registry es registry') :
    registry'.ParametersValid := by
  apply hrun.invariant (fun _ registry => registry.ParametersValid) hsta
  rintro es registry e registry' hvalid ⟨view, ter, view', rfl, hset, hok, rfl⟩
  obtain ⟨st, hposi, hdefs, -⟩ := registry_of_setHook hset hok
  obtain ⟨hst, -, -⟩ := (Setting.Unaltered.start view.hookDefinition).setPositions hposi
  intro hookHash hookDef' hdef'
  rw [hdefs] at hdef'
  rcases hst.written hdef' with ⟨hookDef, hdef, hs⟩ | ⟨-, hnew⟩
  · exact hs.parametersValid (hvalid hookHash hookDef hdef)
  · exact hnew

/-- **The hook written at a position** is made from the old hook there and the ledger's definitions.
-/
theorem hooks_of_setHook
    (hset : setHook env ownerDir pages account hookSets view = .ok (ter, view'))
    (hok : ter.isTesSuccess = true) {i : ℕ} {hookSetObj : HookSetObj}
    (hi : hookSets[i]? = some hookSetObj) :
    ∃ st₁ st₂ hookObj, st₁.Unaltered view.hookDefinition ∧
      setPosition env view.rules account ((view.hooks account).getD [])[i]? (some hookSetObj) st₁
        = .ok st₂ ∧
      st₂.newHooks = st₁.newHooks ++ [hookObj] ∧
      (hookObj.hookHash ≠ none → ∃ hooks, view'.hooks account = some hooks ∧
        hooks[i]? = some hookObj) := by
  obtain ⟨st, hposi, -, hhs⟩ := registry_of_setHook hset hok
  obtain ⟨-, -, hplac⟩ := (Setting.Unaltered.start view.hookDefinition).setPositions hposi
  obtain ⟨st₁, st₂, hookObj, hst₁, hposit, hpush, hpla⟩ := hplac i hookSetObj hi
  refine ⟨st₁, st₂, hookObj, hst₁, hposit, hpush, fun hhash => ⟨st.newHooks, ?_, ?_⟩⟩
  · rw [hhs, update_self, writtenHooks]
    refine if_neg fun hbla => hhash ?_
    exact isNone_iff_eq_none.mp (all_eq_true.mp hbla hookObj
      (mem_of_getElem? hpla))
  · rwa [length_nil, Nat.zero_add] at hpla

end

end Xahau.Hook
