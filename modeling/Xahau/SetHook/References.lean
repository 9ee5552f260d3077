import Xahau.Data.Occurrences
import Xahau.Guard.Imports
import Xahau.Hook.Authority
import Xahau.SetHook.Positions

/-! # Reference counts of hook definitions

Every hook definition counts the positions of hook chains, over all accounts, that carry its hash.
Successful `SetHook` transactions keep the counts exact, as long as they fit in 64 bits. -/

namespace Xahau.Hook

open Checked Function HookRegistry List Option

variable {registry : HookRegistry} {accounts : List AccountID} {hookSets : List HookSetObj}
  {ter : Ter}

/-! ## Positions that carry a hash -/

/-- The positions that carry a hash: accounts and numbers in `sfHooks`. -/
def HookRegistry.carriers (registry : HookRegistry) (hookHash : UInt256) : Set (AccountID × ℕ) :=
  Occurrences.places (HookObj.carries hookHash) fun acc => (registry.hooks acc).getD []

/-- **The reference counts are exact**: a definition counts the positions with its hash, and exists
iff there are any. -/
structure Counted (registry : HookRegistry) : Prop where
  referenceCount : ∀ {hookHash hookDef}, registry.hookDefinition hookHash = some hookDef →
    hookDef.referenceCount = (registry.carriers hookHash).ncard
  exists_iff : ∀ {hookHash}, registry.hookDefinition hookHash ≠ none ↔
    0 < (registry.carriers hookHash).ncard

theorem carriers_noHooks (hookHash : UInt256) : noHooks.carriers hookHash = ∅ := by
  ext ⟨acc, n⟩
  simp [carriers, Occurrences.places, Occurrences.positions, noHooks]

theorem counted_noHooks : Counted noHooks := by
  constructor
  · rintro hookHash hookDef ⟨⟩
  intro hookHash
  rw [carriers_noHooks, Set.ncard_empty]
  exact iff_of_false (not_not.mpr rfl) (Nat.lt_irrefl 0)

theorem uses_le_ncard_carriers (registry : HookRegistry) (account : AccountID)
    (hookHash : UInt256) :
    uses hookHash ((registry.hooks account).getD []) ≤ (registry.carriers hookHash).ncard :=
  Occurrences.countP_le_ncard_places (HookObj.carries hookHash)
    (fun acc => (registry.hooks acc).getD []) account

variable {account : AccountID}

theorem ncard_carriers_update {registry' : HookRegistry} {hooks : Option (List HookObj)}
    (h : registry'.hooks = update registry.hooks account hooks) (hookHash : UInt256) :
    (registry'.carriers hookHash).ncard + uses hookHash ((registry.hooks account).getD [])
      = (registry.carriers hookHash).ncard + uses hookHash (hooks.getD []) := by
  have hfam : (fun acc => (registry'.hooks acc).getD [])
      = update (fun acc => (registry.hooks acc).getD []) account (hooks.getD []) := by
    rw [h]
    funext acc
    by_cases hacc : acc = account
    · subst hacc
      rw [update_self, update_self]
    · rw [update_of_ne hacc, update_of_ne hacc]
  unfold carriers uses
  rw [hfam]
  exact Occurrences.ncard_places_update (HookObj.carries hookHash)
    (fun acc => (registry.hooks acc).getD []) account (hooks.getD [])

section

variable {env : SetHookEnv} {account : AccountID} {st : Setting}

/-! ## The ledger -/

variable {view view' : View} {ownerDir : OwnerDir} {pages : ℕ} {acc : AccountID} {ns : UInt256}

theorem registry_deleteEntries {toDelete : List UInt256}
    {found : Bool} (h : deleteEntries acc ns toDelete view = .ok (found, view')) :
    view'.toHookRegistry = view.toHookRegistry := by
  induction toDelete generalizing view with
  | nil =>
    cases h
    rfl
  | cons key toDelete ih =>
    unfold deleteEntries at h
    split at h
    · exact ih h
    obtain ⟨⟨found₁, dir⟩, -, h⟩ := bind_eq_ok.mp h
    dsimp only at h
    split at h
    · cases h
      rfl
    · exact (ih h).trans rfl

theorem registry_destroyNamespace (h : destroyNamespace pages view acc ns = .ok (ter, view')) :
    view'.toHookRegistry = view.toHookRegistry := by
  have hmar : ∀ {sleAccount toDelete partialDelete},
      destroyMarked view acc sleAccount ns toDelete partialDelete = .ok (ter, view') →
      view'.toHookRegistry = view.toHookRegistry := by
    intro sleAccount toDelete partialDelete h
    obtain ⟨⟨found, view₁⟩, hdel, h⟩ := bind_eq_ok.mp h
    have hreg := registry_deleteEntries hdel
    dsimp only at h
    split at h
    · cases h
      exact hreg
    split at h
    all_goals
      cases h
      exact hreg
  unfold destroyNamespace at h
  split at h
  · cases h
    rfl
  dsimp only at h
  split at h
  · cases h
    rfl
  split at h
  · cases h
    rfl
  split at h
  · cases h
  · cases h
    rfl
  · exact hmar h
  split at h
  · cases h
    rfl
  · exact hmar h

theorem registry_destroyNamespaces {namespaces : List UInt256} {ter' : Ter}
    (h : destroyNamespaces pages account namespaces ter view = .ok (ter', view')) :
    view'.toHookRegistry = view.toHookRegistry := by
  induction namespaces generalizing view ter with
  | nil =>
    cases h
    rfl
  | cons ns namespaces ih =>
    obtain ⟨⟨ter₁, view₁⟩, hdes, h⟩ := bind_eq_ok.mp h
    have hreg := registry_destroyNamespace hdes
    dsimp only at h
    split at h
    · cases h
      exact hreg
    · exact (ih h).trans hreg

/-- **The definitions that are written**: those that are used, with their counts. -/
theorem hookDefinition_of_enacted (htra : st.Tracks view.hookDefinition) (hookHash : UInt256) :
    (st.removeDefinitions (st.writeDefinitions view)).hookDefinition hookHash
      = (st.definition hookHash).filter fun hookDef => decide (hookDef.referenceCount ≠ 0) := by
  unfold Setting.removeDefinitions Setting.writeDefinitions
  dsimp only
  cases hpk : st.peeked hookHash with
  | none =>
    rw [if_neg (fun h => by cases h.2), htra.peeked_iff.mp hpk, or_none]
    unfold Setting.definition
    rw [hpk, none_or, ite_self]
    cases hins : st.slesToInsert hookHash with
    | none => rfl
    | some hookDef =>
      have hposi := (htra.inserted hins).2
      simp [Option.filter, Nat.pos_iff_ne_zero.mp hposi]
  | some hookDef =>
    have hdef : st.definition hookHash = some hookDef := by
      unfold Setting.definition
      rw [hpk]
      rfl
    have hins : st.slesToInsert hookHash = none := by
      cases hins : st.slesToInsert hookHash with
      | none => rfl
      | some newDef =>
        rw [htra.peeked_iff.mpr (htra.inserted hins).1] at hpk
        cases hpk
    rw [hdef, hins, none_or]
    by_cases hzero : hookDef.referenceCount = 0
    · rw [if_pos ⟨htra.unused hpk hzero, by simp [hzero]⟩]
      simp [Option.filter, hzero]
    rw [if_neg (by simp [hzero])]
    have hfil : (some hookDef).filter
        (fun hookDef => decide (hookDef.referenceCount ≠ 0)) = some hookDef := by
      simp [Option.filter, hzero]
    rw [hfil]
    split
    · rfl
    rename_i hnot
    rcases htra.unchanged hnot with hs | hcount
    · rw [← hs, hpk]
    unfold Setting.count at hcount
    rw [hdef] at hcount
    exact absurd hcount hzero

theorem uses_of_blank {hooks : List HookObj}
    (h : (hooks.all fun hookObj => hookObj.hookHash.isNone) = true) (hookHash : UInt256) :
    uses hookHash hooks = 0 := by
  unfold uses
  rw [countP_eq_zero]
  intro hookObj hmem hcar
  have hbla := all_eq_true.mp h hookObj hmem
  rw [of_decide_eq_true hcar] at hbla
  cases hbla

section

variable (ownerDir : OwnerDir) (account : AccountID) (newHooks : List HookObj)

/-- The new hooks, unless they are all blank. -/
def writtenHooks : Option (List HookObj) :=
  if newHooks.all fun hookObj => hookObj.hookHash.isNone then none else some newHooks

theorem uses_writtenHooks (hookHash : UInt256) :
    uses hookHash ((writtenHooks newHooks).getD []) = uses hookHash newHooks := by
  unfold writtenHooks
  split
  next hbla => exact (uses_of_blank hbla hookHash).symm
  next => rfl

theorem writeHooks_cases (view : View) :
    (∃ ter, writeHooks ownerDir account newHooks view = .error ter ∧ ter.isTesSuccess = false) ∨
    ∃ view', writeHooks ownerDir account newHooks view = .ok view' ∧
      view'.hookDefinition = view.hookDefinition ∧
      view'.hooks = update view.hooks account (writtenHooks newHooks) := by
  unfold writeHooks writtenHooks
  cases hold : view.hooks account with
  | none =>
    cases hemp : newHooks.all fun hookObj => hookObj.hookHash.isNone with
    | true =>
      refine .inr ⟨view, rfl, rfl, ?_⟩
      rw [if_pos rfl, ← hold, update_eq_self]
    | false =>
      dsimp only
      split
      · exact .inl ⟨_, rfl, rfl⟩
      · exact .inr ⟨_, rfl, rfl, rfl⟩
  | some oldHooks =>
    cases hemp : newHooks.all fun hookObj => hookObj.hookHash.isNone with
    | true =>
      split
      · exact .inl ⟨_, rfl, rfl⟩
      · exact .inr ⟨_, rfl, rfl, rfl⟩
    | false => exact .inr ⟨_, rfl, rfl, rfl⟩

end

theorem registry_writeHooks {newHooks : List HookObj}
    (h : writeHooks ownerDir account newHooks view = .ok view') :
    view'.hookDefinition = view.hookDefinition ∧
      view'.hooks = update view.hooks account (writtenHooks newHooks) := by
  rcases writeHooks_cases ownerDir account newHooks view with ⟨ter, hwri, -⟩ | ⟨view₁, hwri, hrest⟩
  · rw [hwri] at h
    cases h
  rw [hwri] at h
  cases h
  exact hrest

theorem registry_adjustOwnerCount (view : View) (account : AccountID) (amount : Int) :
    (adjustOwnerCount view account amount).toHookRegistry = view.toHookRegistry := by
  unfold adjustOwnerCount
  split <;> rfl

section

variable (h : setHook env ownerDir pages account hookSets view = .ok (ter, view'))
  (hsuccess : ter.isTesSuccess = true)

include h hsuccess

/-- **A successful transaction** sets all positions, destroys the marked namespaces, and writes the
hooks. -/
theorem setHook_eq_ok :
    ∃ st view₁ view₂ reserveDelta,
      setPositions env view.rules account hookSets ((view.hooks account).getD [])
        { peeked := view.hookDefinition } = .ok st ∧
      destroyNamespaces pages account
        (st.namespacesToDestroy.dedup.mergeSort fun a b => decide (a.data ≤ b.data)) .tesSUCCESS
        (st.writeDefinitions view) = .ok (ter, view₁) ∧
      writeHooks ownerDir account st.newHooks (st.removeDefinitions view₁) = .ok view₂ ∧
      view' = if reserveDelta ≠ 0 then adjustOwnerCount view₂ account reserveDelta else view₂ := by
  unfold setHook at h
  dsimp only at h
  split at h
  next stop hstop =>
    cases stop <;> cases h <;> cases hsuccess
  rename_i st hposi
  split at h
  · cases h
  split at h
  · cases h
    cases hsuccess
  split at h
  · cases h
    cases hsuccess
  obtain ⟨⟨nsDeleteResult, view₁⟩, hdes, h⟩ := bind_eq_ok.mp h
  dsimp only at h
  rcases writeHooks_cases ownerDir account st.newHooks (st.removeDefinitions view₁) with
    ⟨ter₁, hwri, hfai⟩ | ⟨view₂, hwri, -⟩
  · rw [hwri] at h
    cases h
    rw [hfai] at hsuccess
    cases hsuccess
  · rw [hwri] at h
    cases h
    exact ⟨st, view₁, view₂, _, hposi, hdes, hwri, rfl⟩

/-- **What it writes**: the new hooks, unless all are blank, and the definitions in use. -/
theorem registry_of_setHook :
    ∃ st, setPositions env view.rules account hookSets ((view.hooks account).getD [])
        { peeked := view.hookDefinition } = .ok st ∧
      view'.hookDefinition
        = (st.removeDefinitions (st.writeDefinitions view)).hookDefinition ∧
      view'.hooks = update view.hooks account (writtenHooks st.newHooks) := by
  obtain ⟨st, view₁, view₂, reserveDelta, hposi, hdes, hwri, rfl⟩ := setHook_eq_ok h hsuccess
  refine ⟨st, hposi, ?_⟩
  have hreg := registry_destroyNamespaces hdes
  obtain ⟨hdefs, hhs⟩ := registry_writeHooks hwri
  have hfin : (if reserveDelta ≠ 0 then adjustOwnerCount view₂ account reserveDelta
      else view₂).toHookRegistry = view₂.toHookRegistry := by
    split
    · exact registry_adjustOwnerCount view₂ account reserveDelta
    · rfl
  constructor
  · rw [congrArg hookDefinition hfin, hdefs]
    unfold Setting.removeDefinitions
    rw [congrArg hookDefinition hreg]
  · rw [congrArg hooks hfin, hhs]
    show update view₁.hooks account (writtenHooks st.newHooks) = _
    rw [congrArg hooks hreg]
    rfl

end

theorem Counted.count_eq (h : Counted registry) (hookHash : UInt256) :
    Setting.count { peeked := registry.hookDefinition } hookHash
      = (registry.carriers hookHash).ncard := by
  show (((registry.hookDefinition hookHash).or none).map HookDefinition.referenceCount).getD 0 = _
  cases hdef : registry.hookDefinition hookHash with
  | none =>
    have hzero := mt h.exists_iff.mpr (not_not.mpr hdef)
    show 0 = _
    omega
  | some hookDef => exact h.referenceCount hdef

theorem Counted.balanced (h : Counted registry) (account : AccountID) :
    Setting.Balanced registry.hookDefinition
      (fun hookHash => (registry.carriers hookHash).ncard
        - uses hookHash ((registry.hooks account).getD []))
      ((registry.hooks account).getD []) { peeked := registry.hookDefinition } := by
  refine ⟨⟨?_, Iff.rfl, fun _ => .inl rfl, ?_⟩, ?_, ?_⟩
  · rintro hookHash hookDef ⟨⟩
  · intro hookHash hookDef hdef hzero
    change registry.hookDefinition hookHash = some hookDef at hdef
    have hposi : 0 < (registry.carriers hookHash).ncard := by
      rw [← h.exists_iff, hdef]
      exact nofun
    rw [← h.referenceCount hdef, hzero] at hposi
    exact absurd hposi (Nat.lt_irrefl 0)
  · intro hookHash
    have hle := uses_le_ncard_carriers registry account hookHash
    rw [h.count_eq]
    show _ = _ + 0 + _
    omega
  · intro hookObj hmem hookHash hhash
    apply h.exists_iff.mpr
    refine lt_of_lt_of_le ?_ (uses_le_ncard_carriers registry account hookHash)
    exact countP_pos_iff.mpr ⟨hookObj, hmem, decide_eq_true hhash⟩

/-- **A successful transaction keeps the counts exact** if they do not overflow. -/
theorem Counted.setHook (h : Counted view.toHookRegistry)
    (hfits : ∀ hookHash, (view.carriers hookHash).ncard + hookSets.length < 2 ^ 64)
    (hset : setHook env ownerDir pages account hookSets view = .ok (ter, view'))
    (hsuccess : ter.isTesSuccess = true) : Counted view'.toHookRegistry := by
  obtain ⟨st, hposi, hdefs, hhs⟩ := registry_of_setHook hset hsuccess
  have hfin := (h.balanced account).setPositions (by
    intro hookHash
    rw [h.count_eq]
    exact hfits hookHash) hposi
  have hcar : ∀ hookHash, (view'.carriers hookHash).ncard = st.count hookHash := by
    intro hookHash
    have hupd := ncard_carriers_update hhs hookHash
    have hold := uses_le_ncard_carriers view.toHookRegistry account hookHash
    have hnew := hfin.count hookHash
    rw [show uses hookHash [] = 0 from rfl] at hnew
    rw [uses_writtenHooks] at hupd
    omega
  have hdef : ∀ hookHash, view'.hookDefinition hookHash
      = (st.definition hookHash).filter fun hookDef => decide (hookDef.referenceCount ≠ 0) := by
    intro hookHash
    rw [hdefs, hookDefinition_of_enacted hfin.tracks]
  constructor
  · intro hookHash hookDef hsome
    rw [hdef, filter_eq_some_iff] at hsome
    rw [hcar]
    unfold Setting.count
    rw [hsome.1]
    rfl
  · intro hookHash
    rw [hdef, hcar]
    unfold Setting.count
    cases st.definition hookHash with
    | none => simp
    | some hookDef =>
      by_cases hzero : hookDef.referenceCount = 0
      · simp [Option.filter, hzero]
      · simp [Option.filter, hzero, Nat.pos_iff_ne_zero]

/-! ## Runs -/

/-- A `SetHook` transaction, with what it asks of code outside of the ledger. -/
structure SetHookEvent where
  env : SetHookEnv
  ownerDir : OwnerDir
  pages : ℕ
  account : AccountID
  hookSets : List HookSetObj

/-- The transaction succeeds on a ledger with the given hooks, whatever else has changed. -/
def SetHookEvent.Step (registry : HookRegistry) (e : SetHookEvent) (registry' : HookRegistry) :
    Prop :=
  ∃ view ter view', view.toHookRegistry = registry ∧
    setHook e.env e.ownerDir e.pages e.account e.hookSets view = .ok (ter, view') ∧
    ter.isTesSuccess = true ∧ view'.toHookRegistry = registry'

/-- No count can overflow in the transaction. -/
def SetHookEvent.Fits (registry : HookRegistry) (e : SetHookEvent) : Prop :=
  ∀ hookHash, (registry.carriers hookHash).ncard + e.hookSets.length < 2 ^ 64

/-- **Reference counts are exact** in every successful run, if no count can overflow. -/
theorem counted_of_run {registry registry' : HookRegistry} {es : List SetHookEvent}
    (hstart : Counted registry)
    (hrun : Run (fun registry e registry' => SetHookEvent.Step registry e registry' ∧ e.Fits registry)
      registry es registry') : Counted registry' := by
  apply hrun.invariant (fun _ registry => Counted registry) hstart
  rintro es registry e registry' hcounted ⟨⟨view, ter, view', rfl, hset, hsuccess, rfl⟩, hfits⟩
  exact hcounted.setHook hfits hset hsuccess

end

/-! ## Hooks without end -/

/-- Code outside of the ledger that answers always in the same way. -/
def plainEnv : SetHookEnv where
  sha512Half _ := .ofByte 7
  validateWasm _ := true
  scale := Guard.exactScale

/-- A new hook. -/
def createSet : HookSetObj where
  createCode := some (Guard.loopModule 0x0A)
  hookNamespace := some .zero
  hookOn := some .zero
  hookApiVersion := some 0

/-- The same hook on another account. -/
def installSet : HookSetObj where
  hookHash := some (.ofByte 7)

/-- A transaction with one entry. -/
def oneSet (account : AccountID) (hookSetObj : HookSetObj) : SetHookEvent :=
  ⟨plainEnv, ⟨true, true⟩, 0, account, [hookSetObj]⟩

/-- The hook of each of the accounts. -/
def crowdHook : HookObj := { HookObj.blank with hookHash := some (.ofByte 7) }

def crowdDef (referenceCount : ℕ) : HookDefinition :=
  { newHookDef createSet (Guard.loopModule 0x0A) .zero .zero 23 0 with referenceCount }

/-- The accounts have the same hook. Its count stays when it would overflow. -/
def crowd (accounts : List AccountID) : HookRegistry where
  hooks acc := if acc ∈ accounts then some [crowdHook] else none
  hookDefinition hookHash :=
    if hookHash = .ofByte 7 ∧ accounts ≠ [] then
      some (crowdDef (min accounts.length (2 ^ 64 - 1)))
    else none

theorem hookDefinition_crowd (h : accounts ≠ []) :
    (crowd accounts).hookDefinition (.ofByte 7)
      = some (crowdDef (min accounts.length (2 ^ 64 - 1))) := if_pos ⟨rfl, h⟩

theorem hookDefinition_crowd_of_ne (accounts : List AccountID) {hookHash : UInt256}
    (h : hookHash ≠ .ofByte 7) : (crowd accounts).hookDefinition hookHash = none :=
  if_neg fun hboth => h hboth.1

theorem crowd_nil : crowd [] = noHooks := by
  unfold crowd noHooks
  rw [mk.injEq]
  refine ⟨?_, ?_⟩
  · funext acc
    exact if_neg not_mem_nil
  · funext hookHash
    exact if_neg (fun h => h.2 rfl)

theorem hooks_crowd_cons (account : AccountID) (accounts : List AccountID) :
    (crowd (account :: accounts)).hooks
      = update (crowd accounts).hooks account (some [crowdHook]) := by
  funext acc
  by_cases hacc : acc = account
  · subst hacc
    rw [update_self]
    exact if_pos mem_cons_self
  · rw [update_of_ne hacc]
    unfold crowd
    simp [hacc]

theorem crowd_step {hookSetObj : HookSetObj} {st : Setting} (hnew : account ∉ accounts)
    (hposit : setPosition plainEnv ⟨fun _ => true⟩ account none (some hookSetObj)
      { peeked := (crowd accounts).hookDefinition } = .ok st)
    (hnam : st.namespacesToDestroy = []) (hhs : st.newHooks = [crowdHook])
    (hdefs : (st.removeDefinitions (st.writeDefinitions (emptyView (crowd accounts)))).hookDefinition
      = (crowd (account :: accounts)).hookDefinition) :
    (oneSet account hookSetObj).Step (crowd accounts) (crowd (account :: accounts)) := by
  have hold : (crowd accounts).hooks account = none := if_neg hnew
  have hposi : setPositions plainEnv (emptyView (crowd accounts)).rules account [hookSetObj]
      ((none : Option (List HookObj)).getD [])
      { peeked := (emptyView (crowd accounts)).hookDefinition } = .ok st :=
    bind_eq_ok.mpr ⟨st, hposit, rfl⟩
  generalize hrem : st.removeDefinitions (st.writeDefinitions (emptyView (crowd accounts))) = removed
    at hdefs
  have hn : removed.hooks account = none := by
    rw [← hrem]
    exact hold
  have hwri : writeHooks ⟨true, true⟩ account st.newHooks removed
      = .ok (removed.setHooks account (some [crowdHook])) := by
    unfold writeHooks
    rw [hn, hhs]
    rfl
  have hena : enactHooks ⟨true, true⟩ 0 account 1 st (emptyView (crowd accounts)) = .ok
      (.tesSUCCESS, adjustOwnerCount (removed.setHooks account (some [crowdHook])) account 1) := by
    unfold enactHooks
    rw [hnam, dedup_nil, mergeSort_nil]
    unfold destroyNamespaces
    rw [ok_bind]
    dsimp only
    rw [hrem, hwri]
    rfl
  have hset : setHook plainEnv ⟨true, true⟩ 0 account [hookSetObj] (emptyView (crowd accounts)) = .ok
      (.tesSUCCESS, adjustOwnerCount (removed.setHooks account (some [crowdHook])) account 1) := by
    unfold setHook
    rw [show (emptyView (crowd accounts)).hooks account = none from hold]
    dsimp only
    rw [hposi]
    dsimp only
    rw [hhs]
    exact hena
  refine ⟨_, _, _, rfl, hset, rfl, ?_⟩
  rw [registry_adjustOwnerCount, ← hrem, mk.injEq]
  rw [← hrem] at hdefs
  exact ⟨(hooks_crowd_cons account accounts).symm, hdefs⟩

theorem crowd_create (account : AccountID) :
    (oneSet account createSet).Step (crowd []) (crowd [account]) := by
  have hvalid : validateHookSetEntry plainEnv ⟨fun _ => true⟩ account createSet
      = .ok (.counts 23 0) := by
    show validateCreateCode plainEnv ⟨fun _ => true⟩ (Guard.loopModule 0x0A) = _
    decide +kernel
  have hposi : setPosition plainEnv ⟨fun _ => true⟩ account none (some createSet)
      { peeked := (crowd []).hookDefinition } = .ok
        ((Setting.insert { peeked := (crowd []).hookDefinition } (.ofByte 7) (crowdDef 1)).push
          crowdHook) := by
    show setCreate plainEnv ⟨fun _ => true⟩ account createSet none
      { peeked := (crowd []).hookDefinition } = _
    unfold setCreate
    rw [failIf_of_not (by decide), ok_bind]
    dsimp only
    rw [failIf_of_not (by decide), ok_bind]
    rw [show Setting.definition { peeked := (crowd []).hookDefinition }
      (plainEnv.sha512Half (createSet.createCode.getD [])) = none from rfl]
    rw [hvalid]
    rfl
  refine crowd_step not_mem_nil hposi rfl rfl ?_
  funext hookHash
  show (update (fun _ => none) (.ofByte 7) (some (crowdDef 1)) hookHash).or _ = _
  by_cases heq : hookHash = .ofByte 7
  · subst heq
    rw [update_self]
    rfl
  · rw [update_of_ne heq, hookDefinition_crowd_of_ne [account] heq]
    exact hookDefinition_crowd_of_ne [] heq

/-- After the first account has created the hook, the counts are exact. -/
theorem crowd_counted : Counted (crowd [owner]) := by
  have hstep := crowd_create owner
  rw [crowd_nil] at hstep
  refine counted_of_run counted_noHooks (Run.single ⟨hstep, fun hookHash => ?_⟩)
  rw [carriers_noHooks, Set.ncard_empty]
  decide

theorem increment_crowdDef (n : ℕ) :
    incrementReferenceCount (crowdDef (min n (2 ^ 64 - 1))) = crowdDef (min (n + 1) (2 ^ 64 - 1)) := by
  show (if (min n (2 ^ 64 - 1) + 1) % 2 ^ 64 = 0 then crowdDef (min n (2 ^ 64 - 1))
    else crowdDef ((min n (2 ^ 64 - 1) + 1) % 2 ^ 64)) = _
  split
  · congr 1
    omega
  · congr 1
    omega

theorem crowd_install (hne : accounts ≠ []) (hnew : account ∉ accounts) :
    (oneSet account installSet).Step (crowd accounts) (crowd (account :: accounts)) := by
  have hdef := hookDefinition_crowd hne
  have hposi : setPosition plainEnv ⟨fun _ => true⟩ account none (some installSet)
      { peeked := (crowd accounts).hookDefinition } = .ok
        ((Setting.acquire { peeked := (crowd accounts).hookDefinition } (.ofByte 7)).push
          crowdHook) := by
    show setInstall installSet none (.ofByte 7) ((crowd accounts).hookDefinition (.ofByte 7))
      { peeked := (crowd accounts).hookDefinition } = _
    rw [hdef]
    rfl
  refine crowd_step hnew hposi ?_ ?_ ?_
  · show (Setting.acquire _ _).namespacesToDestroy = []
    unfold Setting.acquire
    dsimp only
    rw [hdef]
  · show (Setting.acquire _ _).newHooks ++ _ = _
    rw [Setting.newHooks_acquire]
    rfl
  have hdes : ((Setting.acquire { peeked := (crowd accounts).hookDefinition }
      (.ofByte 7)).push crowdHook).keyletsToDestroy = [] := Setting.keyletsToDestroy_acquire
  have hupd : ((Setting.acquire { peeked := (crowd accounts).hookDefinition }
      (.ofByte 7)).push crowdHook).slesToUpdate = [.ofByte 7] := Setting.slesToUpdate_acquire
  have hacq := Setting.definition_acquire { peeked := (crowd accounts).hookDefinition }
    (.ofByte 7)
  have hins := Setting.slesToInsert_acquire { peeked := (crowd accounts).hookDefinition }
    (.ofByte 7)
  funext hookHash
  unfold Setting.removeDefinitions Setting.writeDefinitions
  simp only [hdes, hupd, not_mem_nil, false_and, if_false, mem_singleton]
  by_cases heq : hookHash = .ofByte 7
  · subst heq
    rw [if_pos rfl]
    refine (hacq _).trans ?_
    rw [if_pos rfl]
    show (((crowd accounts).hookDefinition (.ofByte 7)).or none).map incrementReferenceCount = _
    rw [hdef, or_none, map_some, increment_crowdDef,
      hookDefinition_crowd (cons_ne_nil account accounts), length_cons]
  · rw [if_neg heq]
    show ((Setting.acquire _ _).slesToInsert hookHash).or _ = _
    rw [hins, if_neg (fun h => heq h.1), hookDefinition_crowd_of_ne _ heq]
    exact hookDefinition_crowd_of_ne accounts heq

theorem crowd_run (hnd : accounts.Nodup) :
    ∃ es, Run SetHookEvent.Step noHooks es (crowd accounts) := by
  induction accounts with
  | nil =>
    rw [crowd_nil]
    exact ⟨[], Run.nil⟩
  | cons account accounts ih =>
    obtain ⟨hnew, hnd⟩ := nodup_cons.mp hnd
    obtain ⟨es, hrun⟩ := ih hnd
    cases accounts with
    | nil => exact ⟨_, hrun.snoc (crowd_create account)⟩
    | cons other accounts => exact ⟨_, hrun.snoc (crowd_install (cons_ne_nil _ _) hnew)⟩

theorem ncard_carriers_crowd (hnd : accounts.Nodup) :
    ((crowd accounts).carriers (.ofByte 7)).ncard = accounts.length := by
  induction accounts with
  | nil => rw [crowd_nil, carriers_noHooks, Set.ncard_empty, length_nil]
  | cons account accounts ih =>
    obtain ⟨hnew, hnd⟩ := nodup_cons.mp hnd
    have hupd := ncard_carriers_update (hooks_crowd_cons account accounts) (.ofByte 7)
    rw [show (crowd accounts).hooks account = none from if_neg hnew, ih hnd] at hupd
    exact hupd

theorem exists_accounts {n : ℕ} (hn : n ≤ (2 ^ 8) ^ 20) :
    ∃ accounts : List AccountID, accounts.Nodup ∧ accounts.length = n := by
  have hfin := Fintype.ofFinite AccountID
  have hle : Fintype.card (List.Vector UInt8 20) ≤ Fintype.card AccountID :=
    Fintype.card_le_of_injective (fun v => ⟨v.1, v.2⟩ : List.Vector UInt8 20 → AccountID)
      fun v w h => Subtype.ext (congrArg BaseUInt.data h)
  rw [card_vector, ← FinEnum.card_eq_fintypeCard, FinEnum.card_UInt8] at hle
  obtain ⟨accounts, -, hcard⟩ := Finset.exists_subset_card_eq
    (hn.trans hle : n ≤ (Finset.univ : Finset AccountID).card)
  exact ⟨accounts.toList, accounts.nodup_toList, by rw [Finset.length_toList, hcard]⟩

/-- **A count that would overflow stays behind**: after as many accounts as there are 64-bit numbers
have the hook, the definition counts one less. -/
theorem crowd_not_counted :
    ∃ es registry, Run SetHookEvent.Step noHooks es registry ∧ ¬ Counted registry := by
  obtain ⟨accounts, hnodup, hlength⟩ := exists_accounts (show 2 ^ 64 ≤ (2 ^ 8) ^ 20 by decide)
  obtain ⟨es, hrun⟩ := crowd_run hnodup
  refine ⟨es, crowd accounts, hrun, fun hcounted => ?_⟩
  have hne : accounts ≠ [] := by
    rintro rfl
    rw [length_nil] at hlength
    omega
  have hcount := hcounted.referenceCount (hookDefinition_crowd hne)
  rw [ncard_carriers_crowd hnodup, hlength] at hcount
  change min (2 ^ 64) (2 ^ 64 - 1) = 2 ^ 64 at hcount
  omega

end Xahau.Hook
