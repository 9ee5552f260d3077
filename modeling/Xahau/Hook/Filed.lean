import Xahau.Hook.Finalize
import Xahau.Ledger.Linked

/-! # Hook states and their directories

In a consistent ledger every hook state is filed in the directory of its namespace, on the page that
it names, and the directories hold nothing else. There `setHookState` fails only for want of an
account, a reserve or a page, and it keeps the ledger consistent. -/

namespace Xahau.Hook

open Checked Directory Function

/-- The hook states and the directories of their namespaces agree. -/
structure Filed (view : View) : Prop where
  linked : ∀ acc ns, (view.hookStateDir acc ns).Linked
  holds_iff : ∀ {acc ns page key}, (view.hookStateDir acc ns).Holds page key ↔
    ∃ hookState, view.hookState acc key ns = some hookState ∧ hookState.ownerNode = page
  owned : ∀ {acc key ns}, view.hookState acc key ns ≠ none → view.account acc ≠ none

section

variable {view view' : View} {acc acc' : AccountID} {sleAccount : AccountRoot} {ns ns' key key' : UInt256}
  {data : Blob} {hookState : HookState} {dir : Directory} {page : Nat}

theorem filed_of_empty (hdir : ∀ acc ns, view.hookStateDir acc ns = .empty)
    (hst : ∀ acc key ns, view.hookState acc key ns = none) : Filed view := by
  constructor
  · intro acc ns
    rw [hdir]
    exact linked_empty
  · intro acc ns page key
    rw [hdir, hst]
    exact iff_of_false not_holds_empty (by simp)
  · intro acc key ns hsome
    exact absurd (hst acc key ns) hsome

theorem View.hookState_setHookStateEntry {hookState : Option HookState} :
    (view.setHookStateEntry acc key ns hookState).hookState acc' key' ns' =
      if (acc', key', ns') = (acc, key, ns) then hookState else view.hookState acc' key' ns' := rfl

section

variable (h : Filed view)

include h

theorem Filed.holds (hst : view.hookState acc key ns = some hookState) :
    (view.hookStateDir acc ns).Holds hookState.ownerNode key :=
  h.holds_iff.mpr ⟨hookState, hst, rfl⟩

theorem Filed.not_holds (hst : view.hookState acc key ns = none) :
    ¬ (view.hookStateDir acc ns).Holds page key := by
  intro hh
  obtain ⟨hookState, hsome, -⟩ := h.holds_iff.mp hh
  rw [hst] at hsome
  cases hsome

theorem Filed.hookStateDir_ne_none_iff (acc : AccountID) (ns : UInt256) :
    view.hookStateDir acc ns 0 ≠ none ↔ ∃ key, view.hookState acc key ns ≠ none := by
  constructor
  · intro hroot
    obtain ⟨root, hroot⟩ := Option.ne_none_iff_exists'.mp hroot
    obtain ⟨page, key, hh⟩ := (h.linked acc ns).exists_holds hroot
    obtain ⟨hookState, hst, -⟩ := h.holds_iff.mp hh
    exact ⟨key, by rw [hst]; exact nofun⟩
  · rintro ⟨key, hst⟩ hroot
    obtain ⟨hookState, hst⟩ := Option.ne_none_iff_exists'.mp hst
    exact (h.linked acc ns).not_holds hroot (h.holds hst)

theorem Filed.setAccount : Filed (view.setAccount acc sleAccount) := by
  refine ⟨h.linked, h.holds_iff, ?_⟩
  intro acc' key ns hst
  show update view.account acc (some sleAccount) acc' ≠ none
  by_cases hacc : acc' = acc
  · subst hacc
    rw [update_self]
    exact nofun
  · rw [update_of_ne hacc]
    exact h.owned hst

theorem Filed.setEntry (hacc : view.account acc ≠ none) (hlin : dir.Linked)
    {hookState : Option HookState} (hoth : ∀ page key', key' ≠ key →
      (dir.Holds page key' ↔ (view.hookStateDir acc ns).Holds page key'))
    (hself : ∀ page, dir.Holds page key ↔ ∃ st, hookState = some st ∧ st.ownerNode = page) :
    Filed ((view.setHookStateDir acc ns dir).setHookStateEntry acc key ns hookState) := by
  constructor
  · intro acc' ns'
    show (if (acc', ns') = (acc, ns) then dir else view.hookStateDir acc' ns').Linked
    split
    · exact hlin
    · exact h.linked acc' ns'
  · intro acc' ns' page key'
    rw [View.hookState_setHookStateEntry]
    show (if (acc', ns') = (acc, ns) then dir else view.hookStateDir acc' ns').Holds page key' ↔ _
    by_cases hdir : (acc', ns') = (acc, ns)
    · cases hdir
      rw [if_pos rfl]
      by_cases hkey : key' = key
      · subst hkey
        rw [if_pos rfl]
        exact hself page
      · rw [if_neg (by simp [hkey]), hoth page key' hkey]
        exact h.holds_iff
    · rw [if_neg hdir, if_neg (fun heq => hdir (by cases heq; rfl))]
      exact h.holds_iff
  · intro acc' key' ns'
    rw [View.hookState_setHookStateEntry]
    split
    next heq =>
      cases heq
      intro _
      exact hacc
    · intro hst
      exact h.owned hst

theorem Filed.remove (hst : view.hookState acc key ns = some hookState)
    (hrem : (view.hookStateDir acc ns).dirRemove hookState.ownerNode key false = .ok (true, dir))
    (hlin : dir.Linked) :
    Filed ((view.setHookStateDir acc ns dir).setHookStateEntry acc key ns none) := by
  have hacc : view.account acc ≠ none := by
    apply h.owned
    rw [hst]
    exact nofun
  refine h.setEntry hacc hlin ?_ ?_
  · intro page key' hne
    exact (holds_dirRemove hrem).2 page key' (by simp [hne])
  · intro page
    exact iff_of_false ((h.linked acc ns).not_holds_dirRemove hrem) (by simp)

theorem Filed.insert (hacc : view.account acc ≠ none)
    (hstate : view.hookState acc key ns = none) {capped preserveOrder : Bool}
    (hadd : (view.hookStateDir acc ns).dirAdd capped preserveOrder key = .ok (some (page, dir)))
    (hlin : dir.Linked) :
    Filed ((view.setHookStateDir acc ns dir).setHookStateEntry acc key ns (some ⟨data, page⟩)) := by
  refine h.setEntry hacc hlin ?_ ?_
  · intro page' key' hne
    rw [holds_dirAdd hadd]
    simp [hne]
  intro page'
  rw [holds_dirAdd hadd]
  constructor
  · rintro (⟨rfl, -⟩ | hh)
    · exact ⟨_, rfl, rfl⟩
    · exact absurd hh (h.not_holds hstate)
  · rintro ⟨st, hst, rfl⟩
    cases hst
    exact .inl ⟨rfl, rfl⟩

theorem Filed.replace (hstate : view.hookState acc key ns = some hookState) :
    Filed (view.setHookStateEntry acc key ns (some { hookState with data })) := by
  constructor
  · exact h.linked
  · intro acc' ns' page key'
    rw [View.hookState_setHookStateEntry]
    show (view.hookStateDir acc' ns').Holds page key' ↔ _
    rw [h.holds_iff]
    split
    next heq =>
      cases heq
      rw [hstate]
      constructor
      all_goals
        rintro ⟨st, hst, rfl⟩
        cases hst
        exact ⟨_, rfl, rfl⟩
    · rfl
  · intro acc' key' ns'
    rw [View.hookState_setHookStateEntry]
    split
    next heq =>
      cases heq
      intro _
      apply h.owned
      rw [hstate]
      exact nofun
    · intro hsome
      exact h.owned hsome

end

/-! ## What `setHookState` does to a consistent ledger -/

/-- The account root after deleting a state; the namespace is `gone` if it was the last. -/
structure DropsState (ns : UInt256) (gone : Prop) [Decidable gone]
    (sleAccount sleAccount' : AccountRoot) : Prop where
  balance : sleAccount'.balance = sleAccount.balance
  ownerCount : sleAccount'.ownerCount =
    if 0 < sleAccount.stateCount then confineOwnerCount sleAccount.ownerCount (-1)
    else sleAccount.ownerCount
  hookStateCount : sleAccount'.hookStateCount = some (sleAccount.stateCount - 1)
  hookNamespaces : sleAccount'.hookNamespaces =
    if gone then (removeHookNamespaceEntry sleAccount ns).hookNamespaces
    else sleAccount.hookNamespaces

/-- The account root after creating a state; the namespace is `fresh` if it is the first. -/
structure AddsState (ns : UInt256) (fresh : Prop) [Decidable fresh]
    (sleAccount sleAccount' : AccountRoot) : Prop where
  balance : sleAccount'.balance = sleAccount.balance
  ownerCount : sleAccount'.ownerCount =
    if sleAccount.stateCount < (sleAccount.stateCount + 1) % 0x100000000 then
      confineOwnerCount sleAccount.ownerCount 1
    else sleAccount.ownerCount
  hookStateCount : sleAccount'.hookStateCount = some ((sleAccount.stateCount + 1) % 0x100000000)
  hookNamespaces : sleAccount'.hookNamespaces =
    if fresh then (addHookNamespaceEntry sleAccount ns).hookNamespaces
    else sleAccount.hookNamespaces

theorem removeHookNamespaceEntry_eq : removeHookNamespaceEntry sleAccount ns = { sleAccount with
    hookNamespaces := (removeHookNamespaceEntry sleAccount ns).hookNamespaces } := by
  unfold removeHookNamespaceEntry
  dsimp only
  split <;> rfl

variable {sleAccount' : AccountRoot}

theorem addHookNamespaceEntry_eq : addHookNamespaceEntry sleAccount ns = { sleAccount with
    hookNamespaces := (addHookNamespaceEntry sleAccount ns).hookNamespaces } := by
  unfold addHookNamespaceEntry
  split <;> rfl

/-- **Deleting a state** of a consistent ledger succeeds. -/
theorem Filed.eraseHookState_eq (h : Filed view) (sleAccount : AccountRoot)
    (hst : view.hookState acc key ns = some hookState) :
    ∃ dir sleAccount',
      (view.hookStateDir acc ns).dirRemove hookState.ownerNode key false = .ok (true, dir) ∧
      dir.Linked ∧ dir.lastPage ≤ (view.hookStateDir acc ns).lastPage ∧
      DropsState ns (dir 0 = none) sleAccount sleAccount' ∧
      eraseHookState view acc sleAccount ns key = .ok (.tesSUCCESS,
        ((view.setHookStateDir acc ns dir).setHookStateEntry acc key ns none).setAccount acc
          sleAccount') := by
  obtain ⟨dir, hrem, hlin, hlast⟩ := (h.linked acc ns).dirRemove (h.holds hst)
  have hroot : view.hookStateDir acc ns 0 ≠ none :=
    (h.hookStateDir_ne_none_iff acc ns).mpr ⟨key, by rw [hst]; exact nofun⟩
  have hcount : computeHookStateOwnerCount (sleAccount.stateCount - 1)
      < computeHookStateOwnerCount sleAccount.stateCount ↔ 0 < sleAccount.stateCount := by
    unfold computeHookStateOwnerCount
    omega
  refine ⟨dir, ?_, hrem, hlin, hlast, ?drops, ?eq⟩
  case eq =>
    unfold eraseHookState
    rw [hst]
    dsimp only
    rw [if_neg hroot, hrem, ok_bind]
    rfl
  case drops =>
    split
    next hgone =>
      rw [removeHookNamespaceEntry_eq]
      refine ⟨rfl, if_congr hcount rfl rfl, rfl, ?_⟩
      rw [if_pos hgone]
      simp only [removeHookNamespaceEntry, apply_ite AccountRoot.hookNamespaces]
    next hgone =>
      refine ⟨rfl, if_congr hcount rfl rfl, rfl, ?_⟩
      rw [if_neg hgone]

/-- **Creating a state** in a consistent ledger needs a reserve and a page only. -/
theorem Filed.createHookState_eq (h : Filed view) (data : Blob)
    (hst : view.hookState acc key ns = none)
    (hres : sleAccount.stateCount < (sleAccount.stateCount + 1) % 0x100000000 →
      view.fees.accountReserve ((sleAccount.ownerCount + 1) % 0x100000000) ≤ sleAccount.balance)
    (hroom : (view.hookStateDir acc ns).lastPage + 1
      < pageLimit (!view.rules.enabled .fixPageCap)) :
    ∃ page dir sleAccount',
      (view.hookStateDir acc ns).dirAdd (!view.rules.enabled .fixPageCap) false key
        = .ok (some (page, dir)) ∧
      dir.Linked ∧ dir.lastPage ≤ (view.hookStateDir acc ns).lastPage + 1 ∧
      AddsState ns (view.hookStateDir acc ns 0 = none) sleAccount sleAccount' ∧
      createHookState view acc sleAccount ns key data = .ok (.tesSUCCESS,
        ((view.setHookStateDir acc ns dir).setHookStateEntry acc key ns
          (some ⟨data, page⟩)).setAccount acc sleAccount') := by
  obtain ⟨page, dir, hadd, hlin, hlast⟩ :=
    (h.linked acc ns).dirAdd (fun page => h.not_holds hst) false hroom
  have hpaid : ¬ (decide (computeHookStateOwnerCount sleAccount.stateCount
      < computeHookStateOwnerCount ((sleAccount.stateCount + 1) % 0x100000000)) = true ∧
      sleAccount.balance
        < view.fees.accountReserve ((sleAccount.ownerCount + 1) % 0x100000000)) := by
    rintro ⟨hgro, hpoor⟩
    exact absurd (hres (of_decide_eq_true hgro)) (Int.not_le.mpr hpoor)
  refine ⟨page, dir, ?_, hadd, hlin, hlast, ?adds, ?eq⟩
  case eq =>
    unfold createHookState
    dsimp only
    rw [if_neg hpaid]
    -- the account root is replaced twice
    have hins : ∀ sleAccount', (view.setAccount acc sleAccount').dirInsertState acc ns key
        = .ok (some (page, dir)) := fun _ => hadd
    have htwi : ∀ sleAccount₁ sleAccount₂, (((view.setAccount acc sleAccount₁).setHookStateDir acc
        ns dir).setHookStateEntry acc key ns (some ⟨data, page⟩)).setAccount acc sleAccount₂
          = ((view.setHookStateDir acc ns dir).setHookStateEntry acc key ns
            (some ⟨data, page⟩)).setAccount acc sleAccount₂ := by
      intro sleAccount₁ sleAccount₂
      unfold View.setAccount View.setHookStateDir View.setHookStateEntry
      rw [update_idem]
    rw [hins, ok_bind]
    dsimp only
    rw [htwi]
  case adds =>
    by_cases hfre : view.hookStateDir acc ns 0 = none
    · have hfre' : ∀ sleAccount', (view.setAccount acc sleAccount').hookStateDir acc ns 0 = none :=
        fun _ => hfre
      rw [if_pos (hfre' _), addHookNamespaceEntry_eq]
      refine ⟨rfl, ?_, rfl, ?_⟩
      · exact if_congr decide_eq_true_iff rfl rfl
      · rw [if_pos hfre]
        simp only [addHookNamespaceEntry, apply_ite AccountRoot.hookNamespaces]
    · have hfre' : ∀ sleAccount', (view.setAccount acc sleAccount').hookStateDir acc ns 0 ≠ none :=
        fun _ => hfre
      rw [if_neg (hfre' _)]
      refine ⟨rfl, ?_, rfl, ?_⟩
      · exact if_congr decide_eq_true_iff rfl rfl
      · rw [if_neg hfre]

/-- The ways in which `setHookState` sets a state of an account. -/
inductive SetsState (view : View) (acc : AccountID) (sleAccount : AccountRoot) (ns key : UInt256)
    (data : Blob) : View → Prop where
  /-- A request to remove a non-existent entry. -/
  | absent : data = [] → view.hookState acc key ns = none →
      SetsState view acc sleAccount ns key data view
  | erased {hookState : HookState} {dir : Directory} {sleAccount' : AccountRoot} : data = [] →
      view.hookState acc key ns = some hookState →
      (view.hookStateDir acc ns).dirRemove hookState.ownerNode key false = .ok (true, dir) →
      dir.Linked → dir.lastPage ≤ (view.hookStateDir acc ns).lastPage →
      DropsState ns (dir 0 = none) sleAccount sleAccount' →
      SetsState view acc sleAccount ns key data
        (((view.setHookStateDir acc ns dir).setHookStateEntry acc key ns none).setAccount acc
          sleAccount')
  | created {page : Nat} {dir : Directory} {sleAccount' : AccountRoot} : data ≠ [] →
      view.hookState acc key ns = none →
      (view.hookStateDir acc ns).dirAdd (!view.rules.enabled .fixPageCap) false key
        = .ok (some (page, dir)) →
      dir.Linked → dir.lastPage ≤ (view.hookStateDir acc ns).lastPage + 1 →
      AddsState ns (view.hookStateDir acc ns 0 = none) sleAccount sleAccount' →
      SetsState view acc sleAccount ns key data
        (((view.setHookStateDir acc ns dir).setHookStateEntry acc key ns
          (some ⟨data, page⟩)).setAccount acc sleAccount')
  | replaced {hookState : HookState} : data ≠ [] → view.hookState acc key ns = some hookState →
      SetsState view acc sleAccount ns key data
        (view.setHookStateEntry acc key ns (some { hookState with data }))

/-- **Setting a state** of a consistent ledger needs a reserve and a page if it is new. -/
theorem Filed.setHookState_eq (h : Filed view) (ns key : UInt256) (hacc : view.account acc = some sleAccount)
    (hsize : data.length ≤ maxHookStateDataSize)
    (hres : data ≠ [] → view.hookState acc key ns = none →
      sleAccount.stateCount < (sleAccount.stateCount + 1) % 0x100000000 →
      view.fees.accountReserve ((sleAccount.ownerCount + 1) % 0x100000000) ≤ sleAccount.balance)
    (hroom : data ≠ [] → view.hookState acc key ns = none →
      (view.hookStateDir acc ns).lastPage + 1
        < pageLimit (!view.rules.enabled .fixPageCap)) :
    ∃ view', setHookState view acc ns key data = .ok (.tesSUCCESS, view') ∧
      SetsState view acc sleAccount ns key data view' := by
  unfold setHookState
  rw [hacc]
  dsimp only
  rw [if_neg (Nat.not_lt.mpr hsize)]
  split
  next hdata =>
    cases hst : view.hookState acc key ns with
    | none =>
      refine ⟨view, ?_, .absent hdata hst⟩
      unfold eraseHookState
      rw [hst]
    | some hookState =>
      obtain ⟨dir, sleAccount', hrem, hlin, hlast, hdro, heq⟩ := h.eraseHookState_eq sleAccount hst
      exact ⟨_, heq, .erased hdata hst hrem hlin hlast hdro⟩
  next hdata =>
    cases hst : view.hookState acc key ns with
    | none =>
      obtain ⟨page, dir, sleAccount', hadd, hlin, hlast, hadds, heq⟩ :=
        h.createHookState_eq data hst (hres hdata hst) (hroom hdata hst)
      exact ⟨_, heq, .created hdata hst hadd hlin hlast hadds⟩
    | some hookState => exact ⟨_, rfl, .replaced hdata hst⟩

theorem Filed.setsState (h : Filed view) (hacc : view.account acc = some sleAccount)
    (hsets : SetsState view acc sleAccount ns key data view') : Filed view' := by
  have hsome : view.account acc ≠ none := by
    rw [hacc]
    exact nofun
  cases hsets with
  | absent => exact h
  | erased _ hst hrem hlin => exact (h.remove hst hrem hlin).setAccount
  | created _ hst hadd hlin => exact (h.insert hsome hst hadd hlin).setAccount
  | replaced _ hst => exact h.replace hst

theorem SetsState.hookState_ne_none (h : SetsState view acc sleAccount ns key data view')
    (acc' : AccountID) (key' ns' : UInt256) :
    view'.hookState acc' key' ns' ≠ none ↔
      if (acc', key', ns') = (acc, key, ns) then data ≠ [] else view.hookState acc' key' ns' ≠ none := by
  cases h with
  | absent hdata hst =>
    split
    next heq =>
      cases heq
      exact iff_of_false (not_not.mpr hst) (not_not.mpr hdata)
    · rfl
  | erased hdata hst =>
    show (if (acc', key', ns') = (acc, key, ns) then _ else _) ≠ none ↔ _
    split
    · exact iff_of_false (not_not.mpr rfl) (not_not.mpr hdata)
    · rfl
  | created hdata hst | replaced hdata hst =>
    show (if (acc', key', ns') = (acc, key, ns) then _ else _) ≠ none ↔ _
    split
    · exact iff_of_true nofun hdata
    · rfl

end

end Xahau.Hook
