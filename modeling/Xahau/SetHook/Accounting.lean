import Xahau.Hook.Authority
import Xahau.SetHook.DestroyNamespace

/-! # Accounting for hook states

An account root has a count of its hook states, the list of their namespaces, and an owner count to
which every state adds one. `setHookState` and `destroyNamespace` keep these in step with the
states, but the count is not removed when `setHookState` deletes the last state, and a state that
finds no page is counted all the same. -/

namespace Xahau.Hook

open AccountRoot Checked Function List Option

/-- The keys and namespaces of the hook states of an account. -/
def View.statesOf (view : View) (acc : AccountID) : Set (UInt256 × UInt256) :=
  { p | view.hookState acc p.1 p.2 ≠ none }

/-- The account root accounts for a set of hook states, given by key and namespace. -/
structure AccountRoot.Accounts (sleAccount : AccountRoot) (states : Set (UInt256 × UInt256)) :
    Prop where
  stateCount : sleAccount.stateCount = states.ncard
  absent_iff : sleAccount.hookStateCount = none ↔ states.ncard = 0
  nodup : sleAccount.hookNamespaces.Nodup
  mem_namespaces : ∀ ns, ns ∈ sleAccount.hookNamespaces ↔ ∃ key, (key, ns) ∈ states
  ncard_le : states.ncard ≤ sleAccount.ownerCount
  ownerCount_lt : sleAccount.ownerCount < 0x100000000

/-- A ledger whose states are filed and accounted for. -/
structure Accounted (view : View) : Prop extends Filed view where
  accounts : ∀ {acc sleAccount}, view.account acc = some sleAccount →
    sleAccount.Accounts (view.statesOf acc)

/-- The owner counts have changed by as much as the numbers of hook states. -/
def OwnersFollow (view view' : View) : Prop :=
  ∀ acc sleAccount', view'.account acc = some sleAccount' →
    ∃ sleAccount, view.account acc = some sleAccount ∧
      (sleAccount'.ownerCount : ℤ) - sleAccount.ownerCount
        = (view'.statesOf acc).ncard - (view.statesOf acc).ncard

section

variable {view view' view'' : View} {acc : AccountID} {sleAccount sleAccount' : AccountRoot}
  {ns key : UInt256} {data : Blob} {states : Set (UInt256 × UInt256)}

theorem OwnersFollow.refl : OwnersFollow view view := by
  intro acc sleAccount hacc
  exact ⟨sleAccount, hacc, by rw [sub_self, sub_self]⟩

theorem OwnersFollow.trans (h : OwnersFollow view view') (h' : OwnersFollow view' view'') :
    OwnersFollow view view'' := by
  intro acc sleAccount'' hacc''
  obtain ⟨sleAccount', hacc', heq'⟩ := h' acc sleAccount'' hacc''
  obtain ⟨sleAccount, hacc, heq⟩ := h acc sleAccount' hacc'
  exact ⟨sleAccount, hacc, by omega⟩

/-! ## The account root -/

variable {partialDelete : Bool} {toDelete : List UInt256} {ns' : UInt256}

theorem mem_removeHookNamespaceEntry :
    ns' ∈ (removeHookNamespaceEntry sleAccount ns).hookNamespaces ↔
      ns' ∈ sleAccount.hookNamespaces ∧ ns' ≠ ns := by
  unfold removeHookNamespaceEntry
  dsimp only
  split
  · rw [mem_mergeSort, mem_dedup, mem_filter, decide_eq_true_iff]
  rename_i hlen
  rw [not_not, length_mergeSort] at hlen
  -- as many namespaces remain as there were, so the one to remove was not among them
  have hfil := (sleAccount.hookNamespaces.filter (· ≠ ns)).dedup_sublist.length_le
  have hall : (sleAccount.hookNamespaces.filter (· ≠ ns)).length
      = sleAccount.hookNamespaces.length :=
    le_antisymm (length_filter_le ..) (hlen ▸ hfil)
  rw [length_filter_eq_length_iff] at hall
  constructor
  · intro hmem
    exact ⟨hmem, of_decide_eq_true (hall ns' hmem)⟩
  · exact And.left

theorem nodup_removeHookNamespaceEntry (h : sleAccount.hookNamespaces.Nodup) :
    (removeHookNamespaceEntry sleAccount ns).hookNamespaces.Nodup := by
  unfold removeHookNamespaceEntry
  dsimp only
  split
  · exact (mergeSort_perm _ _).nodup_iff.mpr (nodup_dedup _)
  · exact h

theorem mem_addHookNamespaceEntry :
    ns' ∈ (addHookNamespaceEntry sleAccount ns).hookNamespaces ↔
      ns' ∈ sleAccount.hookNamespaces ∨ ns' = ns := by
  unfold addHookNamespaceEntry
  split
  next hmem =>
    constructor
    · exact .inl
    rintro (hmem' | rfl)
    · exact hmem'
    · exact hmem
  · rw [mem_append, mem_singleton]

theorem nodup_addHookNamespaceEntry (h : sleAccount.hookNamespaces.Nodup) :
    (addHookNamespaceEntry sleAccount ns).hookNamespaces.Nodup := by
  unfold addHookNamespaceEntry
  split
  · exact h
  rename_i hmem
  refine nodup_append.mpr ⟨h, nodup_singleton ns, ?_⟩
  rintro ns' hns' _ heq rfl
  rw [mem_singleton] at heq
  exact hmem (heq ▸ hns')

theorem confineOwnerCount_eq {current : Nat} {adjustment : Int} (hneg : 0 ≤ current + adjustment)
    (hmax : current + adjustment < 0x100000000) :
    (confineOwnerCount current adjustment : ℤ) = current + adjustment := by
  unfold confineOwnerCount
  rw [min_eq_left (by omega), Int.toNat_of_nonneg hneg]

theorem DropsState.accounts {gone : Prop} [Decidable gone]
    (h : DropsState ns gone sleAccount sleAccount') (haccs : sleAccount.Accounts states)
    (hmem : (key, ns) ∈ states) (hoth : 1 < sleAccount.stateCount)
    (hgone : gone ↔ ∀ key', (key', ns) ∉ states \ {(key, ns)}) :
    sleAccount'.Accounts (states \ {(key, ns)}) ∧
      (sleAccount'.ownerCount : ℤ) - sleAccount.ownerCount
        = (states \ {(key, ns)}).ncard - states.ncard := by
  have hcard : (states \ {(key, ns)}).ncard = states.ncard - 1 :=
    Set.ncard_sdiff_singleton_of_mem hmem
  have hcount := haccs.stateCount
  have hle := haccs.ncard_le
  have hlt := haccs.ownerCount_lt
  have hown : (sleAccount'.ownerCount : ℤ) = sleAccount.ownerCount - 1 := by
    rw [h.ownerCount, if_pos (by omega), confineOwnerCount_eq (by omega) (by omega)]
    rfl
  have hsta : ∀ ns' key', ns' ≠ ns → ((key', ns') ∈ states \ {(key, ns)} ↔ (key', ns') ∈ states) := by
    intro ns' key' hne
    simp [hne]
  refine ⟨⟨?_, ?_, ?_, ?_, by omega, by omega⟩, by omega⟩
  · unfold stateCount
    rw [h.hookStateCount, getD_some]
    omega
  · rw [h.hookStateCount]
    refine iff_of_false nofun ?_
    omega
  · rw [h.hookNamespaces]
    split
    · exact nodup_removeHookNamespaceEntry haccs.nodup
    · exact haccs.nodup
  intro ns'
  rw [h.hookNamespaces]
  by_cases hns : ns' = ns
  · subst hns
    split
    next hisGone =>
      rw [mem_removeHookNamespaceEntry]
      refine iff_of_false (fun hmem' => hmem'.2 rfl) ?_
      rintro ⟨key', hkey'⟩
      exact hgone.mp hisGone key' hkey'
    next hnotGone =>
      refine iff_of_true ((haccs.mem_namespaces ns').mpr ⟨key, hmem⟩) ?_
      by_contra hn
      exact hnotGone (hgone.mpr fun key' hkey' => hn ⟨key', hkey'⟩)
  · simp only [hsta ns' _ hns]
    rw [← haccs.mem_namespaces]
    split
    · rw [mem_removeHookNamespaceEntry]
      exact and_iff_left hns
    · rfl

theorem AddsState.accounts {fresh : Prop} [Decidable fresh]
    (h : AddsState ns fresh sleAccount sleAccount') (haccs : sleAccount.Accounts states)
    (hmem : (key, ns) ∉ states) (hmax : sleAccount.ownerCount + 1 < 0x100000000)
    (hfre : fresh ↔ ∀ key', (key', ns) ∉ states) :
    sleAccount'.Accounts (insert (key, ns) states) ∧
      (sleAccount'.ownerCount : ℤ) - sleAccount.ownerCount
        = (insert (key, ns) states).ncard - states.ncard := by
  have hcard : (insert (key, ns) states).ncard = states.ncard + 1 := Set.ncard_insert_of_notMem hmem
  have hcount := haccs.stateCount
  have hle := haccs.ncard_le
  have hmod : (sleAccount.stateCount + 1) % 0x100000000 = sleAccount.stateCount + 1 :=
    Nat.mod_eq_of_lt (by omega)
  have hown : (sleAccount'.ownerCount : ℤ) = sleAccount.ownerCount + 1 := by
    rw [h.ownerCount, hmod, if_pos (Nat.lt_succ_self _), confineOwnerCount_eq (by omega) (by omega)]
  have hcou := h.hookStateCount
  rw [hmod] at hcou
  refine ⟨⟨?_, ?_, ?_, ?_, by omega, by omega⟩, by omega⟩
  · unfold stateCount at hcount ⊢
    rw [hcou, getD_some]
    unfold stateCount
    omega
  · rw [hcou]
    refine iff_of_false nofun ?_
    omega
  · rw [h.hookNamespaces]
    split
    · exact nodup_addHookNamespaceEntry haccs.nodup
    · exact haccs.nodup
  intro ns'
  rw [h.hookNamespaces]
  by_cases hns : ns' = ns
  · subst hns
    refine iff_of_true ?_ ⟨key, Set.mem_insert _ _⟩
    split
    · exact mem_addHookNamespaceEntry.mpr (.inr rfl)
    rename_i hnotFresh
    rw [haccs.mem_namespaces]
    by_contra hn
    exact hnotFresh (hfre.mpr fun key' hkey' => hn ⟨key', hkey'⟩)
  · have hsta : (∃ key', (key', ns') ∈ insert (key, ns) states) ↔ ∃ key', (key', ns') ∈ states := by
      simp [hns]
    rw [hsta, ← haccs.mem_namespaces]
    split
    · rw [mem_addHookNamespaceEntry]
      exact or_iff_left hns
    · rfl

theorem destroyedAccount_eq (ns : UInt256) (partialDelete : Bool) {count remaining : ℕ}
    (hfix : view.rules.enabled .fixNSDelete = true)
    (hsub : (sleAccount.stateCount + (0x100000000 - count % 0x100000000)) % 0x100000000 = remaining)
    (hle : remaining ≤ sleAccount.stateCount) :
    ∃ sleAccount', destroyedAccount view sleAccount ns count partialDelete = some sleAccount' ∧
      sleAccount'.hookStateCount = (if remaining = 0 then none else some remaining) ∧
      sleAccount'.ownerCount = confineOwnerCount sleAccount.ownerCount (-count) ∧
      (sleAccount.hookNamespaces.Nodup → sleAccount'.hookNamespaces.Nodup) ∧
      ∀ ns', ns' ∈ sleAccount'.hookNamespaces ↔
        ns' ∈ sleAccount.hookNamespaces ∧ (ns' = ns → partialDelete = true) := by
  unfold destroyedAccount
  dsimp only
  rw [hsub, if_neg (Nat.not_lt.mpr hle), if_pos hfix]
  refine ⟨_, rfl, ?_⟩
  cases partialDelete with
  | true =>
    refine ⟨rfl, rfl, id, fun ns' => ?_⟩
    simp
  | false =>
    rw [if_neg Bool.false_ne_true, removeHookNamespaceEntry_eq]
    refine ⟨rfl, rfl, fun hnd => nodup_removeHookNamespaceEntry hnd, fun ns' => ?_⟩
    rw [mem_removeHookNamespaceEntry]
    simp

theorem accounts_destroyedAccount (view : View)
    (haccs : sleAccount.Accounts states) (hfix : view.rules.enabled .fixNSDelete = true)
    (hnd : toDelete.Nodup) (hmem : ∀ key ∈ toDelete, (key, ns) ∈ states)
    (hrest : partialDelete = true ↔ ∃ key, (key, ns) ∈ states \ { p | p.1 ∈ toDelete ∧ p.2 = ns }) :
    ∃ sleAccount',
      destroyedAccount view sleAccount ns toDelete.length partialDelete = some sleAccount' ∧
      sleAccount'.Accounts (states \ { p | p.1 ∈ toDelete ∧ p.2 = ns }) ∧
      (sleAccount'.ownerCount : ℤ) - sleAccount.ownerCount
        = (states \ { p | p.1 ∈ toDelete ∧ p.2 = ns }).ncard - states.ncard := by
  have hdel : ({ p | p.1 ∈ toDelete ∧ p.2 = ns } : Set (UInt256 × UInt256)).ncard
      = toDelete.length := by
    have hcoe : ({ p | p.1 ∈ toDelete ∧ p.2 = ns } : Set (UInt256 × UInt256))
        = toDelete.toFinset.image fun key => (key, ns) := by
      ext ⟨key, ns'⟩
      simp [eq_comm]
    rw [hcoe, Set.ncard_coe_finset, Finset.card_image_of_injective _ (Prod.mk_left_injective ns),
      toFinset_card_of_nodup hnd]
  have hsubs : ({ p | p.1 ∈ toDelete ∧ p.2 = ns } : Set (UInt256 × UInt256)) ⊆ states := by
    rintro ⟨key, ns'⟩ ⟨hkey, rfl⟩
    exact hmem key hkey
  have hcard := Set.ncard_sdiff hsubs
  have hfew := Set.ncard_le_ncard hsubs
  rw [hdel] at hcard hfew
  have hcount := haccs.stateCount
  have hle := haccs.ncard_le
  have hlt := haccs.ownerCount_lt
  have hsub : (sleAccount.stateCount + (0x100000000 - toDelete.length % 0x100000000)) % 0x100000000
      = sleAccount.stateCount - toDelete.length := by
    omega
  have hown : (confineOwnerCount sleAccount.ownerCount (-toDelete.length) : ℤ)
      = sleAccount.ownerCount - toDelete.length := by
    rw [confineOwnerCount_eq (by omega) (by omega)]
    rfl
  have hrem : ∀ ns', (∃ key, (key, ns') ∈ states \ { p | p.1 ∈ toDelete ∧ p.2 = ns }) ↔
      (∃ key, (key, ns') ∈ states) ∧ (ns' = ns → partialDelete = true) := by
    intro ns'
    by_cases hns : ns' = ns
    · subst hns
      rw [hrest]
      constructor
      · rintro ⟨key, hkey⟩
        exact ⟨⟨key, hkey.1⟩, fun _ => ⟨key, hkey⟩⟩
      · exact fun h => h.2 rfl
    · simp [hns]
  obtain ⟨sleAccount', heq, hcount', hown', hnd', hmem'⟩ :=
    destroyedAccount_eq ns partialDelete hfix hsub (by omega)
  refine ⟨sleAccount', heq, ⟨?_, ?_, hnd' haccs.nodup, ?_, ?_, ?_⟩, ?_⟩
  · unfold stateCount
    rw [hcount']
    split <;> simp only [getD_none, getD_some] <;> omega
  · rw [hcount']
    split
    · exact iff_of_true rfl (by omega)
    · exact iff_of_false nofun (by omega)
  · intro ns'
    rw [hmem', hrem, haccs.mem_namespaces]
  · omega
  · omega
  · omega

/-! ## Steps -/

theorem Accounted.of_account (h : Accounted view) (hfil : Filed view') (hoth : ∀ acc', acc' ≠ acc →
      view'.account acc' = view.account acc' ∧ view'.statesOf acc' = view.statesOf acc')
    (hacc : view.account acc = some sleAccount) (hacc' : view'.account acc = some sleAccount')
    (haccs : sleAccount'.Accounts (view'.statesOf acc))
    (hown : (sleAccount'.ownerCount : ℤ) - sleAccount.ownerCount
      = (view'.statesOf acc).ncard - (view.statesOf acc).ncard) :
    Accounted view' ∧ OwnersFollow view view' := by
  refine ⟨⟨hfil, ?_⟩, ?_⟩
  · intro acc₁ sleAccount₁ hacc₁
    by_cases heq : acc₁ = acc
    · subst heq
      rw [hacc'] at hacc₁
      cases hacc₁
      exact haccs
    · obtain ⟨hs, hsta⟩ := hoth acc₁ heq
      rw [hsta]
      exact h.accounts (hs ▸ hacc₁)
  · intro acc₁ sleAccount₁ hacc₁
    by_cases heq : acc₁ = acc
    · subst heq
      rw [hacc'] at hacc₁
      cases hacc₁
      exact ⟨sleAccount, hacc, hown⟩
    · obtain ⟨hs, hsta⟩ := hoth acc₁ heq
      refine ⟨sleAccount₁, hs ▸ hacc₁, ?_⟩
      rw [hsta, sub_self, sub_self]

theorem Filed.hookStateDir_eq_none_iff (h : Filed view) :
    view.hookStateDir acc ns 0 = none ↔ ∀ key, (key, ns) ∉ view.statesOf acc := by
  have hiff := h.hookStateDir_ne_none_iff acc ns
  rw [← not_iff_not, ← ne_eq, hiff]
  simp [View.statesOf]

/-- There is room for a new state: a page, and a number for the owner count. -/
def HasRoom (view : View) (acc : AccountID) (ns : UInt256) : Prop :=
  (view.hookStateDir acc ns).lastPage + 1
      < Directory.pageLimit (!view.rules.enabled .fixPageCap) ∧
    ∀ sleAccount, view.account acc = some sleAccount → sleAccount.ownerCount + 1 < 0x100000000

/-- **Setting a state** is accounted for, unless it deletes the account's last one. -/
theorem Accounted.setsState (h : Accounted view) (hacc : view.account acc = some sleAccount)
    (hsets : SetsState view acc sleAccount ns key data view')
    (hlast : data = [] → view.hookState acc key ns ≠ none → 1 < sleAccount.stateCount)
    (hroom : data ≠ [] → view.hookState acc key ns = none → HasRoom view acc ns) :
    Accounted view' ∧ OwnersFollow view view' := by
  have hfil := h.toFiled.setsState hacc hsets
  have haccs := h.accounts hacc
  have hexi := hsets.hookState_ne_none
  have hsta : ∀ acc', acc' ≠ acc → view'.statesOf acc' = view.statesOf acc' := by
    intro acc' hne
    ext ⟨key', ns'⟩
    show view'.hookState acc' key' ns' ≠ none ↔ _
    rw [hexi, if_neg (by simp [hne])]
    rfl
  have hset : view'.statesOf acc = if data = [] then view.statesOf acc \ {(key, ns)}
      else insert (key, ns) (view.statesOf acc) := by
    ext ⟨key', ns'⟩
    show view'.hookState acc key' ns' ≠ none ↔ _
    rw [hexi]
    by_cases heq : (key', ns') = (key, ns)
    · cases heq
      by_cases hdata : data = [] <;> simp [hdata]
    · rw [if_neg (fun hall => heq (by cases hall; rfl))]
      by_cases hdata : data = [] <;> simp [hdata, heq, View.statesOf]
  cases hsets with
  | absent => exact ⟨h, .refl⟩
  | @erased hookState dir sleAccount' hdata hst hrem hlin _ hdro =>
    have hsome : view.hookState acc key ns ≠ none := by
      rw [hst]
      exact nofun
    rw [if_pos hdata] at hset
    have hgone : dir 0 = none ↔ ∀ key', (key', ns) ∉ view.statesOf acc \ {(key, ns)} := by
      rw [← hset, ← hfil.hookStateDir_eq_none_iff]
      show _ ↔ (if (acc, ns) = (acc, ns) then dir else _) 0 = none
      rw [if_pos rfl]
    obtain ⟨haccs', hown⟩ := hdro.accounts haccs hsome (hlast hdata hsome) hgone
    rw [← hset] at haccs' hown
    exact h.of_account hfil (fun acc' hne => ⟨update_of_ne hne .., hsta acc' hne⟩)
      hacc (update_self ..) haccs' hown
  | @created page dir sleAccount' hdata hst hadd hlin _ hadds =>
    rw [if_neg hdata] at hset
    obtain ⟨haccs', hown⟩ := hadds.accounts haccs (not_not.mpr hst)
      ((hroom hdata hst).2 sleAccount hacc) h.toFiled.hookStateDir_eq_none_iff
    rw [← hset] at haccs' hown
    exact h.of_account hfil (fun acc' hne => ⟨update_of_ne hne .., hsta acc' hne⟩)
      hacc (update_self ..) haccs' hown
  | @replaced hookState hdata hst =>
    have hmem : (key, ns) ∈ view.statesOf acc := by
      show view.hookState acc key ns ≠ none
      rw [hst]
      exact nofun
    rw [if_neg hdata, Set.insert_eq_of_mem hmem] at hset
    refine h.of_account hfil (fun acc' hne => ⟨rfl, hsta acc' hne⟩) hacc hacc ?_ ?_
    · rw [hset]
      exact haccs
    · rw [hset, sub_self, sub_self]

/-- `setHookState` on a consistent ledger with a page for a new state fails for want of an account,
space or a reserve, or sets it. -/
theorem Filed.setHookState_cases (h : Filed view) (acc : AccountID) (ns key : UInt256) (data : Blob)
    (hroom : data ≠ [] → view.hookState acc key ns = none →
      (view.hookStateDir acc ns).lastPage + 1
        < Directory.pageLimit (!view.rules.enabled .fixPageCap)) :
    ∃ result view', setHookState view acc ns key data = .ok (result, view') ∧
      (view' = view ∨ ∃ sleAccount, view.account acc = some sleAccount ∧
        SetsState view acc sleAccount ns key data view') := by
  cases hacc : view.account acc with
  | none =>
    refine ⟨.tefINTERNAL, view, ?_, .inl rfl⟩
    unfold setHookState
    rw [hacc]
  | some sleAccount =>
    by_cases hsize : data.length ≤ maxHookStateDataSize
    · by_cases hres : data ≠ [] → view.hookState acc key ns = none →
          sleAccount.stateCount < (sleAccount.stateCount + 1) % 0x100000000 →
          view.fees.accountReserve ((sleAccount.ownerCount + 1) % 0x100000000)
            ≤ sleAccount.balance
      · obtain ⟨view₁, heq, hsets⟩ := h.setHookState_eq ns key hacc hsize hres hroom
        exact ⟨.tesSUCCESS, view₁, heq, .inr ⟨sleAccount, rfl, hsets⟩⟩
      · -- the reserve is missing
        simp only [Classical.not_imp] at hres
        obtain ⟨hdata, hst, hgro, hpoor⟩ := hres
        refine ⟨.tecINSUFFICIENT_RESERVE, view, ?_, .inl rfl⟩
        unfold setHookState
        rw [hacc]
        dsimp only
        rw [if_neg (Nat.not_lt.mpr hsize), if_neg hdata, hst]
        unfold createHookState
        rw [if_pos ⟨decide_eq_true hgro, Int.not_le.mp hpoor⟩]
    · refine ⟨.temHOOK_DATA_TOO_LARGE, view, ?_, .inl rfl⟩
      unfold setHookState
      rw [hacc]
      dsimp only
      rw [if_pos (Nat.not_le.mp hsize)]

theorem Accounted.destroyMarked (h : Accounted view)
    (hfix : view.rules.enabled .fixNSDelete = true) (hacc : view.account acc = some sleAccount)
    (hnd : toDelete.Nodup) (hmem : ∀ key ∈ toDelete, view.hookState acc key ns ≠ none)
    (hrest : partialDelete = true ↔ ∃ key, view.hookState acc key ns ≠ none ∧ key ∉ toDelete) :
    ∃ result view', destroyMarked view acc sleAccount ns toDelete partialDelete
        = .ok (result, view') ∧
      Accounted view' ∧ OwnersFollow view view' ∧ view'.rules = view.rules := by
  obtain ⟨view₁, hdel, hfil, hacco, hrul, hst⟩ := h.toFiled.deleteEntries_eq hnd hmem
  have hset : view₁.statesOf acc = view.statesOf acc \ { p | p.1 ∈ toDelete ∧ p.2 = ns } := by
    ext ⟨key', ns'⟩
    show view₁.hookState acc key' ns' ≠ none ↔ view.hookState acc key' ns' ≠ none ∧
      ¬ (key' ∈ toDelete ∧ ns' = ns)
    rw [hst]
    by_cases hgone : key' ∈ toDelete ∧ ns' = ns
    · rw [if_pos ⟨rfl, hgone.2, hgone.1⟩]
      exact iff_of_false (not_not.mpr rfl) (fun hboth => hboth.2 hgone)
    · rw [if_neg (fun hall => hgone ⟨hall.2.2, hall.2.1⟩)]
      exact (and_iff_left hgone).symm
  have hrest' : partialDelete = true ↔
      ∃ key, (key, ns) ∈ view.statesOf acc \ { p | p.1 ∈ toDelete ∧ p.2 = ns } := by
    rw [hrest]
    simp [View.statesOf]
  obtain ⟨sleAccount', hroot, haccs, hown⟩ := accounts_destroyedAccount view₁
    (h.accounts hacc) (by rw [hrul, hfix]) hnd hmem hrest'
  rw [← hset] at haccs hown
  refine ⟨if partialDelete then .tesPARTIAL else .tesSUCCESS, view₁.setAccount acc sleAccount', ?_,
    ?_⟩
  · unfold Hook.destroyMarked
    rw [hdel, ok_bind]
    dsimp only
    rw [if_neg Bool.false_ne_true.symm, hroot]
  have hboth := h.of_account hfil.setAccount (fun acc' hacc' => ⟨?_, ?_⟩) hacc
    (update_self ..) haccs hown
  · exact ⟨hboth.1, hboth.2, hrul⟩
  · show update view₁.account acc _ acc' = _
    rw [update_of_ne hacc', hacco]
  · ext ⟨key', ns'⟩
    show view₁.hookState acc' key' ns' ≠ none ↔ _
    rw [hst, if_neg (fun hall => hacc' hall.1)]
    rfl

theorem Accounted.destroyEmpty (h : Accounted view) (hacc : view.account acc = some sleAccount)
    (hroot : view.hookStateDir acc ns 0 = none) :
    Accounted ((view.setHookStateDir acc ns ((view.hookStateDir acc ns).erase 0)).setAccount acc
        (removeHookNamespaceEntry sleAccount ns)) ∧
      OwnersFollow view ((view.setHookStateDir acc ns
        ((view.hookStateDir acc ns).erase 0)).setAccount acc
          (removeHookNamespaceEntry sleAccount ns)) := by
  have haccs := h.accounts hacc
  have hn := h.toFiled.hookStateDir_eq_none_iff.mp hroot
  rw [View.setHookStateDir_erase hroot]
  refine h.of_account h.toFiled.setAccount
    (fun acc' hne => ⟨update_of_ne hne .., rfl⟩) hacc (update_self ..) ?_ ?_
  · rw [removeHookNamespaceEntry_eq]
    refine ⟨haccs.stateCount, haccs.absent_iff,
      nodup_removeHookNamespaceEntry haccs.nodup, ?_, haccs.ncard_le,
      haccs.ownerCount_lt⟩
    intro ns'
    rw [mem_removeHookNamespaceEntry, haccs.mem_namespaces]
    -- the namespace has no states, so it was not in the list
    refine and_iff_left_of_imp ?_
    rintro ⟨key, hkey⟩ rfl
    exact hn key hkey
  · rw [removeHookNamespaceEntry_eq]
    show (sleAccount.ownerCount : ℤ) - _ = (view.statesOf acc).ncard - _
    rw [sub_self, sub_self]

/-- **Destroying a namespace** is accounted for, in one call or several, and only fails to end on
too few pages. -/
theorem Accounted.destroyNamespace_cases (h : Accounted view) (acc : AccountID) (ns : UInt256)
    (hfix : view.rules.enabled .fixNSDelete = true) (pages : Nat) :
    (pages ≤ (view.hookStateDir acc ns).lastPage ∧
      ∃ message, destroyNamespace pages view acc ns = .error message) ∨
    ∃ result view', destroyNamespace pages view acc ns = .ok (result, view') ∧
      Accounted view' ∧ OwnersFollow view view' ∧ view'.rules = view.rules := by
  have hlin := h.linked acc ns
  unfold destroyNamespace
  cases hacc : view.account acc with
  | none => exact .inr ⟨_, view, rfl, h, .refl, rfl⟩
  | some sleAccount =>
    dsimp only
    cases hroot : view.hookStateDir acc ns 0 with
    | none =>
      rw [if_pos (hlin.dirIsEmpty_iff.mpr hroot)]
      obtain ⟨hacco, hown⟩ := h.destroyEmpty hacc hroot
      exact .inr ⟨_, _, rfl, hacco, hown, rfl⟩
    | some root =>
      have hnotEmpty : ¬ (view.hookStateDir acc ns).dirIsEmpty = true := by
        rw [hlin.dirIsEmpty_iff, hroot]
        exact nofun
      rw [if_neg hnotEmpty]
      dsimp only
      cases hmark : markPages view acc ns (view.rules.enabled .fixNSDelete) pages root [] with
      | none =>
        refine .inl ⟨?_, _, rfl⟩
        by_contra hpag
        exact markPages_ne_none h.toFiled hroot (by omega) hmark
      | some marking =>
        right
        have hsou := sound_of_markPages h.toFiled hroot
          ⟨nodup_nil, fun key => by simp⟩ hmark
        have hst : ∀ {key}, view.hookState acc key ns ≠ none ↔
            ∃ page, (view.hookStateDir acc ns).Holds page key := by
          intro key
          rw [ne_none_iff_exists']
          simp [h.holds_iff]
        cases marking with
        | missing => exact absurd hsou id
        | stopped toDelete =>
          obtain ⟨hnd, hmem, page, key, hkey, hh⟩ := hsou
          exact h.destroyMarked hfix hacc hnd (fun key hkey => hst.mpr (hmem key hkey))
            (iff_of_true rfl ⟨key, hst.mpr ⟨page, hh⟩, hkey⟩)
        | all toDelete =>
          obtain ⟨hnd, hmem⟩ := hsou
          dsimp only
          -- a directory that exists holds a key
          obtain ⟨page, key, hh⟩ := hlin.exists_holds hroot
          rw [if_neg (ne_nil_of_mem ((hmem key).mpr ⟨page, hh⟩))]
          refine h.destroyMarked hfix hacc hnd (fun key hkey => hst.mpr ((hmem key).mp hkey))
            (iff_of_false Bool.false_ne_true ?_)
          rintro ⟨key, hsome, hkey⟩
          exact hkey ((hmem key).mpr (hst.mp hsome))

/-! ## Runs -/

/-- What changes the hook states of a ledger. -/
inductive StateEvent : Type where
  | set (acc : AccountID) (ns key : UInt256) (data : Blob)
  | destroy (acc : AccountID) (ns : UInt256)

/-- One call, whatever its result. -/
def StateEvent.Step (view : View) (e : StateEvent) (view' : View) : Prop :=
  match e with
  | .set acc ns key data => ∃ result, setHookState view acc ns key data = .ok (result, view')
  | .destroy acc ns => ∃ pages result, destroyNamespace pages view acc ns = .ok (result, view')

/-- The call does not delete the last state of an account, and there is room for a new one. -/
def StateEvent.Fits (view : View) : StateEvent → Prop
  | .set acc ns key data =>
    (data = [] → view.hookState acc key ns ≠ none →
      ∀ sleAccount, view.account acc = some sleAccount → 1 < sleAccount.stateCount) ∧
    (data ≠ [] → view.hookState acc key ns = none → HasRoom view acc ns)
  | .destroy _ _ => True

theorem rules_setHookState {result : Ter}
    (h : setHookState view acc ns key data = .ok (result, view')) : view'.rules = view.rules := by
  obtain ⟨account, hookStateDir, -, ⟨-, hookState, -, rfl⟩ | ⟨-, rfl⟩⟩ := stores_setHookState h
  · rfl
  · rfl

/-- **A step that fits is accounted for.** -/
theorem Accounted.step {e : StateEvent} (h : Accounted view)
    (hfix : view.rules.enabled .fixNSDelete = true) (hstep : e.Step view view')
    (hfits : e.Fits view) :
    Accounted view' ∧ OwnersFollow view view' ∧ view'.rules = view.rules := by
  cases e with
  | set acc ns key data =>
    obtain ⟨result, hset⟩ := hstep
    obtain ⟨hlast, hroom⟩ := hfits
    have hrul := rules_setHookState hset
    obtain ⟨result', view₁, heq, hcas⟩ := h.toFiled.setHookState_cases acc ns key data
      fun hdata hst => (hroom hdata hst).1
    rw [heq] at hset
    cases hset
    rcases hcas with rfl | ⟨sleAccount, hacc, hsets⟩
    · exact ⟨h, .refl, rfl⟩
    obtain ⟨hacco, hown⟩ := h.setsState hacc hsets
      (fun hdata hst => hlast hdata hst sleAccount hacc) hroom
    exact ⟨hacco, hown, hrul⟩
  | destroy acc ns =>
    obtain ⟨pages, result, hdes⟩ := hstep
    rcases h.destroyNamespace_cases acc ns hfix pages with
      ⟨-, message, herr⟩ | ⟨result', view₁, heq, hboth⟩
    · rw [herr] at hdes
      cases hdes
    rw [heq] at hdes
    cases hdes
    exact hboth

/-- **Hook states are accounted for** in every run whose steps fit: counts, namespaces and
directories agree with the states, each is on one page, and the owner counts change with their
number. -/
theorem accounted_of_run {es : List StateEvent} (hfix : view.rules.enabled .fixNSDelete = true)
    (hstart : Accounted view)
    (hrun : Run (fun view e view' => StateEvent.Step view e view' ∧ e.Fits view) view es view') :
    (∀ acc sleAccount, view'.account acc = some sleAccount →
      sleAccount.stateCount = (view'.statesOf acc).ncard ∧
      (sleAccount.hookStateCount = none ↔ view'.statesOf acc = ∅) ∧
      sleAccount.hookNamespaces.Nodup ∧
      ∀ ns, ns ∈ sleAccount.hookNamespaces ↔ (view'.hookStateDir acc ns).dirIsEmpty = false) ∧
    OwnersFollow view view' ∧
    ∀ acc key ns, view'.hookState acc key ns ≠ none →
      ∃! page, (view'.hookStateDir acc ns).Holds page key := by
  have hinv : Accounted view' ∧ OwnersFollow view view' ∧ view'.rules = view.rules := by
    apply hrun.invariant
      (fun _ view' => Accounted view' ∧ OwnersFollow view view' ∧ view'.rules = view.rules)
    · exact ⟨hstart, .refl, rfl⟩
    rintro es view₁ e view₂ ⟨haccounted, howners, hrules⟩ ⟨hstep, hfits⟩
    obtain ⟨haccounted', howners', hrules'⟩ :=
      haccounted.step (by rw [hrules, hfix]) hstep hfits
    exact ⟨haccounted', howners.trans howners', hrules'.trans hrules⟩
  obtain ⟨haccounted, howners, -⟩ := hinv
  refine ⟨?_, howners, ?_⟩
  · intro acc sleAccount hacc
    have haccounts := haccounted.accounts hacc
    refine ⟨haccounts.stateCount, ?_, haccounts.nodup, ?_⟩
    · rw [haccounts.absent_iff, Set.ncard_eq_zero]
    intro ns
    rw [haccounts.mem_namespaces, ← Bool.not_eq_true, (haccounted.linked acc ns).dirIsEmpty_iff,
      haccounted.toFiled.hookStateDir_eq_none_iff]
    push Not
    rfl
  · intro acc key ns hsome
    obtain ⟨hookState, hstate⟩ := ne_none_iff_exists'.mp hsome
    refine ⟨hookState.ownerNode, haccounted.toFiled.holds hstate, ?_⟩
    intro page hholds
    exact (haccounted.linked acc ns).once hholds (haccounted.toFiled.holds hstate)

theorem accounted_emptyView (registry : HookRegistry) : Accounted (emptyView registry) := by
  refine ⟨filed_of_empty (fun _ _ => rfl) (fun _ _ _ => rfl), ?_⟩
  intro acc sleAccount hacc
  cases hacc
  have hsta : (emptyView registry).statesOf acc = ∅ := by
    ext p
    simp [View.statesOf, emptyView]
  rw [hsta]
  exact ⟨by simp [stateCount], by simp, nodup_nil, by simp, by simp, by simp⟩

/-- The first state of an account is put on one page. -/
theorem firstState_accounted :
    ∃ view', setHookState (emptyView noHooks) owner (.ofByte 3) (.ofByte 7) [1]
        = .ok (.tesSUCCESS, view') ∧
      ∀ acc key ns, view'.hookState acc key ns ≠ none →
        ∃! page, (view'.hookStateDir acc ns).Holds page key := by
  have hstep : (StateEvent.set owner (.ofByte 3) (.ofByte 7) [1]).Step (emptyView noHooks) _ :=
    ⟨_, rfl⟩
  refine ⟨_, rfl, (accounted_of_run rfl (accounted_emptyView noHooks)
    (Run.single ⟨hstep, ?_, ?_⟩)).2.2⟩
  · exact fun hdata => absurd hdata (cons_ne_nil 1 [])
  rintro - -
  refine ⟨by decide, ?_⟩
  rintro sleAccount hacc
  cases hacc
  decide

/-- **The count stays when the last state goes**: it is present, and zero. -/
theorem hookStateCount_present_at_zero :
    ∃ view₁ view₂ sleAccount, Accounted (emptyView noHooks) ∧
      setHookState (emptyView noHooks) owner (.ofByte 3) (.ofByte 7) [1]
        = .ok (.tesSUCCESS, view₁) ∧
      setHookState view₁ owner (.ofByte 3) (.ofByte 7) [] = .ok (.tesSUCCESS, view₂) ∧
      view₂.account owner = some sleAccount ∧ view₂.statesOf owner = ∅ ∧
      sleAccount.hookStateCount = some 0 := by
  refine ⟨_, _, _, accounted_emptyView noHooks, rfl, rfl, rfl, ?_, by decide +kernel⟩
  rw [Set.eq_empty_iff_forall_notMem]
  rintro ⟨key, ns⟩ hsome
  apply hsome
  -- the entry that was set first is the one that was deleted
  show (if (owner, key, ns) = _ then none else if (owner, key, ns) = _ then _ else none) = none
  split <;> rfl

end

end Xahau.Hook
