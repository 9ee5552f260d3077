import Xahau.Hook.Filed

/-! # When the states can be written

`finalizeHookState` writes the modified entries one by one and stops at the first that fails. On a
consistent ledger none fails if every account can pay for the new states, there are pages for them,
and the entries are not too many. -/

namespace Xahau.Hook

open Checked Function List

def SetRequest.entry (r : SetRequest) : AccountID × UInt256 × UInt256 := (r.acc, r.ns, r.key)

/-- How many of the entries are new states of an account. -/
def newStates (view : View) (acc : AccountID) (entries : List SetRequest) : Nat :=
  entries.countP fun e => decide
    (e.acc = acc ∧ e.data ≠ [] ∧ view.hookState e.acc e.key e.ns = none)

/-- The account can pay the reserve for new states. -/
def Affords (view : View) (acc : AccountID) (new : Nat) : Prop :=
  new = 0 ∨ ∃ sleAccount, view.account acc = some sleAccount ∧
    view.fees.accountReserve (sleAccount.ownerCount + new) ≤ sleAccount.balance

section

variable {view view' : View} {acc acc' : AccountID} {sleAccount sleAccount' : AccountRoot}
  {ns ns' key : UInt256} {data : Blob}

theorem accountReserve_le {fees : Fees} (h : 0 ≤ fees.increment) {m n : Nat} (hmn : m ≤ n) :
    fees.accountReserve m ≤ fees.accountReserve n := by
  unfold Fees.accountReserve
  have : (m : Int) * fees.increment ≤ n * fees.increment :=
    Int.mul_le_mul_of_nonneg_right (Int.ofNat_le.mpr hmn) h
  omega

variable {entries : List SetRequest} {current : Nat}

/-- **Setting a state leaves the account roots** their balances, and the owner counts up to one for
a new state. -/
theorem SetsState.account (hacc : view.account acc = some sleAccount)
    (h : SetsState view acc sleAccount ns key data view') :
    (∀ acc', acc' ≠ acc → view'.account acc' = view.account acc') ∧
    ∃ sleAccount', view'.account acc = some sleAccount' ∧ sleAccount'.balance = sleAccount.balance ∧
      sleAccount'.ownerCount ≤ sleAccount.ownerCount
        + if data ≠ [] ∧ view.hookState acc key ns = none then 1 else 0 := by
  cases h with
  | absent | replaced => exact ⟨fun _ _ => rfl, sleAccount, hacc, rfl, Nat.le_add_right ..⟩
  | @erased _ _ sleAccount' hdata hst _ _ _ hdro =>
    refine ⟨fun _ hne => update_of_ne hne .., sleAccount', update_self .., hdro.balance, ?_⟩
    rw [if_neg (fun hnew => hnew.1 hdata), hdro.ownerCount]
    split
    · unfold confineOwnerCount
      omega
    · exact le_rfl
  | @created _ _ sleAccount' hdata hst _ _ _ hadds =>
    refine ⟨fun _ hne => update_of_ne hne .., sleAccount', update_self .., hadds.balance, ?_⟩
    rw [if_pos ⟨hdata, hst⟩, hadds.ownerCount]
    split
    · unfold confineOwnerCount
      omega
    · exact Nat.le_succ _

section

variable (h : SetsState view acc sleAccount ns key data view')

include h

theorem SetsState.lastPage_le (acc' : AccountID) (ns' : UInt256) :
    (view'.hookStateDir acc' ns').lastPage ≤ (view.hookStateDir acc' ns').lastPage + 1 := by
  cases h with
  | absent | replaced => exact Nat.le_succ _
  | @erased _ dir _ _ _ _ _ hlast =>
    show (if (acc', ns') = (acc, ns) then dir else _).lastPage ≤ _
    split
    next heq =>
      cases heq
      exact hlast.trans (Nat.le_succ _)
    · exact Nat.le_succ _
  | @created _ dir _ _ _ _ _ hlast =>
    show (if (acc', ns') = (acc, ns) then dir else _).lastPage ≤ _
    split
    next heq =>
      cases heq
      exact hlast
    · exact Nat.le_succ _

theorem SetsState.rules_fees : view'.rules = view.rules ∧ view'.fees = view.fees := by
  cases h <;> exact ⟨rfl, rfl⟩

theorem SetsState.newStates
    {entries : List SetRequest} (hnot : (acc, ns, key) ∉ entries.map SetRequest.entry) :
    newStates view' acc' entries = newStates view acc' entries := by
  apply countP_congr
  intro e he
  have hne : (e.acc, e.key, e.ns) ≠ (acc, key, ns) := by
    intro heq
    refine hnot (mem_map.mpr ⟨e, he, ?_⟩)
    cases heq
    rfl
  have hiff := h.hookState_ne_none e.acc e.key e.ns
  rw [if_neg hne] at hiff
  rw [decide_eq_true_iff, decide_eq_true_iff, not_iff_not.mp hiff]

end

theorem newStates_cons (e : SetRequest) (entries : List SetRequest) :
    newStates view acc (e :: entries) = newStates view acc entries
      + if e.acc = acc ∧ e.data ≠ [] ∧ view.hookState e.acc e.key e.ns = none then 1 else 0 := by
  unfold newStates
  rw [countP_cons]
  congr 1
  exact if_congr decide_eq_true_iff rfl rfl

theorem Affords.of_setsState {e : SetRequest}
    (hinc : 0 ≤ view.fees.increment) (hacc : view.account e.acc = some sleAccount)
    (hsets : SetsState view e.acc sleAccount e.ns e.key e.data view')
    (hnot : e.entry ∉ entries.map SetRequest.entry)
    (h : Affords view acc (newStates view acc (e :: entries))) :
    Affords view' acc (newStates view' acc entries) := by
  obtain ⟨hoth, sleAccount', hacc', hbal, hown⟩ := hsets.account hacc
  rw [hsets.newStates hnot]
  rw [newStates_cons] at h
  by_cases hzero : newStates view acc entries = 0
  · exact .inl hzero
  rcases h with h | ⟨sleAccount₀, hacc₀, hres⟩
  · omega
  right
  rw [hsets.rules_fees.2]
  by_cases heq : acc = e.acc
  · subst heq
    rw [hacc] at hacc₀
    cases hacc₀
    refine ⟨sleAccount', hacc', ?_⟩
    rw [hbal]
    refine (accountReserve_le hinc ?_).trans hres
    simp only [true_and]
    omega
  · rw [if_neg (fun hnew => heq hnew.1.symm)] at hres
    exact ⟨sleAccount₀, (hoth acc heq).trans hacc₀, hres⟩

/-- **Writing distinct entries to a consistent ledger succeeds** if the accounts exist and can pay,
there are pages, and the entries are not too many. -/
theorem writeEntries_eq_ok {changeCount : Nat} (hfil : Filed view) (hinc : 0 ≤ view.fees.increment)
    (hcount : changeCount + entries.length ≤ maxStateModifications)
    (hnd : (entries.map SetRequest.entry).Nodup)
    (hsize : ∀ e ∈ entries, e.data.length ≤ maxHookStateDataSize)
    (hexi : ∀ e ∈ entries, view.account e.acc ≠ none)
    (haff : ∀ acc, Affords view acc (newStates view acc entries))
    (hroom : ∀ acc ns, (view.hookStateDir acc ns).lastPage + entries.length
      < Directory.pageLimit (!view.rules.enabled .fixPageCap)) :
    ∃ view', writeEntries entries changeCount view = .ok (.tesSUCCESS, view', entries) ∧
      Filed view' := by
  induction entries generalizing view changeCount with
  | nil => exact ⟨view, rfl, hfil⟩
  | cons e entries ih =>
    rw [map_cons, nodup_cons] at hnd
    rw [length_cons] at hcount
    obtain ⟨sleAccount, hacc⟩ := Option.ne_none_iff_exists'.mp (hexi e mem_cons_self)
    -- the entry itself
    obtain ⟨view₁, hset, hsets⟩ := hfil.setHookState_eq e.ns e.key hacc
      (hsize e mem_cons_self) (by
        intro hdata hst _
        have haffo := haff e.acc
        rw [newStates_cons, if_pos ⟨rfl, hdata, hst⟩] at haffo
        rcases haffo with hzero | ⟨sleAccount₀, hacc₀, hres⟩
        · omega
        · rw [hacc] at hacc₀
          cases hacc₀
          refine (accountReserve_le hinc ?_).trans hres
          exact (Nat.mod_le ..).trans (by omega)) (by
        intro _ _
        refine lt_of_le_of_lt ?_ (hroom e.acc e.ns)
        simp)
    obtain ⟨hrul, hfees⟩ := hsets.rules_fees
    obtain ⟨hoth, sleAccount', hacc', -, -⟩ := hsets.account hacc
    have hkept : ∀ acc, view.account acc ≠ none → view₁.account acc ≠ none := by
      intro acc hsome
      by_cases heq : acc = e.acc
      · subst heq
        rw [hacc']
        exact nofun
      · rw [hoth acc heq]
        exact hsome
    -- and the entries after it
    have hmod : (changeCount + 1) % 0x10000 = changeCount + 1 :=
      Nat.mod_eq_of_lt (by unfold maxStateModifications at hcount; omega)
    obtain ⟨view₂, hwri, hfil₂⟩ := ih (hfil.setsState hacc hsets)
      (hfees ▸ hinc)
      (show changeCount + 1 + entries.length ≤ maxStateModifications by omega) hnd.2
      (fun e' he' => hsize e' (mem_cons_of_mem _ he'))
      (fun e' he' => hkept e'.acc (hexi e' (mem_cons_of_mem _ he')))
      (fun acc => (haff acc).of_setsState hinc hacc hsets hnd.1) (by
        intro acc ns
        rw [hrul]
        refine lt_of_le_of_lt ?_ (hroom acc ns)
        have := hsets.lastPage_le acc ns
        rw [length_cons]
        omega)
    refine ⟨view₂, ?_, hfil₂⟩
    unfold writeEntries
    rw [hmod, if_neg (by omega), hset, ok_bind]
    dsimp only
    rw [if_neg (by decide), hwri, ok_bind]

end

/-! ## The entries of a cache -/

theorem nodup_sortedEntries {n : Nat} {β : Type} (m : AList fun _ : BaseUInt n => β) :
    ((sortedEntries m).map Sigma.fst).Nodup := by
  exact ((mergeSort_perm _ _).map Sigma.fst).nodup_iff.mpr m.nodupKeys

/-- Lists that differ in a label have distinct elements together if each has. -/
theorem nodup_flatMap_of_label {α β κ : Type*} {l : List α} {f : α → List β} (label : α → κ)
    (labelOf : β → κ) (hl : (l.map label).Nodup) (hf : ∀ a ∈ l, (f a).Nodup)
    (hlabel : ∀ a ∈ l, ∀ b ∈ f a, labelOf b = label a) : (l.flatMap f).Nodup := by
  rw [nodup_flatMap]
  refine ⟨hf, (pairwise_map.mp hl).imp_of_mem ?_⟩
  intro a a' ha ha' hne b hb hb'
  exact hne ((hlabel a ha b hb).symm.trans (hlabel a' ha' b hb'))

theorem HookStateMap.nodup_modifiedEntries (stateMap : HookStateMap) :
    (stateMap.modifiedEntries.map SetRequest.entry).Nodup := by
  unfold modifiedEntries
  rw [map_flatMap]
  apply nodup_flatMap_of_label Sigma.fst Prod.fst
    (nodup_sortedEntries stateMap.accounts)
  · intro accEntry _
    rw [map_flatMap]
    apply nodup_flatMap_of_label Sigma.fst (fun p => p.2.1)
      (nodup_sortedEntries accEntry.2.namespaces)
    · intro nsEntry _
      rw [map_filterMap, filterMap_eq_flatMap_toList]
      apply nodup_flatMap_of_label Sigma.fst (fun p => p.2.2)
        (nodup_sortedEntries nsEntry.2)
      · intro cacheEntry _
        split
        · exact nodup_singleton _
        · exact nodup_nil
      intro cacheEntry _ p hp
      split at hp
      · rw [mem_singleton.mp hp]
        rfl
      · exact nomatch hp
    · intro nsEntry _ p hp
      obtain ⟨r, hr, rfl⟩ := mem_map.mp hp
      obtain ⟨cacheEntry, -, hr⟩ := mem_filterMap.mp hr
      split at hr
      · cases hr
        rfl
      · cases hr
  · intro accEntry _ p hp
    obtain ⟨r, hr, rfl⟩ := mem_map.mp hp
    obtain ⟨nsEntry, -, hr⟩ := mem_flatMap.mp hr
    obtain ⟨cacheEntry, -, hr⟩ := mem_filterMap.mp hr
    split at hr
    · cases hr
      rfl
    · cases hr

end Xahau.Hook
