import Xahau.Data.Cardinality
import Xahau.Hook.Chain
import Xahau.Hook.Commit

/-! # The state cache and the ledger

Hooks that share a cache set states without changing the ledger. The cache counts what the accounts
can still afford, so that the entries can be written at the end, as long as no account pays a fee
after its reserve was looked at. -/

namespace Xahau.Hook

open Cardinality Checked List

namespace HookStateMap

/-- The entries that are marked as modified. -/
def modifiedKeys (stateMap : HookStateMap) : Set (AccountID × UInt256 × UInt256) :=
  { p | stateMap.isModified p.1 p.2.1 p.2.2 = true }

/-- The modified entries of an account that the ledger does not have. -/
def newKeys (stateMap : HookStateMap) (view : View) (acc : AccountID) : Set (UInt256 × UInt256) :=
  { p | stateMap.isModified acc p.1 p.2 = true ∧ view.hookState acc p.2 p.1 = none }

end HookStateMap

/-- The account can afford its new states: what is available and what was taken are no more than it
had. -/
def Covers (view : View) (stateMap : HookStateMap) (acc : AccountID) (available : Int) : Prop :=
  ∃ accSLE, view.account acc = some accSLE ∧
    available + (stateMap.newKeys view acc).ncard ≤ availableReserves view.fees accSLE ∧
    ((stateMap.newKeys view acc).ncard = 0 ∨ 0 ≤ available)

/-- The cache agrees with the ledger. -/
structure Cached (view : View) (stateMap : HookStateMap) : Prop where
  /-- What is not modified is as in the ledger. -/
  clean : ∀ {acc ns key data}, stateMap.lookupStateCache acc ns key = some ⟨false, data⟩ →
    view.stateData acc ns key = some data
  size : ∀ {acc ns key data}, stateMap.lookupStateCache acc ns key = some ⟨true, data⟩ →
    data.length ≤ maxHookStateDataSize
  covers : ∀ {acc cache}, stateMap.accounts.lookup acc = some cache →
    Covers view stateMap acc cache.availableForReserves
  count : stateMap.modifiedKeys.ncard ≤ stateMap.modifiedEntryCount
  few : stateMap.modifiedKeys.ncard ≤ maxStateModifications

section

variable {view : View} {acc acc' : AccountID} {ns key ns' key' : UInt256} {data : Blob}
  {modified : Bool} {ctx ctx' : HookContext} {stateMap : HookStateMap}

theorem cached_empty : Cached view .empty := by
  have hn : HookStateMap.empty.modifiedKeys = ∅ := by
    ext p
    exact iff_of_false Bool.false_ne_true (Set.notMem_empty p)
  constructor
  · intro acc ns key data hlk
    cases hlk
  · intro acc ns key data hlk
    cases hlk
  · intro acc cache hlk
    cases hlk
  · rw [hn, Set.ncard_empty]
    exact Nat.zero_le _
  · rw [hn, Set.ncard_empty]
    exact Nat.zero_le _

/-! ## Setting an entry of the cache -/

section

variable (h : setStateCache view acc ns key data modified ctx = .ok ctx')

include h

theorem modifiedKeys_setStateCache :
    ctx'.stateMap.modifiedKeys =
      if modified then insert (acc, ns, key) ctx.stateMap.modifiedKeys
      else ctx.stateMap.modifiedKeys := by
  ext ⟨acc', ns', key'⟩
  show ctx'.stateMap.isModified acc' ns' key' = true ↔ _
  rw [isModified_setStateCache h]
  cases modified with
  | true =>
    show _ ↔ (acc', ns', key') = (acc, ns, key) ∨ ctx.stateMap.isModified acc' ns' key' = true
    split <;> simp [*]
  | false =>
    show _ ↔ ctx.stateMap.isModified acc' ns' key' = true
    split
    next heq =>
      cases heq
      rw [Bool.or_false]
    · rfl

theorem newKeys_setStateCache (acc' : AccountID) :
    ctx'.stateMap.newKeys view acc' =
      if modified = true ∧ acc' = acc ∧ view.hookState acc key ns = none then
        insert (ns, key) (ctx.stateMap.newKeys view acc')
      else ctx.stateMap.newKeys view acc' := by
  ext ⟨ns', key'⟩
  show ctx'.stateMap.isModified acc' ns' key' = true ∧ view.hookState acc' key' ns' = none ↔ _
  rw [isModified_setStateCache h]
  by_cases hent : (acc', ns', key') = (acc, ns, key)
  · cases hent
    rw [if_pos rfl]
    split
    next hnew =>
      simp [hnew.1, hnew.2.2]
    rename_i hold
    refine and_congr_left fun hn => ?_
    have hfal : modified = false := by
      by_contra htrue
      exact hold ⟨by simpa using htrue, rfl, hn⟩
    rw [hfal, Bool.or_false]
  · rw [if_neg hent]
    split
    next hnew =>
      have hne : (ns', key') ≠ (ns, key) := by
        intro heq
        cases heq
        exact hent (by rw [hnew.2.1])
      simp [Set.mem_insert_iff, hne, HookStateMap.newKeys]
    · rfl

end

theorem Cached.mem_newKeys (h : Cached view stateMap)
    (hlk : stateMap.lookupStateCache acc ns key ≠ none)
    (hst : view.hookState acc key ns = none) : (ns, key) ∈ stateMap.newKeys view acc := by
  obtain ⟨⟨modified, data⟩, hlk⟩ := Option.ne_none_iff_exists'.mp hlk
  cases modified with
  | true =>
    refine ⟨?_, hst⟩
    unfold HookStateMap.isModified
    rw [hlk]
    rfl
  | false =>
    have hcle := h.clean hlk
    unfold View.stateData at hcle
    rw [hst] at hcle
    cases hcle

theorem newKeys_of_none (h : stateMap.accounts.lookup acc = none) : stateMap.newKeys view acc = ∅ := by
  ext ⟨ns, key⟩
  refine iff_of_false ?_ (Set.notMem_empty _)
  rintro ⟨hmod, -⟩
  unfold HookStateMap.isModified at hmod
  rw [HookStateMap.lookupStateCache_of_none h] at hmod
  cases hmod

theorem ncard_newKeys_setStateCache
    (h : setStateCache view acc ns key data modified ctx = .ok ctx') (acc' : AccountID) :
    (ctx'.stateMap.newKeys view acc').ncard
      ≤ (ctx.stateMap.newKeys view acc').ncard + if modified then 1 else 0 := by
  rw [newKeys_setStateCache h]
  split
  next hnew =>
    rw [if_pos hnew.1]
    exact Set.ncard_insert_le _ _
  · exact Nat.le_add_right ..

section

variable (h : Cached view ctx.stateMap)
  (hset : setStateCache view acc ns key data modified ctx = .ok ctx')

include h hset

theorem Cached.newKeys_of_seen (hseen : ctx.stateMap.lookupStateCache acc ns key ≠ none) :
    ctx'.stateMap.newKeys view acc = ctx.stateMap.newKeys view acc := by
  rw [newKeys_setStateCache hset]
  split
  next hnew =>
    exact Set.insert_eq_of_mem (h.mem_newKeys hseen hnew.2.2)
  · rfl

/-- **Setting an entry keeps the cache in agreement with the ledger.** -/
theorem Cached.setStateCache (hsize : modified = true → data.length ≤ maxHookStateDataSize)
    (hread : modified = false → ctx.stateMap.lookupStateCache acc ns key = none ∧
      view.stateData acc ns key = some data) : Cached view ctx'.stateMap := by
  have hmodi := modifiedKeys_setStateCache hset
  have hnewKeys := fun acc' => newKeys_setStateCache hset acc'
  obtain ⟨available, count, n, changed, hass, hcount, hmono, hres⟩ := setStateCache_cases hset
  have hmap : ctx'.stateMap = ctx.stateMap.assign acc available count ns key
      ⟨ctx.stateMap.isModified acc ns key || modified, data⟩ n := by
    rw [hass]
  -- the entry that was set, or one that was there before
  have hlk : ∀ {acc' ns' key' entry}, ctx'.stateMap.lookupStateCache acc' ns' key' = some entry →
      ((acc', ns', key') = (acc, ns, key) ∧
        entry = ⟨ctx.stateMap.isModified acc ns key || modified, data⟩) ∨
      ctx.stateMap.lookupStateCache acc' ns' key' = some entry := by
    intro acc' ns' key' entry hent
    rw [hmap] at hent
    by_cases heq : (acc', ns', key') = (acc, ns, key)
    · cases heq
      rw [HookStateMap.lookupStateCache_assign] at hent
      exact .inl ⟨rfl, (Option.some.inj hent).symm⟩
    · rw [HookStateMap.lookupStateCache_assign_of_ne _ heq] at hent
      exact .inr hent
  have hunm : modified = false → ctx.stateMap.isModified acc ns key = false := by
    intro hmod
    unfold HookStateMap.isModified
    rw [(hread hmod).1]
    rfl
  constructor
  · intro acc' ns' key' data' hent
    rcases hlk hent with ⟨heq, hs⟩ | hold
    · cases heq
      rw [CacheEntry.mk.injEq, eq_comm, Bool.or_eq_false_iff] at hs
      rw [hs.2]
      exact (hread hs.1.2).2
    · exact h.clean hold
  · intro acc' ns' key' data' hent
    rcases hlk hent with ⟨-, hs⟩ | hold
    · rw [CacheEntry.mk.injEq] at hs
      rw [hs.2]
      cases modified with
      | true => exact hsize rfl
      | false =>
        rw [hunm rfl] at hs
        cases hs.1
    · exact h.size hold
  · intro acc' cache hcac
    rw [hmap] at hcac
    by_cases hacc : acc' = acc
    · subst hacc
      cases (AList.lookup_insert _).symm.trans hcac
      dsimp only
      have hgro := ncard_newKeys_setStateCache hset acc'
      rcases hres with ⟨hn, accSLE, hroot, hava, hpays⟩ | ⟨cache, hsome, hres⟩
      · rw [newKeys_of_none hn, Set.ncard_empty] at hgro
        cases modified with
        | true =>
          rw [if_pos rfl] at hgro
          exact ⟨accSLE, hroot, by omega, .inr (hpays rfl)⟩
        | false =>
          have hzero := Nat.le_zero.mp hgro
          exact ⟨accSLE, hroot, by omega, .inl hzero⟩
      · obtain ⟨accSLE, hroot, hsum, hcov⟩ := h.covers hsome
        rcases hres with ⟨-, hava, hpays⟩ | ⟨hseen, hava⟩
        · cases modified with
          | true =>
            rw [if_pos rfl] at hgro hava
            exact ⟨accSLE, hroot, by omega, .inr (hpays rfl)⟩
          | false =>
            rw [if_neg Bool.false_ne_true] at hgro hava
            exact ⟨accSLE, hroot, by omega, by omega⟩
        · refine ⟨accSLE, hroot, ?_⟩
          rw [h.newKeys_of_seen hset hseen, hava]
          exact ⟨hsum, hcov⟩
    · replace hcac := (AList.lookup_insert_ne hacc).symm.trans hcac
      unfold Covers
      rw [hnewKeys, if_neg (fun hnew => hacc hnew.2.1)]
      exact h.covers hcac
  · have hentr : ctx'.stateMap.modifiedEntryCount = n := by
      rw [hmap]
      rfl
    rw [hmodi, hentr]
    split
    next hmod =>
      rw [(hcount hmod).2]
      exact (Set.ncard_insert_le _ _).trans (Nat.succ_le_succ h.count)
    · exact h.count.trans hmono
  · rw [hmodi]
    split
    next hmod =>
      have := (hcount hmod).1
      have := h.count
      refine (Set.ncard_insert_le _ _).trans ?_
      omega
    · exact h.few

end

variable {c : ApiCall} {request : SetRequest}

theorem ApiCall.size_of_request (h : c.request = some request) :
    request.data.length ≤ maxHookStateDataSize := by
  unfold ApiCall.request at h
  rw [Option.bind_eq_bind, Option.bind_eq_some_iff] at h
  obtain ⟨args, -, hread⟩ := h
  cases hargs : readSetArgs c.view c.memory c.hook args with
  | error e =>
    rw [hargs] at hread
    cases hread
  | ok request' =>
    rw [hargs] at hread
    cases hread
    exact (readSetArgs_eq_ok hargs).2

/-- **A call keeps the cache in agreement with the ledger.** -/
theorem Cached.call (h : Cached c.view ctx.stateMap) (hhook : c.hook = ctx.toHookId) :
    Cached c.view (c.run ctx).stateMap := by
  rcases c.run_cases ctx hhook with ⟨-, disabled, hrun⟩ | ⟨request, hreq, -, hcac, -⟩ |
    ⟨-, -, acc, ns, key, hookState, hmiss, hst, hcac⟩
  · rw [hrun]
    exact h
  · exact h.setStateCache hcac (fun _ => ApiCall.size_of_request hreq) (fun hread => by cases hread)
  refine h.setStateCache hcac (fun hmod => by cases hmod) (fun _ => ⟨hmiss, ?_⟩)
  unfold View.stateData
  rw [hst]
  rfl

theorem Cached.of_account (h : Cached view stateMap)
    {account : AccountID → Option AccountRoot} {drops : Int}
    (hs : ∀ acc, stateMap.accounts.lookup acc ≠ none → account acc = view.account acc) :
    Cached { view with account, drops } stateMap := by
  refine ⟨h.clean, h.size, ?_, h.count, h.few⟩
  intro acc cache hcac
  obtain ⟨accSLE, hroot, hcov⟩ := h.covers hcac
  refine ⟨accSLE, ?_, hcov⟩
  rw [← hroot]
  apply hs
  rw [hcac]
  exact nofun

/-! ## Writing the cache -/

theorem accountReserve_le_of_available {fees : Fees} {accSLE : AccountRoot} {new : Nat}
    (hinc : 0 ≤ fees.increment) (hnew : 0 < new) (h : (new : Int) ≤ availableReserves fees accSLE) :
    fees.accountReserve (accSLE.ownerCount + new) ≤ accSLE.balance := by
  unfold availableReserves at h
  dsimp only at h
  have hle : fees.increment ≤ if fees.increment ≤ 0 then 1 else fees.increment := by
    split <;> omega
  have hpos : 0 < if fees.increment ≤ 0 then 1 else fees.increment := by
    split <;> omega
  generalize (if fees.increment ≤ 0 then 1 else fees.increment) = increment at h hle hpos
  have hrest : 0 ≤ accSLE.balance - fees.accountReserve accSLE.ownerCount := by
    by_contra hneg
    have hquo := Int.tdiv_nonneg (a := -(accSLE.balance - fees.accountReserve accSLE.ownerCount))
      (by omega) hpos.le
    rw [Int.neg_tdiv] at hquo
    omega
  rw [Int.tdiv_eq_ediv_of_nonneg hrest, Int.le_ediv_iff_mul_le hpos] at h
  have hsca : (new : Int) * fees.increment ≤ new * increment :=
    Int.mul_le_mul_of_nonneg_left hle (by omega)
  have hspl : fees.accountReserve (accSLE.ownerCount + new)
      = fees.accountReserve accSLE.ownerCount + new * fees.increment := by
    unfold Fees.accountReserve
    rw [Nat.cast_add, Int.add_mul, Int.add_assoc]
  omega

theorem length_modifiedEntries_le (stateMap : HookStateMap) :
    stateMap.modifiedEntries.length ≤ stateMap.modifiedKeys.ncard := by
  rw [← length_map SetRequest.entry]
  apply length_le_ncard stateMap.nodup_modifiedEntries (Set.toFinite _)
  intro p hp
  obtain ⟨e, he, rfl⟩ := mem_map.mp hp
  show stateMap.isModified e.acc e.ns e.key = true
  unfold HookStateMap.isModified
  rw [HookStateMap.mem_modifiedEntries.mp he]
  rfl

theorem newStates_modifiedEntries_le (view : View) (acc : AccountID) (stateMap : HookStateMap) :
    newStates view acc stateMap.modifiedEntries ≤ (stateMap.newKeys view acc).ncard := by
  unfold newStates
  rw [countP_eq_length_filter]
  generalize hnew : stateMap.modifiedEntries.filter _ = new
  have hmem : ∀ e ∈ new, e ∈ stateMap.modifiedEntries ∧ e.acc = acc ∧
      view.hookState e.acc e.key e.ns = none := by
    intro e he
    rw [← hnew, mem_filter, decide_eq_true_iff] at he
    exact ⟨he.1, he.2.1, he.2.2.2⟩
  have hnd : (new.map fun e => (e.ns, e.key)).Nodup := by
    have hsub : (new.map SetRequest.entry).Nodup := by
      refine stateMap.nodup_modifiedEntries.sublist (List.Sublist.map _ ?_)
      rw [← hnew]
      exact filter_sublist
    rw [List.Nodup, pairwise_map] at hsub ⊢
    -- entries of one account that differ do so in namespace or key
    refine hsub.imp_of_mem fun {e e'} he he' hne heq => hne ?_
    show (e.acc, e.ns, e.key) = (e'.acc, e'.ns, e'.key)
    rw [(hmem e he).2.1, (hmem e' he').2.1]
    exact congrArg (Prod.mk acc) heq
  rw [← length_map fun e : SetRequest => (e.ns, e.key)]
  apply length_le_ncard hnd (Set.toFinite _)
  intro p hp
  obtain ⟨e, he, rfl⟩ := mem_map.mp hp
  obtain ⟨hmod, rfl, hst⟩ := hmem e he
  refine ⟨?_, hst⟩
  unfold HookStateMap.isModified
  rw [HookStateMap.mem_modifiedEntries.mp hmod]
  rfl

/-- There is a page for every new state of a transaction. -/
def Roomy (view : View) : Prop :=
  ∀ acc ns, (view.hookStateDir acc ns).lastPage + maxStateModifications
    < Directory.pageLimit (!view.rules.enabled .fixPageCap)

/-- **A cache that agrees with a consistent ledger can be written to it.** -/
theorem Cached.finalizeHookState_eq_ok (h : Cached view stateMap) (hfil : Filed view)
    (hinc : 0 ≤ view.fees.increment) (hroom : Roomy view) :
    ∃ view', finalizeHookState stateMap view = .ok (.tesSUCCESS, view', stateMap.modifiedEntries) ∧
      Filed view' := by
  have hlen : stateMap.modifiedEntries.length ≤ maxStateModifications :=
    (length_modifiedEntries_le stateMap).trans h.few
  apply writeEntries_eq_ok hfil hinc (by omega) stateMap.nodup_modifiedEntries
  · intro e he
    exact h.size (HookStateMap.mem_modifiedEntries.mp he)
  · intro e he
    have hlk := HookStateMap.mem_modifiedEntries.mp he
    cases hcac : stateMap.accounts.lookup e.acc with
    | none =>
      rw [HookStateMap.lookupStateCache_of_none hcac] at hlk
      cases hlk
    | some cache =>
      obtain ⟨accSLE, hroot, -⟩ := h.covers hcac
      rw [hroot]
      exact nofun
  · intro acc
    have hle := newStates_modifiedEntries_le view acc stateMap
    by_cases hzero : newStates view acc stateMap.modifiedEntries = 0
    · exact .inl hzero
    right
    cases hcac : stateMap.accounts.lookup acc with
    | none =>
      rw [newKeys_of_none hcac, Set.ncard_empty] at hle
      omega
    | some cache =>
      obtain ⟨accSLE, hroot, hsum, hcov⟩ := h.covers hcac
      exact ⟨accSLE, hroot, accountReserve_le_of_available hinc (by omega) (by omega)⟩
  · intro acc ns
    exact lt_of_le_of_lt (Nat.add_le_add_left hlen _) (hroom acc ns)

end

end Xahau.Hook
