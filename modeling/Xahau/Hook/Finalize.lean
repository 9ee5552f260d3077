import Xahau.Hook.StateApi

/-! # Writing states to the ledger (`applyHook.cpp`)

When all hooks of a transaction have run, `finalizeHookState` writes the modified entries of their
cache to the ledger. It does not ask how the hooks ended: that is for the caller to do. -/

namespace Xahau.Hook

open Checked Function List Option View

variable {sleAccount' : AccountRoot} {stateMap : HookStateMap} {entries written : List SetRequest}
  {changeCount : Nat}

/-! ## The view -/

/-- The view with an account root replaced. -/
def View.setAccount (view : View) (acc : AccountID) (sleAccount : AccountRoot) : View :=
  { view with account := Function.update view.account acc (some sleAccount) }

variable {acc : AccountID} {sleAccount : AccountRoot} {view : View}

section

variable (h : view.account acc = some sleAccount)

include h

theorem View.map_setAccount {β : Type*} {f : AccountRoot → β} (hf : f sleAccount' = f sleAccount) :
    (fun acc' => ((view.setAccount acc sleAccount').account acc').map f)
      = fun acc' => (view.account acc').map f := by
  funext acc'
  show (update view.account acc (some sleAccount') acc').map _ = (view.account acc').map _
  by_cases hacc : acc' = acc
  · subst hacc
    rw [update_self, h, map_some, map_some, hf]
  · rw [update_of_ne hacc]

theorem View.imports_setAccount (himp : sleAccount'.importSequence = sleAccount.importSequence) :
    (view.setAccount acc sleAccount').imports = view.imports := map_setAccount h himp

theorem View.kept_setAccount (hkept : sleAccount'.kept = sleAccount.kept) :
    keptOf (view.setAccount acc sleAccount').account = keptOf view.account :=
  map_setAccount h hkept

end

/-- The view with an account root changed, if it is there. -/
def View.modifyAccount (f : AccountRoot → AccountRoot) (view : View) (acc : AccountID) : View :=
  match view.account acc with
  | none => view
  | some sleAccount => view.setAccount acc (f sleAccount)

section

variable (view : View) (acc : AccountID) (sleAccount : AccountRoot) (ns key : UInt256)

/-- The view with a hook state replaced or erased. -/
def View.setHookStateEntry (ns : UInt256) (hookState : Option HookState) : View :=
  { view with hookState := fun acc' key' ns' =>
    if (acc', key', ns') = (acc, key, ns) then hookState else view.hookState acc' key' ns' }

/-- The view with the directory of a namespace replaced. -/
def View.setHookStateDir (dir : Directory) : View :=
  { view with hookStateDir := fun acc' ns' =>
    if (acc', ns') = (acc, ns) then dir else view.hookStateDir acc' ns' }

/-- `ApplyView::dirInsert` in the directory of a namespace. -/
def View.dirInsertState : Except String (Option (Nat × Directory)) :=
  (view.hookStateDir acc ns).dirAdd (!view.rules.enabled .fixPageCap) false key

/-! ## States -/

/-- `confineOwnerCount`: the count of a `uint32_t` stays at its bounds. -/
def confineOwnerCount (current : Nat) (adjustment : Int) : Nat :=
  (min (current + adjustment) 0xFFFFFFFF).toNat

/-- The number of hook states of an account, zero if the field is absent. -/
def AccountRoot.stateCount : Nat := sleAccount.hookStateCount.getD 0

/-- `computeHookStateOwnerCount`. -/
def computeHookStateOwnerCount (hookStateCount : Nat) : Nat := hookStateCount

/-- `addHookNamespaceEntry`. -/
def addHookNamespaceEntry : AccountRoot :=
  if ns ∈ sleAccount.hookNamespaces then sleAccount
  else { sleAccount with hookNamespaces := sleAccount.hookNamespaces ++ [ns] }

/-- `removeHookNamespaceEntry`: the namespaces that remain are a sorted set. -/
def removeHookNamespaceEntry : AccountRoot :=
  let vec := sleAccount.hookNamespaces
  let spaces := ((vec.filter (· ≠ ns)).dedup).mergeSort fun a b => decide (a.data ≤ b.data)
  if spaces.length ≠ vec.length then { sleAccount with hookNamespaces := spaces } else sleAccount

/-- The part of `setHookState` for empty data, which deletes the entry. -/
def eraseHookState : Except String (Ter × View) :=
  match view.hookState acc key ns with
  -- a request to remove a non-existent entry is defined as success
  | none => .ok (.tesSUCCESS, view)
  | some hookState =>
    if view.hookStateDir acc ns 0 = none then .ok (.tefBAD_LEDGER, view)
    else do
      let (found, dir) ←
        (view.hookStateDir acc ns).dirRemove hookState.ownerNode key false
      if found = false then .ok (.tefBAD_LEDGER, view)
      else
        let stateCount := sleAccount.stateCount - 1
        let ownerCount :=
          if computeHookStateOwnerCount stateCount
              < computeHookStateOwnerCount sleAccount.stateCount then
            confineOwnerCount sleAccount.ownerCount (-1)
          else sleAccount.ownerCount
        -- the field stays when the count is zero
        let sleAccount := { sleAccount with ownerCount, hookStateCount := some stateCount }
        -- the namespace goes with its last entry
        let sleAccount :=
          if dir 0 = none then removeHookNamespaceEntry sleAccount ns else sleAccount
        .ok (.tesSUCCESS, ((view.setHookStateDir acc ns dir).setHookStateEntry acc key ns
          none).setAccount acc sleAccount)

/-- The creation of an entry in `setHookState`. The account root has changed when the directory is
full. -/
def createHookState (data : Blob) : Except String (Ter × View) :=
  let stateCount := (sleAccount.stateCount + 1) % 0x100000000
  let grows := decide (computeHookStateOwnerCount sleAccount.stateCount
    < computeHookStateOwnerCount stateCount)
  if grows ∧ sleAccount.balance
      < view.fees.accountReserve ((sleAccount.ownerCount + 1) % 0x100000000) then
    .ok (.tecINSUFFICIENT_RESERVE, view)
  else do
    let ownerCount :=
      if grows then confineOwnerCount sleAccount.ownerCount 1 else sleAccount.ownerCount
    let sleAccount := { sleAccount with ownerCount, hookStateCount := some stateCount }
    let view := view.setAccount acc sleAccount
    match ← view.dirInsertState acc ns key with
    | none => .ok (.tecDIR_FULL, view)
    | some (page, dir) =>
      -- update namespace vector where necessary
      let sleAccount :=
        if view.hookStateDir acc ns 0 = none then addHookNamespaceEntry sleAccount ns
        else sleAccount
      .ok (.tesSUCCESS, ((view.setHookStateDir acc ns dir).setHookStateEntry acc key ns
        (some ⟨data, page⟩)).setAccount acc sleAccount)

end

/-- `setHookState`. -/
def setHookState (view : View) (acc : AccountID) (ns key : UInt256) (data : Blob) :
    Except String (Ter × View) :=
  match view.account acc with
  | none => .ok (.tefINTERNAL, view)
  | some sleAccount =>
    if maxHookStateDataSize < data.length then .ok (.temHOOK_DATA_TOO_LARGE, view)
    else if data = [] then eraseHookState view acc sleAccount ns key
    else
      match view.hookState acc key ns with
      | none => createHookState view acc sleAccount ns key data
      | some hookState =>
        .ok (.tesSUCCESS, view.setHookStateEntry acc key ns (some { hookState with data }))

/-- The entries of a map in the order of its keys. -/
def sortedEntries {n : Nat} {β : Type} (m : AList fun _ : BaseUInt n => β) :
    List (Sigma fun _ : BaseUInt n => β) :=
  m.entries.mergeSort fun a b => decide (a.1.data ≤ b.1.data)

/-- The modified entries of the cache, in the order in which they are written. -/
def HookStateMap.modifiedEntries (stateMap : HookStateMap) : List SetRequest :=
  (sortedEntries stateMap.accounts).flatMap fun accEntry =>
    (sortedEntries accEntry.2.namespaces).flatMap fun nsEntry =>
      (sortedEntries nsEntry.2).filterMap fun cacheEntry =>
        if cacheEntry.2.modified then
          some ⟨accEntry.1, nsEntry.1, cacheEntry.1, cacheEntry.2.data⟩
        else none

/-- The loop of `finalizeHookState`, with the entries that it has written. -/
def writeEntries : List SetRequest → Nat → View → Except String (Ter × View × List SetRequest)
  | [], _, view => .ok (.tesSUCCESS, view, [])
  | entry :: entries, changeCount, view => do
    let changeCount := (changeCount + 1) % 0x10000
    if maxStateModifications + 1 < changeCount then .ok (.tecHOOK_REJECTED, view, [])
    else
      let (result, view) ← setHookState view entry.acc entry.ns entry.key entry.data
      if result.isTesSuccess = false then .ok (result, view, [])
      else
        let (result, view, written) ← writeEntries entries changeCount view
        .ok (result, view, entry :: written)

/-- `finalizeHookState`, with the entries that it has written. -/
def finalizeHookState (stateMap : HookStateMap) (view : View) :
    Except String (Ter × View × List SetRequest) :=
  writeEntries stateMap.modifiedEntries 0 view

/-! ## What is written -/

section

variable {view view' : View} {acc : AccountID} {sleAccount : AccountRoot} {ns key : UInt256}
  {data : Blob} {result : Ter}

theorem View.setHookStateEntry_self :
    view.setHookStateEntry acc key ns (view.hookState acc key ns) = view := by
  unfold setHookStateEntry
  congr
  funext acc' key' ns'
  split
  next h =>
    cases h
    rfl
  · rfl

/-- What `setHookState` leaves of data: an entry without data does not exist. -/
def storedData (data : Blob) : Option Blob := if data = [] then none else some data

/-- `setHookState` sets the entry, or fails; directories apart, and the fields about hook states. -/
def Stores (view : View) (acc : AccountID) (ns key : UInt256) (data : Blob) (result : Ter)
    (view' : View) : Prop :=
  ∃ account hookStateDir, keptOf account = keptOf view.account ∧
    ((result = .tesSUCCESS ∧ ∃ hookState, hookState.map HookState.data = storedData data ∧
      view' = { view.setHookStateEntry acc key ns hookState with account, hookStateDir }) ∨
    (result.isTesSuccess = false ∧ view' = { view with account, hookStateDir }))

theorem kept_removeHookNamespaceEntry :
    (removeHookNamespaceEntry sleAccount ns).kept = sleAccount.kept := by
  unfold removeHookNamespaceEntry
  dsimp only
  split <;> rfl

theorem kept_addHookNamespaceEntry :
    (addHookNamespaceEntry sleAccount ns).kept = sleAccount.kept := by
  unfold addHookNamespaceEntry
  split <;> rfl

theorem stores_eraseHookState (hacc : view.account acc = some sleAccount)
    (h : eraseHookState view acc sleAccount ns key = .ok (result, view')) :
    Stores view acc ns key [] result view' := by
  unfold eraseHookState at h
  split at h
  next hn =>
    cases h
    refine ⟨view.account, view.hookStateDir, rfl, .inl ⟨rfl, view.hookState acc key ns, ?_, ?_⟩⟩
    · rw [hn]
      rfl
    · rw [setHookStateEntry_self]
  · split at h
    · cases h
      exact ⟨view.account, view.hookStateDir, rfl, .inr ⟨rfl, rfl⟩⟩
    · obtain ⟨⟨found, dir⟩, -, h⟩ := bind_eq_ok.mp h
      dsimp only at h
      split at h
      · cases h
        exact ⟨view.account, view.hookStateDir, rfl, .inr ⟨rfl, rfl⟩⟩
      cases h
      refine ⟨_, _, kept_setAccount hacc ?_, .inl ⟨rfl, none, rfl, rfl⟩⟩
      rw [apply_ite AccountRoot.kept, kept_removeHookNamespaceEntry]
      exact ite_self _

theorem stores_createHookState (hacc : view.account acc = some sleAccount) (hdata : data ≠ [])
    (h : createHookState view acc sleAccount ns key data = .ok (result, view')) :
    Stores view acc ns key data result view' := by
  simp only [createHookState] at h
  split at h
  · cases h
    exact ⟨view.account, view.hookStateDir, rfl, .inr ⟨rfl, rfl⟩⟩
  obtain ⟨inserted, -, h⟩ := bind_eq_ok.mp h
  split at h
  · cases h
    refine ⟨_, _, ?_, .inr ⟨rfl, rfl⟩⟩
    exact kept_setAccount hacc rfl
  cases h
  refine ⟨_, _, ?_, .inl ⟨rfl, some _, (if_neg hdata).symm, rfl⟩⟩
  -- the account root is replaced twice
  refine (kept_setAccount (update_self ..) ?_).trans
    (kept_setAccount hacc rfl)
  rw [apply_ite AccountRoot.kept, kept_addHookNamespaceEntry]
  exact ite_self _

/-- **What `setHookState` does.** -/
theorem stores_setHookState (h : setHookState view acc ns key data = .ok (result, view')) :
    Stores view acc ns key data result view' := by
  unfold setHookState at h
  split at h
  · cases h
    exact ⟨view.account, view.hookStateDir, rfl, .inr ⟨rfl, rfl⟩⟩
  rename_i sleAccount hacc
  split at h
  · cases h
    exact ⟨view.account, view.hookStateDir, rfl, .inr ⟨rfl, rfl⟩⟩
  split at h
  next hdata =>
    rw [hdata]
    exact stores_eraseHookState hacc h
  rename_i hdata
  split at h
  · exact stores_createHookState hacc hdata h
  · cases h
    exact ⟨_, _, rfl, .inl ⟨rfl, some _, (if_neg hdata).symm, rfl⟩⟩

variable {n : Nat} {entry : SetRequest} {β : Type}

theorem mem_sortedEntries {m : AList fun _ : BaseUInt n => β}
    {entry : Sigma fun _ : BaseUInt n => β} :
    entry ∈ sortedEntries m ↔ m.lookup entry.1 = some entry.2 := by
  unfold sortedEntries
  rw [mem_mergeSort, ← mem_def, AList.mem_lookup_iff]

theorem HookStateMap.mem_modifiedEntries :
    entry ∈ stateMap.modifiedEntries ↔
      stateMap.lookupStateCache entry.acc entry.ns entry.key = some ⟨true, entry.data⟩ := by
  unfold modifiedEntries lookupStateCache
  simp only [mem_flatMap, mem_filterMap, mem_sortedEntries]
  constructor
  · rintro ⟨accEntry, hacc, nsEntry, hns, cacheEntry, hcac, hent⟩
    split at hent
    next hmod =>
      cases hent
      rw [hacc, bind_eq_bind, bind_some, hns, bind_eq_bind, bind_some,
        hcac, ← hmod]
    · cases hent
  · intro h
    simp only [bind_eq_bind, bind_eq_some_iff] at h
    obtain ⟨cache, hacc, stateMapNs, hns, hcac⟩ := h
    exact ⟨⟨entry.acc, cache⟩, hacc, ⟨entry.ns, stateMapNs⟩, hns, ⟨entry.key, _⟩, hcac, rfl⟩

theorem HookStateMap.exists_mem_modifiedEntries (h : stateMap.isModified acc ns key = true) :
    ∃ entry ∈ stateMap.modifiedEntries, (acc, ns, key) = (entry.acc, entry.ns, entry.key) := by
  unfold isModified at h
  cases hlk : stateMap.lookupStateCache acc ns key with
  | none =>
    rw [hlk] at h
    cases h
  | some entry =>
    rw [hlk] at h
    refine ⟨⟨acc, ns, key, entry.data⟩, mem_modifiedEntries.mpr ?_, rfl⟩
    rw [hlk]
    cases entry
    cases h
    rfl

/-- **One round of `finalizeHookState`** writes its entry and goes on, or fails. -/
theorem writeEntries_cons
    (h : writeEntries (entry :: entries) changeCount view = .ok (result, view', written)) :
    (∃ view₁ written₁ changeCount₁,
      Stores view entry.acc entry.ns entry.key entry.data .tesSUCCESS view₁ ∧
      writeEntries entries changeCount₁ view₁ = .ok (result, view', written₁) ∧
      written = entry :: written₁) ∨
    (result.isTesSuccess = false ∧ written = [] ∧
      ∃ account hookStateDir, keptOf account = keptOf view.account ∧
        view' = { view with account, hookStateDir }) := by
  simp only [writeEntries] at h
  split at h
  · cases h
    exact .inr ⟨rfl, rfl, view.account, view.hookStateDir, rfl, rfl⟩
  obtain ⟨⟨result₁, view₁⟩, hset, h⟩ := bind_eq_ok.mp h
  have hsto := stores_setHookState hset
  split at h
  next hfai =>
    cases h
    obtain ⟨account, hookStateDir, hkept, ⟨rfl, -⟩ | ⟨-, heq⟩⟩ := hsto
    · cases hfai
    · exact .inr ⟨hfai, rfl, account, hookStateDir, hkept, heq⟩
  next hpas =>
    obtain ⟨⟨result₂, view₂, written₂⟩, hrest, h⟩ := bind_eq_ok.mp h
    cases h
    have hok : result₁ = .tesSUCCESS := by
      obtain ⟨account, hookStateDir, -, ⟨rfl, -⟩ | ⟨hfai, -⟩⟩ := hsto
      · rfl
      · exact absurd hfai hpas
    subst hok
    exact .inl ⟨view₁, written₂, _, hsto, hrest, rfl⟩

section

variable (h : writeEntries entries changeCount view = .ok (result, view', written))

include h

theorem written_of_writeEntries : result = .tesSUCCESS → written = entries := by
  induction entries generalizing changeCount view written with
  | nil =>
    cases h
    exact fun _ => rfl
  | cons entry entries ih =>
    obtain ⟨view₁, written₁, changeCount₁, -, hrest, rfl⟩ | ⟨hfai, rfl, -⟩ := writeEntries_cons h
    · intro hok
      rw [ih hrest hok]
    · rintro rfl
      cases hfai

theorem frame_of_writeEntries :
    ∃ account hookState hookStateDir, keptOf account = keptOf view.account ∧
      view' = { view with account, hookState, hookStateDir } := by
  induction entries generalizing changeCount view written with
  | nil =>
    cases h
    exact ⟨view'.account, view'.hookState, view'.hookStateDir, rfl, rfl⟩
  | cons entry entries ih =>
    obtain ⟨view₁, written₁, changeCount₁, hsto, hrest, -⟩ |
      ⟨-, -, account, hookStateDir, hkept, rfl⟩ := writeEntries_cons h
    · obtain ⟨account, hookState, hookStateDir, hkept, rfl⟩ := ih hrest
      obtain ⟨account₁, hookStateDir₁, hkept₁, ⟨-, hookState₁, -, rfl⟩ | ⟨hfai, -⟩⟩ := hsto
      · exact ⟨account, hookState, hookStateDir, hkept.trans hkept₁, rfl⟩
      · cases hfai
    · exact ⟨account, view.hookState, hookStateDir, hkept, rfl⟩

end

def View.stateData (view : View) (acc : AccountID) (ns key : UInt256) : Option Blob :=
  (view.hookState acc key ns).map HookState.data

theorem Stores.stateData (h : Stores view acc ns key data .tesSUCCESS view') (acc' : AccountID)
    (ns' key' : UInt256) :
    view'.stateData acc' ns' key' =
      if (acc', ns', key') = (acc, ns, key) then storedData data
      else view.stateData acc' ns' key' := by
  obtain ⟨account, hookStateDir, -, ⟨-, hookState, hdata, rfl⟩ | ⟨hfai, -⟩⟩ := h
  · unfold stateData setHookStateEntry
    simp only [Prod.mk.injEq]
    rw [← hdata]
    split
    next hent =>
      rw [if_pos ⟨hent.1, hent.2.2, hent.2.1⟩]
    next hent =>
      rw [if_neg (fun h => hent ⟨h.1, h.2.2, h.2.1⟩)]
  · cases hfai

/-- Writing entries without contradiction leaves each in the ledger, and no other. -/
theorem stateData_of_writeEntries (value : AccountID → UInt256 → UInt256 → Option Blob)
    (hval : ∀ entry ∈ entries, value entry.acc entry.ns entry.key = some entry.data)
    (h : writeEntries entries changeCount view = .ok (.tesSUCCESS, view', written)) :
    view'.stateData acc ns key =
      if ∃ entry ∈ entries, (acc, ns, key) = (entry.acc, entry.ns, entry.key) then
        (value acc ns key).bind storedData
      else view.stateData acc ns key := by
  induction entries generalizing changeCount view written with
  | nil =>
    cases h
    simp
  | cons entry entries ih =>
    obtain ⟨view₁, written₁, changeCount₁, hsto, hrest, -⟩ | ⟨hfai, -⟩ := writeEntries_cons h
    · rw [ih (fun e he => hval e (mem_cons_of_mem _ he)) hrest, hsto.stateData]
      by_cases hlat : ∃ e ∈ entries, (acc, ns, key) = (e.acc, e.ns, e.key)
      · obtain ⟨e, he, hkey⟩ := hlat
        rw [if_pos ⟨e, he, hkey⟩, if_pos ⟨e, mem_cons_of_mem _ he, hkey⟩]
      rw [if_neg hlat]
      split
      next hnow =>
        rw [if_pos ⟨entry, mem_cons_self, hnow⟩]
        cases hnow
        rw [hval entry mem_cons_self, bind_some]
      rename_i hnow
      rw [if_neg]
      rintro ⟨e, he, hkey⟩
      rcases mem_cons.mp he with rfl | he
      · exact hnow hkey
      · exact hlat ⟨e, he, hkey⟩
    · cases hfai

/-- **The ledger after `finalizeHookState`** has the modified entries of the cache. -/
theorem stateData_finalizeHookState
    (h : finalizeHookState stateMap view = .ok (.tesSUCCESS, view', written)) :
    view'.stateData acc ns key =
      if stateMap.isModified acc ns key then
        ((stateMap.lookupStateCache acc ns key).map CacheEntry.data).bind storedData
      else view.stateData acc ns key := by
  have hval : ∀ entry ∈ stateMap.modifiedEntries,
      (stateMap.lookupStateCache entry.acc entry.ns entry.key).map CacheEntry.data
        = some entry.data := by
    intro entry hent
    rw [HookStateMap.mem_modifiedEntries.mp hent]
    rfl
  rw [stateData_of_writeEntries (fun acc ns key =>
    (stateMap.lookupStateCache acc ns key).map CacheEntry.data) hval h]
  apply if_congr _ rfl rfl
  constructor
  · rintro ⟨entry, hent, hkey⟩
    cases hkey
    unfold HookStateMap.isModified
    rw [HookStateMap.mem_modifiedEntries.mp hent]
    rfl
  · intro hmod
    exact HookStateMap.exists_mem_modifiedEntries hmod

end

end Xahau.Hook
