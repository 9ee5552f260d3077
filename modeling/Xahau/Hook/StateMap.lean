import Xahau.Hook.View

/-! # The state cache (`HookStateMap`)

All hooks that run for a transaction share one cache of hook states. An entry is cached when it is
read and marked as modified when it is set; the modified entries are written to the ledger at the
end. -/

namespace Xahau.Hook

/-- A cached state entry. -/
structure CacheEntry where
  /-- Is modified from the ledger value. -/
  modified : Bool
  data : Blob
  deriving DecidableEq, Repr

structure AccountCache where
  /-- Remaining available owner count. -/
  availableForReserves : Int
  /-- Total namespace count. -/
  namespaceCount : Int
  /-- The entries by namespace and key. -/
  namespaces : AList fun _ : UInt256 => AList fun _ : UInt256 => CacheEntry

/-- `HookStateMap`. -/
structure HookStateMap where
  accounts : AList fun _ : AccountID => AccountCache
  /-- `modified_entry_count`. -/
  modifiedEntryCount : Nat

namespace HookStateMap

/-- The cache at the start of a chain. -/
def empty : HookStateMap := ⟨∅, 0⟩

section

variable (stateMap : HookStateMap) (acc : AccountID) (availableForReserves namespaceCount : Int)
  (ns key : UInt256)

/-- `lookup_state_cache`. -/
def lookupStateCache :
    Option CacheEntry := do
  let stateMapAcc ← stateMap.accounts.lookup acc
  let stateMapNs ← stateMapAcc.namespaces.lookup ns
  stateMapNs.lookup key

/-- `stateMap[acc][ns][key] = entry`, with the counts of the account. -/
def assign (entry : CacheEntry) (modifiedEntryCount : Nat) : HookStateMap :=
  let namespaces := ((stateMap.accounts.lookup acc).map AccountCache.namespaces).getD ∅
  let stateMapNs := (namespaces.lookup ns).getD ∅
  { accounts := stateMap.accounts.insert acc
      ⟨availableForReserves, namespaceCount, namespaces.insert ns (stateMapNs.insert key entry)⟩
    modifiedEntryCount }

end

section

variable (stateMap : HookStateMap) {acc acc' : AccountID} {available count : Int}
  {ns ns' key key' : UInt256} {entry : CacheEntry} {n : Nat}

@[simp] theorem lookupStateCache_assign :
    (stateMap.assign acc available count ns key entry n).lookupStateCache acc ns key
      = some entry := by
  simp [assign, lookupStateCache]

theorem lookupStateCache_assign_of_ne (h : (acc', ns', key') ≠ (acc, ns, key)) :
    (stateMap.assign acc available count ns key entry n).lookupStateCache acc' ns' key'
      = stateMap.lookupStateCache acc' ns' key' := by
  unfold lookupStateCache assign
  by_cases hacc : acc' = acc
  · subst hacc
    rw [AList.lookup_insert]
    by_cases hns : ns' = ns
    · subst hns
      have hkey : key' ≠ key := by
        rintro rfl
        exact h rfl
      -- the namespace is as it was but for the key, and new if it was not there
      cases hlk : stateMap.accounts.lookup acc' with
      | none => simp [-AList.insert_empty, hkey]
      | some cache =>
        cases hcac : cache.namespaces.lookup ns' with
        | none => simp [-AList.insert_empty, hcac, hkey]
        | some stateMapNs => simp [hcac, hkey]
    · cases hlk : stateMap.accounts.lookup acc' with
      | none => simp [-AList.insert_empty, hns]
      | some cache => simp [hns]
  · rw [AList.lookup_insert_ne hacc]

end

end HookStateMap

end Xahau.Hook
